/-
  Net/Wiring.lean --- how the connections of a network are wired.

  The wiring is what a switchboard keeps of its connections: from where to where they go,
  their ends, the stream packets that were made and the queues that put them in order
  again.  In a wired network every direction of a connection carries one sequence of
  packets, numbered from 0, made by the one end it comes from and dispatched in order to
  the one it leads to.
-/
import SimLoop.Net.Switchboard

set_option autoImplicit false

namespace SimLoop.Net

open SimLoop.Foundation

/-! ## Packets and ends -/

/-- The packet belongs to the direction of a connection. -/
def Packet.travels (k : Key) (p : Packet) : Bool := decide (p.kind ≠ .dgram ∧ p.key = k)

/-- From where to where a connection goes. -/
abbrev Route := Addr × Addr

/-- The packet fits the connection: handshakes come first and go their way. -/
def Packet.Fits (p : Packet) (r : Route) : Prop :=
  match p.kind with
  | .dgram => True
  | .syn => p.seq = 0 ∧ p.source = r.1 ∧ p.target = r.2
  | .accept => p.seq = 0 ∧ p.source = r.2 ∧ p.target = r.1
  | .refuse => p.seq = 0 ∧ p.source = r.2 ∧ p.target = r.1
  | _ => p.source = r.1 ∧ p.target = r.2 ∨ p.source = r.2 ∧ p.target = r.1

theorem Packet.Fits.syn {p : Packet} {r : Route} (h : p.Fits r) (hkind : p.kind = .syn) :
    p.seq = 0 ∧ p.source = r.1 ∧ p.target = r.2 := by
  simpa only [Packet.Fits, hkind] using h

theorem Packet.Fits.accept {p : Packet} {r : Route} (h : p.Fits r) (hkind : p.kind = .accept) :
    p.seq = 0 ∧ p.source = r.2 ∧ p.target = r.1 := by
  simpa only [Packet.Fits, hkind] using h

/-- The answer to a syn fits where the syn does. -/
theorem Packet.Fits.reply {p : Packet} {r : Route} (h : p.Fits r) (hkind : p.kind = .syn)
    {kind : PacketKind} (hreply : kind = .accept ∨ kind = .refuse) (uid : Nat) :
    (p.reply kind uid).Fits r := by
  obtain ⟨-, hsource, htarget⟩ := h.syn hkind
  rcases hreply with rfl | rfl <;> exact ⟨rfl, htarget, hsource⟩

/-- What the wiring keeps of a stream transport. -/
structure End where
  conn : Nat
  loc : Addr
  remote : Addr
  outSeq : Nat
  closed : Bool
  deriving DecidableEq

namespace End

/-- The direction that leads to this end. -/
def key (e : End) : Key := (e.conn, e.loc)

/-- The direction that leads to the other end. -/
def outKey (e : End) : Key := (e.conn, e.remote)

/-- The end has made one more packet. -/
def numbered (e : End) : End := { e with outSeq := e.outSeq + 1 }

def shut (e : End) : End := { e with closed := true }

@[simp] theorem key_numbered (e : End) : e.numbered.key = e.key := rfl

@[simp] theorem outKey_numbered (e : End) : e.numbered.outKey = e.outKey := rfl

@[simp] theorem key_shut (e : End) : e.shut.key = e.key := rfl

/-- The end of a route that was made for it. -/
def Joins (e : End) (r : Route) : Prop :=
  e.loc = r.1 ∧ e.remote = r.2 ∨ e.loc = r.2 ∧ e.remote = r.1

end End

/-- The connections of a network. -/
structure Wiring where
  routes : List Route
  ends : List End
  streams : Dict Key Nat
  inbound : Dict Key InOrder
  sent : List Packet

namespace Wiring

/-! ## Changes -/

/-- A packet is made. -/
def post (w : Wiring) (p : Packet) : Wiring := { w with sent := w.sent ++ [p] }

/-- Change one end. -/
def modify (w : Wiring) (t : Nat) (f : End → End) : Wiring := { w with ends := w.ends.modify t f }

/-- An end is made and registered. -/
def attach (w : Wiring) (e : End) : Wiring :=
  { w with ends := w.ends ++ [e], streams := w.streams.insert e.key w.ends.length }

/-- A packet waits in the queue of its direction. -/
def arrive (w : Wiring) (p : Packet) : Wiring :=
  let queue := (w.inbound.get? p.key).getD ⟨0, Dict.empty⟩
  let queue : InOrder := { queue with early := queue.early.insert p.seq p }
  { w with inbound := w.inbound.insert p.key queue }

/-- The next packet leaves the queue of a direction. -/
def take (w : Wiring) (k : Key) (q : InOrder) : Wiring :=
  let queue : InOrder := { q with next := q.next + 1, early := q.early.erase q.next }
  { w with inbound := w.inbound.insert k queue }

/-- The packet is next in its direction. -/
def Ready (w : Wiring) (k : Key) (q : InOrder) (p : Packet) : Prop :=
  w.inbound.get? k = some q ∧ q.early.get? q.next = some p

/-- The elementary changes. -/
inductive Move : Wiring → Wiring → Prop
  | datagram (w : Wiring) {p : Packet} (hkind : p.kind = .dgram) : Move w (w.post p)
  | opened (w : Wiring) {r : Route} {p : Packet} (hends : r.1 ≠ r.2) (hkind : p.kind = .syn)
      (hconn : p.conn = w.routes.length) (hfits : p.Fits r) :
      Move w { w.post p with routes := w.routes ++ [r] }
  | sent (w : Wiring) {t : Nat} {e : End} {p : Packet} (he : w.ends[t]? = some e)
      (hkind : p.kind = .data ∨ p.kind = .fin ∨ p.kind = .rst) (hconn : p.conn = e.conn)
      (hsource : p.source = e.loc) (htarget : p.target = e.remote) (hseq : p.seq = e.outSeq) :
      Move w ((w.modify t .numbered).post p)
  | closed (w : Wiring) {t : Nat} {e : End} (he : w.ends[t]? = some e) :
      Move w { w.modify t .shut with streams := w.streams.erase e.key }
  | arrived (w : Wiring) {p : Packet} (hp : p ∈ w.sent) (hkind : p.kind ≠ .dgram) :
      Move w (w.arrive p)
  | taken (w : Wiring) {k : Key} {q : InOrder} {p : Packet} (hready : w.Ready k q p) :
      Move w (w.take k q)
  | heard (w : Wiring) {k : Key} {q : InOrder} {p : Packet} (hready : w.Ready k q p)
      (hkind : p.kind = .syn) (uid : Nat) :
      Move w (((w.take k q).attach ⟨p.conn, p.target, p.source, 1, false⟩).post
        (p.reply .accept uid))
  | unheard (w : Wiring) {k : Key} {q : InOrder} {p : Packet} (hready : w.Ready k q p)
      (hkind : p.kind = .syn) (uid : Nat) : Move w ((w.take k q).post (p.reply .refuse uid))
  | accepted (w : Wiring) {k : Key} {q : InOrder} {p : Packet} {r : Route}
      (hready : w.Ready k q p) (hkind : p.kind = .accept) (hr : w.routes[p.conn]? = some r) :
      Move w ((w.take k q).attach ⟨p.conn, r.1, r.2, 1, false⟩)

/-- Any number of moves. -/
def Moves : Wiring → Wiring → Prop := Relation.ReflTransGen Move

/-! ## Directions -/

/-- The packets of one direction, in the order they were made. -/
def on (w : Wiring) (k : Key) : List Packet := w.sent.filter (Packet.travels k)

/-- The number of the next packet to be dispatched in a direction. -/
def next (w : Wiring) (k : Key) : Nat := ((w.inbound.get? k).map (·.next)).getD 0

theorem mem_on {w : Wiring} {k : Key} {p : Packet} :
    p ∈ w.on k ↔ p ∈ w.sent ∧ p.kind ≠ .dgram ∧ p.key = k := by
  simp only [on, List.mem_filter, Packet.travels, decide_eq_true_eq]

theorem on_post_of_dgram {w : Wiring} {p : Packet} (h : p.kind = .dgram) (k : Key) :
    (w.post p).on k = w.on k := by
  simp only [on, post, List.filter_append, List.filter_cons, List.filter_nil, Packet.travels,
    h, ne_eq, not_true_eq_false, false_and, decide_false, Bool.false_eq_true, if_false,
    List.append_nil]

/-- How a direction looks when a stream packet was made. -/
theorem on_post {w : Wiring} {p : Packet} (hkind : p.kind ≠ .dgram) (k : Key) :
    (w.post p).on k = if p.key = k then w.on k ++ [p] else w.on k := by
  simp only [on, post, List.filter_append, List.filter_cons, List.filter_nil, Packet.travels,
    hkind, ne_eq, not_false_eq_true, true_and]
  split <;> simp_all

theorem on_post_of_ne {w : Wiring} {p : Packet} {k : Key} (h : p.key ≠ k) :
    (w.post p).on k = w.on k := by
  cases hkind : decide (p.kind = .dgram) with
  | true => exact on_post_of_dgram (of_decide_eq_true hkind) k
  | false => rw [on_post (of_decide_eq_false hkind), if_neg h]

theorem on_subset_post (w : Wiring) (p : Packet) (k : Key) : w.on k ⊆ (w.post p).on k := by
  intro q hq
  obtain ⟨hmem, hrest⟩ := mem_on.mp hq
  exact mem_on.mpr ⟨List.mem_append_left _ hmem, hrest⟩

theorem length_on_le_post (w : Wiring) (p : Packet) (k : Key) :
    (w.on k).length ≤ ((w.post p).on k).length := by
  simp only [on, post, List.filter_append, List.length_append]
  omega

theorem next_take {w : Wiring} {k : Key} {q : InOrder} (k' : Key) :
    (w.take k q).next k' = if k = k' then q.next + 1 else w.next k' := by
  simp only [next, take, Dict.get?_insert]
  split <;> rfl

theorem next_arrive {w : Wiring} {p : Packet} (k : Key) : (w.arrive p).next k = w.next k := by
  simp only [next, arrive, Dict.get?_insert]
  split
  · rename_i hk
    rw [← hk]
    cases w.inbound.get? p.key <;> rfl
  · rfl

theorem Ready.next {w : Wiring} {k : Key} {q : InOrder} {p : Packet} (h : w.Ready k q p) :
    w.next k = q.next := by
  simp only [Wiring.next, h.1, Option.map_some, Option.getD_some]

theorem next_le_take {w : Wiring} {k : Key} {q : InOrder} {p : Packet} (h : w.Ready k q p)
    (k' : Key) : w.next k' ≤ (w.take k q).next k' := by
  rw [next_take]
  split
  · rename_i hk
    rw [← hk, h.next]
    exact Nat.le_succ _
  · exact le_refl _

theorem one_le_next_take (w : Wiring) (k : Key) (q : InOrder) : 1 ≤ (w.take k q).next k := by
  rw [next_take, if_pos rfl]
  exact Nat.succ_le_succ (Nat.zero_le _)

@[simp] theorem on_take (w : Wiring) (k k' : Key) (q : InOrder) :
    (w.take k q).on k' = w.on k' := rfl

@[simp] theorem on_attach (w : Wiring) (e : End) (k : Key) : (w.attach e).on k = w.on k := rfl

@[simp] theorem on_modify (w : Wiring) (t : Nat) (f : End → End) (k : Key) :
    (w.modify t f).on k = w.on k := rfl

/-- A change of an end that leaves its direction keeps all keys. -/
theorem map_key_modify {f : End → End} (hf : ∀ e, (f e).key = e.key) (es : List End) (t : Nat) :
    (es.modify t f).map End.key = es.map End.key :=
  map_modify_eq hf es t

theorem mem_modify {f : End → End} {es : List End} {t : Nat} {e : End}
    (he : e ∈ es.modify t f) : e ∈ es ∨ ∃ e', es[t]? = some e' ∧ e = f e' := by
  obtain ⟨i, hi⟩ := List.mem_iff_getElem?.mp he
  rw [List.getElem?_modify] at hi
  obtain ⟨e', he', rfl⟩ := Option.map_eq_some_iff.mp hi
  split
  · rename_i hti
    rw [← hti] at he'
    exact .inr ⟨e', he', rfl⟩
  · exact .inl (List.mem_of_getElem? he')

/-! ## Wired networks -/

/-- Every direction is one numbered sequence, from one end to another. -/
structure Wired (w : Wiring) : Prop where
  distinct : ∀ r ∈ w.routes, r.1 ≠ r.2
  sides : ∀ e ∈ w.ends, ∃ r, w.routes[e.conn]? = some r ∧ e.Joins r
  fitting : ∀ p ∈ w.sent, p.kind ≠ .dgram → ∃ r, w.routes[p.conn]? = some r ∧ p.Fits r
  numbered : ∀ (k : Key) (i : Nat) (p : Packet), (w.on k)[i]? = some p → p.seq = i
  counted : ∀ e ∈ w.ends, (w.on e.outKey).length = e.outSeq
  unanswered : ∀ n r, w.routes[n]? = some r → (∀ e ∈ w.ends, e.key ≠ (n, r.1)) →
    (w.on (n, r.2)).length = 1
  unheard : ∀ n r, w.routes[n]? = some r → w.next (n, r.2) = 0 → w.on (n, r.1) = []
  unique : (w.ends.map End.key).Nodup
  heard : ∀ e ∈ w.ends, 1 ≤ w.next e.key
  registered : ∀ i e, w.ends[i]? = some e → e.closed = false → w.streams.get? e.key = some i
  queues : ∀ k q, w.inbound.get? k = some q → q.next ≤ (w.on k).length ∧
    ∀ n p, q.early.get? n = some p → p ∈ w.on k ∧ p.seq = n

namespace Wired

variable {w : Wiring} {k : Key} {q : InOrder} {p : Packet}

theorem empty : Wired ⟨[], [], Dict.empty, Dict.empty, []⟩ where
  distinct _ h := absurd h List.not_mem_nil
  sides _ h := absurd h List.not_mem_nil
  fitting _ h := absurd h List.not_mem_nil
  numbered _ _ _ h := by cases h
  counted _ h := absurd h List.not_mem_nil
  unanswered _ _ h := by cases h
  unheard _ _ h := by cases h
  unique := List.nodup_nil
  heard _ h := absurd h List.not_mem_nil
  registered _ _ h := by cases h
  queues _ _ h := by cases h

/-- Nothing travels on a connection that was not opened yet. -/
theorem on_unopened (hw : w.Wired) (hk : w.routes.length ≤ k.1) : w.on k = [] := by
  refine List.eq_nil_iff_forall_not_mem.mpr fun p hp => ?_
  obtain ⟨hmem, hkind, hkey⟩ := mem_on.mp hp
  obtain ⟨r, hr, -⟩ := hw.fitting p hmem hkind
  have hlt := (List.getElem?_eq_some_iff.mp hr).1
  have hconn : p.conn = k.1 := congrArg Prod.fst hkey
  omega

/-- A packet that is next belongs to the direction, and its number says that it is next. -/
theorem ready (hw : w.Wired) (h : w.Ready k q p) :
    p ∈ w.on k ∧ p.seq = q.next ∧ q.next < (w.on k).length := by
  obtain ⟨hmem, hseq⟩ := (hw.queues k q h.1).2 _ _ h.2
  refine ⟨hmem, hseq, ?_⟩
  obtain ⟨i, hi⟩ := List.mem_iff_getElem?.mp hmem
  rw [← hseq, hw.numbered k i p hi]
  exact (List.getElem?_eq_some_iff.mp hi).1

/-- Two ends at the same place are the same. -/
theorem eq_of_key (hw : w.Wired) {t u : Nat} {e f : End} (he : w.ends[t]? = some e)
    (hf : w.ends[u]? = some f) (h : e.key = f.key) : t = u := by
  have het : (w.ends.map End.key)[t]? = some e.key := by
    rw [List.getElem?_map, he, Option.map_some]
  have hfu : (w.ends.map End.key)[u]? = some e.key := by
    rw [List.getElem?_map, hf, Option.map_some, h]
  exact (List.getElem?_inj (List.getElem?_eq_some_iff.mp het).1 hw.unique).mp (het.trans hfu.symm)

/-- Two ends that lead the same way are the same. -/
theorem eq_of_outKey (hw : w.Wired) {t u : Nat} {e f : End} (he : w.ends[t]? = some e)
    (hf : w.ends[u]? = some f) (h : e.outKey = f.outKey) : t = u := by
  have hconn : e.conn = f.conn := congrArg Prod.fst h
  have hremote : e.remote = f.remote := congrArg Prod.snd h
  obtain ⟨r, hr, hside⟩ := hw.sides e (List.mem_of_getElem? he)
  obtain ⟨r', hr', hside'⟩ := hw.sides f (List.mem_of_getElem? hf)
  rw [hconn, hr'] at hr
  obtain rfl := Option.some.inj hr
  have hne := hw.distinct _ (List.mem_of_getElem? hr')
  have hkey : e.key = f.key := by
    refine Prod.ext hconn ?_
    show e.loc = f.loc
    rcases hside with ⟨h1, h2⟩ | ⟨h1, h2⟩ <;> rcases hside' with ⟨h3, h4⟩ | ⟨h3, h4⟩
    · rw [h1, h3]
    · exact absurd (h4.symm.trans (hremote.symm.trans h2)) hne
    · exact absurd (h2.symm.trans (hremote.trans h4)) hne
    · rw [h1, h3]
  exact hw.eq_of_key he hf hkey

/-- Where an end comes from is the other side of where it leads. -/
theorem key_of_remote_fst (hw : w.Wired) {e : End} (he : e ∈ w.ends) {n : Nat} {r : Route}
    (hr : w.routes[n]? = some r) (h : e.outKey = (n, r.1)) : e.key = (n, r.2) := by
  obtain ⟨r', hr', hside⟩ := hw.sides e he
  have hconn : e.conn = n := congrArg Prod.fst h
  have hremote : e.remote = r.1 := congrArg Prod.snd h
  rw [hconn, hr] at hr'
  obtain rfl := Option.some.inj hr'
  rcases hside with ⟨-, h2⟩ | ⟨h1, -⟩
  · exact absurd (hremote.symm.trans h2) (hw.distinct _ (List.mem_of_getElem? hr))
  · exact Prod.ext hconn h1

theorem key_of_remote_snd (hw : w.Wired) {e : End} (he : e ∈ w.ends) {n : Nat} {r : Route}
    (hr : w.routes[n]? = some r) (h : e.outKey = (n, r.2)) : e.key = (n, r.1) := by
  obtain ⟨r', hr', hside⟩ := hw.sides e he
  have hconn : e.conn = n := congrArg Prod.fst h
  have hremote : e.remote = r.2 := congrArg Prod.snd h
  rw [hconn, hr] at hr'
  obtain rfl := Option.some.inj hr'
  rcases hside with ⟨h1, -⟩ | ⟨-, h2⟩
  · exact Prod.ext hconn h1
  · exact absurd (h2.symm.trans hremote) (hw.distinct _ (List.mem_of_getElem? hr))

/-! ### Posting -/

/-- A queue stays within its direction when packets are made. -/
theorem queues_post (hw : w.Wired) (p : Packet) (k : Key) (q : InOrder)
    (hq : w.inbound.get? k = some q) : q.next ≤ ((w.post p).on k).length ∧
    ∀ n x, q.early.get? n = some x → x ∈ (w.post p).on k ∧ x.seq = n := by
  obtain ⟨hle, hearly⟩ := hw.queues k q hq
  refine ⟨hle.trans (length_on_le_post w p k), fun n x hx => ?_⟩
  obtain ⟨hmem, hseq⟩ := hearly n x hx
  exact ⟨on_subset_post w p k hmem, hseq⟩

theorem datagram (hw : w.Wired) (hkind : p.kind = .dgram) : (w.post p).Wired where
  distinct := hw.distinct
  sides := hw.sides
  fitting x hx hne := by
    rcases List.mem_append.mp hx with hx | hx
    · exact hw.fitting x hx hne
    · rw [List.mem_singleton.mp hx] at hne
      exact absurd hkind hne
  numbered k i x hx := hw.numbered k i x (on_post_of_dgram hkind k ▸ hx)
  counted e he := by
    rw [on_post_of_dgram hkind]
    exact hw.counted e he
  unanswered n r hr hnone := by
    rw [on_post_of_dgram hkind]
    exact hw.unanswered n r hr hnone
  unheard n r hr hnext := by
    rw [on_post_of_dgram hkind]
    exact hw.unheard n r hr hnext
  unique := hw.unique
  heard := hw.heard
  registered := hw.registered
  queues := hw.queues_post p

/-- A packet whose number is the next one of its direction keeps every direction numbered. -/
theorem numbered_post (hw : w.Wired) (hkind : p.kind ≠ .dgram)
    (hseq : p.seq = (w.on p.key).length) (k : Key) (i : Nat) (x : Packet)
    (hx : ((w.post p).on k)[i]? = some x) : x.seq = i := by
  rw [on_post hkind] at hx
  split at hx
  · rename_i hk
    subst hk
    rw [List.getElem?_append] at hx
    split at hx
    · exact hw.numbered _ i x hx
    · obtain ⟨rfl, rfl⟩ : i = (w.on p.key).length ∧ p = x := by
        have hlt := (List.getElem?_eq_some_iff.mp hx).1
        simp only [List.length_singleton] at hlt
        have hi : i - (w.on p.key).length = 0 := by omega
        rw [hi] at hx
        exact ⟨by omega, Option.some.inj hx⟩
      exact hseq
  · exact hw.numbered k i x hx

theorem fitting_post (hw : w.Wired) {routes : List Route} {n : Nat} {r : Route}
    (hroutes : ∀ (n : Nat) (r : Route), w.routes[n]? = some r → routes[n]? = some r) (hn : p.conn = n)
    (hr : routes[n]? = some r) (hfits : p.Fits r) (x : Packet) (hx : x ∈ w.sent ++ [p])
    (hkind : x.kind ≠ .dgram) : ∃ r, routes[x.conn]? = some r ∧ x.Fits r := by
  rcases List.mem_append.mp hx with hx | hx
  · obtain ⟨r', hr', hfits'⟩ := hw.fitting x hx hkind
    exact ⟨r', hroutes _ _ hr', hfits'⟩
  · rw [List.mem_singleton.mp hx, hn]
    exact ⟨r, hr, hfits⟩

/-- A connection is opened. -/
theorem opened (hw : w.Wired) {r : Route} (hends : r.1 ≠ r.2) (hkind : p.kind = .syn)
    (hconn : p.conn = w.routes.length) (hfits : p.Fits r) :
    Wired { w.post p with routes := w.routes ++ [r] } := by
  obtain ⟨hseq, hsource, htarget⟩ := hfits.syn hkind
  have hstream : p.kind ≠ .dgram := by rw [hkind]; decide
  have hkey : p.key = (w.routes.length, r.2) := by rw [p.key_eq, hconn, htarget]
  have hempty : ∀ a, w.on (w.routes.length, a) = [] := fun a => hw.on_unopened (le_refl _)
  have hold : ∀ {n r'}, w.routes[n]? = some r' → (w.routes ++ [r])[n]? = some r' := fun h => by
    rw [List.getElem?_append_left (List.getElem?_eq_some_iff.mp h).1]
    exact h
  have hcases : ∀ {n r'}, (w.routes ++ [r])[n]? = some r' →
      w.routes[n]? = some r' ∨ n = w.routes.length ∧ r' = r := by
    intro n r' h
    rw [List.getElem?_append] at h
    split at h
    · exact .inl h
    · have hlt := (List.getElem?_eq_some_iff.mp h).1
      simp only [List.length_singleton] at hlt
      have hn : n - w.routes.length = 0 := by omega
      rw [hn] at h
      exact .inr ⟨by omega, (Option.some.inj h).symm⟩
  have hother : ∀ {n r'} (a : Addr), w.routes[n]? = some r' → (w.post p).on (n, a) = w.on (n, a) := by
    intro n r' a h
    refine on_post_of_ne fun hk => ?_
    have hn : w.routes.length = n := congrArg Prod.fst (hkey.symm.trans hk)
    have hlt := (List.getElem?_eq_some_iff.mp h).1
    omega
  refine { distinct := fun x hx => ?_, sides := fun e he => ?_, fitting := ?_, numbered := ?_,
           counted := fun e he => ?_, unanswered := fun n x hx hnone => ?_,
           unheard := fun n x hx hnext => ?_, unique := hw.unique, heard := hw.heard,
           registered := hw.registered, queues := hw.queues_post p }
  · rcases List.mem_append.mp hx with hx | hx
    · exact hw.distinct x hx
    · rw [List.mem_singleton.mp hx]
      exact hends
  · obtain ⟨x, hx, hside⟩ := hw.sides e he
    exact ⟨x, hold hx, hside⟩
  · refine hw.fitting_post (fun n x => hold) hconn ?_ hfits
    rw [List.getElem?_append_right (le_refl _), Nat.sub_self]
    rfl
  · refine hw.numbered_post hstream ?_
    rw [hkey, hempty, hseq]
    rfl
  · obtain ⟨x, hx, -⟩ := hw.sides e he
    exact (congrArg List.length (hother e.remote hx)).trans (hw.counted e he)
  · rcases hcases hx with hx | ⟨rfl, rfl⟩
    · exact (congrArg List.length (hother x.2 hx)).trans (hw.unanswered n x hx hnone)
    · show ((w.post p).on (w.routes.length, x.2)).length = 1
      rw [on_post hstream, if_pos hkey, hempty]
      rfl
  · rcases hcases hx with hx | ⟨rfl, rfl⟩
    · exact (hother x.1 hx).trans (hw.unheard n x hx hnext)
    · refine (on_post_of_ne fun hk => ?_).trans (hempty x.1)
      exact hends (congrArg Prod.snd (hkey.symm.trans hk)).symm

/-! ### Ends -/

/-- Changing flags or counters of an end keeps what is said about where the ends are. -/
theorem sides_modify (hw : w.Wired) {t : Nat} {f : End → End}
    (hf : ∀ e, (f e).conn = e.conn ∧ (f e).loc = e.loc ∧ (f e).remote = e.remote) (e : End)
    (he : e ∈ w.ends.modify t f) : ∃ r, w.routes[e.conn]? = some r ∧ e.Joins r := by
  rcases mem_modify he with he | ⟨e', he', rfl⟩
  · exact hw.sides e he
  · obtain ⟨hconn, hloc, hremote⟩ := hf e'
    obtain ⟨r, hr, hside⟩ := hw.sides e' (List.mem_of_getElem? he')
    refine ⟨r, hconn ▸ hr, ?_⟩
    rw [End.Joins, hloc, hremote]
    exact hside

theorem heard_modify (hw : w.Wired) {t : Nat} {f : End → End} (hf : ∀ e, (f e).key = e.key)
    (e : End) (he : e ∈ w.ends.modify t f) : 1 ≤ w.next e.key := by
  rcases mem_modify he with he | ⟨e', he', rfl⟩
  · exact hw.heard e he
  · rw [hf]
    exact hw.heard e' (List.mem_of_getElem? he')

theorem unique_modify (hw : w.Wired) {t : Nat} {f : End → End} (hf : ∀ e, (f e).key = e.key) :
    ((w.ends.modify t f).map End.key).Nodup := by
  rw [map_key_modify hf]
  exact hw.unique

/-- No end is at a place where none was before. -/
theorem none_of_modify {f : End → End} (hf : ∀ e, (f e).key = e.key) {t : Nat} {k : Key}
    (h : ∀ e ∈ w.ends.modify t f, e.key ≠ k) (e : End) (he : e ∈ w.ends) : e.key ≠ k := by
  have hkeys : e.key ∈ (w.ends.modify t f).map End.key := by
    rw [map_key_modify hf]
    exact List.mem_map_of_mem he
  obtain ⟨e', he', hkey⟩ := List.mem_map.mp hkeys
  exact hkey ▸ h e' he'

/-- An end makes its next packet. -/
theorem sent (hw : w.Wired) {t : Nat} {e : End} (he : w.ends[t]? = some e)
    (hkind : p.kind = .data ∨ p.kind = .fin ∨ p.kind = .rst) (hconn : p.conn = e.conn)
    (hsource : p.source = e.loc) (htarget : p.target = e.remote) (hseq : p.seq = e.outSeq) :
    Wired ((w.modify t .numbered).post p) := by
  have hmem := List.mem_of_getElem? he
  have hkey : p.key = e.outKey := by rw [p.key_eq, hconn, htarget]; rfl
  have hstream : p.kind ≠ .dgram := by
    rcases hkind with h | h | h <;> rw [h] <;> decide
  obtain ⟨r, hr, hside⟩ := hw.sides e hmem
  have hfits : p.Fits r := by
    rcases hkind with h | h | h <;> simp only [Packet.Fits, h, hsource, htarget] <;> exact hside
  have hon : ∀ k, ((w.modify t .numbered).post p).on k =
      if p.key = k then w.on k ++ [p] else w.on k := fun k => on_post hstream k
  refine { distinct := hw.distinct, sides := hw.sides_modify fun _ => ⟨rfl, rfl, rfl⟩,
           fitting := hw.fitting_post (fun _ _ h => h) hconn hr hfits, numbered := ?_,
           counted := fun f hf => ?_, unanswered := fun n x hx hnone => ?_,
           unheard := fun n x hx hnext => ?_,
           unique := hw.unique_modify End.key_numbered,
           heard := hw.heard_modify End.key_numbered, registered := fun i f hf hopen => ?_,
           queues := hw.queues_post p }
  · refine hw.numbered_post hstream ?_
    rw [hkey, hw.counted e hmem, hseq]
  · rw [hon]
    obtain ⟨i, hi⟩ := List.mem_iff_getElem?.mp hf
    change (w.ends.modify t _)[i]? = some f at hi
    rw [List.getElem?_modify] at hi
    obtain ⟨f', hf', rfl⟩ := Option.map_eq_some_iff.mp hi
    split
    · rename_i hti
      subst hti
      obtain rfl := Option.some.inj (he.symm.trans hf')
      rw [End.outKey_numbered, if_pos hkey, List.length_append, hw.counted e hmem]
      rfl
    · rename_i hti
      rw [if_neg fun h => hti (hw.eq_of_outKey he hf' (hkey.symm.trans h))]
      exact hw.counted f' (List.mem_of_getElem? hf')
  · have hnone := none_of_modify End.key_numbered hnone
    rw [hon, if_neg fun h => hnone e hmem (hw.key_of_remote_snd hmem hx (hkey.symm.trans h))]
    exact hw.unanswered n x hx hnone
  · rw [hon, if_neg fun h => ?_]
    · exact hw.unheard n x hx hnext
    · have hheard := hw.heard e hmem
      rw [hw.key_of_remote_fst hmem hx (hkey.symm.trans h)] at hheard
      exact absurd hnext (Nat.one_le_iff_ne_zero.mp hheard)
  · change (w.ends.modify t _)[i]? = some f at hf
    rw [List.getElem?_modify] at hf
    obtain ⟨f', hf', rfl⟩ := Option.map_eq_some_iff.mp hf
    split at hopen <;> rename_i hti
    · rw [if_pos hti]
      exact hw.registered i f' hf' hopen
    · rw [if_neg hti]
      exact hw.registered i f' hf' hopen

/-- An end is closed and leaves the registry. -/
theorem closed (hw : w.Wired) {t : Nat} {e : End} (he : w.ends[t]? = some e) :
    Wired { w.modify t .shut with streams := w.streams.erase e.key } where
  distinct := hw.distinct
  sides := hw.sides_modify fun _ => ⟨rfl, rfl, rfl⟩
  fitting := hw.fitting
  numbered := hw.numbered
  counted f hf := by
    rcases mem_modify hf with hf | ⟨f', hf', rfl⟩
    · exact hw.counted f hf
    · exact hw.counted f' (List.mem_of_getElem? hf')
  unanswered n x hx hnone :=
    hw.unanswered n x hx (none_of_modify End.key_shut hnone)
  unheard := hw.unheard
  unique := hw.unique_modify End.key_shut
  heard := hw.heard_modify End.key_shut
  registered i f hf hopen := by
    change (w.ends.modify t _)[i]? = some f at hf
    rw [List.getElem?_modify] at hf
    obtain ⟨f', hf', rfl⟩ := Option.map_eq_some_iff.mp hf
    split at hopen <;> rename_i hti
    · cases hopen
    · rw [if_neg hti]
      refine (Dict.get?_erase_of_ne _ fun hkey => hti (hw.eq_of_key he hf' hkey)).trans ?_
      exact hw.registered i f' hf' hopen
  queues := hw.queues

/-! ### Queues -/

/-- A packet arrives. -/
theorem arrived (hw : w.Wired) (hp : p ∈ w.sent) (hkind : p.kind ≠ .dgram) :
    (w.arrive p).Wired where
  distinct := hw.distinct
  sides := hw.sides
  fitting := hw.fitting
  numbered := hw.numbered
  counted := hw.counted
  unanswered := hw.unanswered
  unheard n r hr hnext := hw.unheard n r hr (next_arrive (p := p) _ ▸ hnext)
  unique := hw.unique
  heard e he := by
    rw [next_arrive]
    exact hw.heard e he
  registered := hw.registered
  queues k q hq := by
    simp only [arrive, Dict.get?_insert] at hq
    split at hq
    · rename_i hk
      subst hk
      obtain rfl := Option.some.inj hq
      have hmem : p ∈ w.on p.key := mem_on.mpr ⟨hp, hkind, rfl⟩
      cases hold : w.inbound.get? p.key with
      | none =>
          refine ⟨Nat.zero_le _, fun n x hx => ?_⟩
          simp only [Option.getD_none, Dict.get?_insert] at hx
          split at hx
          · obtain rfl := Option.some.inj hx
            exact ⟨hmem, ‹_›⟩
          · cases hx
      | some q =>
          obtain ⟨hle, hearly⟩ := hw.queues p.key q hold
          refine ⟨hle, fun n x hx => ?_⟩
          simp only [Option.getD_some, Dict.get?_insert] at hx
          split at hx
          · obtain rfl := Option.some.inj hx
            exact ⟨hmem, ‹_›⟩
          · exact hearly n x hx
    · exact hw.queues k q hq

/-- The queues are right when the next packet of a direction has left. -/
theorem queues_take (hw : w.Wired) (h : w.Ready k q p) (k' : Key) (q' : InOrder)
    (hq' : (w.take k q).inbound.get? k' = some q') : q'.next ≤ (w.on k').length ∧
    ∀ n x, q'.early.get? n = some x → x ∈ w.on k' ∧ x.seq = n := by
  obtain ⟨-, -, hlt⟩ := hw.ready h
  simp only [take, Dict.get?_insert] at hq'
  split at hq'
  · rename_i hk
    subst hk
    obtain rfl := Option.some.inj hq'
    refine ⟨hlt, fun n x hx => ?_⟩
    simp only [Dict.get?_erase] at hx
    split at hx
    · cases hx
    · exact (hw.queues k q h.1).2 n x hx
  · exact hw.queues k' q' hq'

/-- A packet leaves its queue, and that is all. -/
theorem taken (hw : w.Wired) (h : w.Ready k q p) : (w.take k q).Wired where
  distinct := hw.distinct
  sides := hw.sides
  fitting := hw.fitting
  numbered := hw.numbered
  counted := hw.counted
  unanswered := hw.unanswered
  unheard n r hr hnext := hw.unheard n r hr (Nat.le_zero.mp (hnext ▸ next_le_take h _))
  unique := hw.unique
  heard e he := (hw.heard e he).trans (next_le_take h _)
  registered := hw.registered
  queues := hw.queues_take h

/-! ### Handshakes -/

/-- Where a syn is next nothing was dispatched yet, and nothing was sent back. -/
theorem syn_first (hw : w.Wired) (h : w.Ready k q p) (hkind : p.kind = .syn) :
    ∃ r, w.routes[p.conn]? = some r ∧ p.Fits r ∧ k = (p.conn, r.2) ∧ w.next k = 0 ∧
      w.on (p.conn, r.1) = [] := by
  obtain ⟨hmem, hseq, -⟩ := hw.ready h
  obtain ⟨hsent, hstream, hkey⟩ := mem_on.mp hmem
  obtain ⟨r, hr, hfits⟩ := hw.fitting p hsent hstream
  obtain ⟨hzero, -, htarget⟩ := hfits.syn hkind
  have hk : k = (p.conn, r.2) := by rw [← hkey, p.key_eq, htarget]
  have hnext : w.next k = 0 := by rw [h.next, ← hseq, hzero]
  exact ⟨r, hr, hfits, hk, hnext, hw.unheard _ r hr (hk ▸ hnext)⟩

/-- Nobody is at a place where nothing was dispatched. -/
theorem none_of_next_eq_zero (hw : w.Wired) (hnext : w.next k = 0) (e : End) (he : e ∈ w.ends) :
    e.key ≠ k := by
  rintro rfl
  exact absurd hnext (Nat.one_le_iff_ne_zero.mp (hw.heard e he))

/-- The answer to the syn of a route leads to who sent it. -/
theorem key_reply {r : Route} (hfits : p.Fits r) (hkind : p.kind = .syn) (kind : PacketKind)
    (uid : Nat) : (p.reply kind uid).key = (p.conn, r.1) := by
  obtain ⟨-, hsource, -⟩ := hfits.syn hkind
  rw [← hsource]
  rfl

/-- Nobody was where a new end is. -/
theorem unique_attach (hw : w.Wired) {e : End} (hkey : e.key = k)
    (hnone : ∀ f ∈ w.ends, f.key ≠ k) : ((w.ends ++ [e]).map End.key).Nodup := by
  rw [List.map_append, List.map_singleton, ← List.concat_eq_append]
  refine hw.unique.concat fun hmem => ?_
  obtain ⟨f, hf, hfe⟩ := List.mem_map.mp hmem
  exact hnone f hf (hfe.trans hkey)

theorem heard_attach (hw : w.Wired) {e : End} (hkey : e.key = k) (hnext : 1 ≤ w.next k)
    (f : End) (hf : f ∈ w.ends ++ [e]) : 1 ≤ w.next f.key := by
  rcases List.mem_append.mp hf with hf | hf
  · exact hw.heard f hf
  · rw [List.mem_singleton.mp hf, hkey]
    exact hnext

theorem registered_attach (hw : w.Wired) {e : End} (hkey : e.key = k)
    (hnone : ∀ f ∈ w.ends, f.key ≠ k) (i : Nat) (f : End) (hf : (w.ends ++ [e])[i]? = some f)
    (hopen : f.closed = false) :
    (w.streams.insert e.key w.ends.length).get? f.key = some i := by
  rw [List.getElem?_append] at hf
  split at hf
  · refine (Dict.get?_insert_of_ne _ _ fun heq => ?_).trans (hw.registered i f hf hopen)
    exact hnone f (List.mem_of_getElem? hf) (heq.symm.trans hkey)
  · have hlt := (List.getElem?_eq_some_iff.mp hf).1
    simp only [List.length_singleton] at hlt
    have hi : i - w.ends.length = 0 := by omega
    rw [hi] at hf
    obtain rfl := Option.some.inj hf
    rw [Dict.get?_insert_self]
    exact congrArg some (by omega)

/-- The answer to a syn goes where no end sends, and on no way out. -/
theorem on_reply (hw : w.Wired) (h : w.Ready k q p) (hkind : p.kind = .syn) (kind : PacketKind)
    (uid : Nat) :
    (∀ e ∈ w.ends, ((w.take k q).post (p.reply kind uid)).on e.outKey = w.on e.outKey) ∧
    ∀ n r, w.routes[n]? = some r →
      ((w.take k q).post (p.reply kind uid)).on (n, r.2) = w.on (n, r.2) ∧
      ((w.take k q).next (n, r.2) = 0 →
        ((w.take k q).post (p.reply kind uid)).on (n, r.1) = []) := by
  obtain ⟨r, hr, hfits, hk, hnext, -⟩ := hw.syn_first h hkind
  have hkey := key_reply hfits hkind kind uid
  have hne := hw.distinct r (List.mem_of_getElem? hr)
  refine ⟨fun e he => on_post_of_ne fun heq => ?_, fun n x hx => ⟨on_post_of_ne fun heq => ?_,
    fun hzero => (on_post_of_ne fun heq => ?_).trans ((hw.taken h).unheard n x hx hzero)⟩⟩
  · refine hw.none_of_next_eq_zero hnext e he ?_
    rw [hk]
    exact hw.key_of_remote_fst he hr (heq.symm.trans hkey)
  · obtain rfl : p.conn = n := congrArg Prod.fst (hkey.symm.trans heq)
    obtain rfl := Option.some.inj (hr.symm.trans hx)
    exact hne (congrArg Prod.snd (hkey.symm.trans heq))
  · obtain rfl : p.conn = n := congrArg Prod.fst (hkey.symm.trans heq)
    obtain rfl := Option.some.inj (hr.symm.trans hx)
    rw [next_take, if_pos hk] at hzero
    cases hzero

/-- A syn is refused. -/
theorem unheard_syn (hw : w.Wired) (h : w.Ready k q p) (hkind : p.kind = .syn) (uid : Nat) :
    ((w.take k q).post (p.reply .refuse uid)).Wired := by
  obtain ⟨r, hr, hfits, -, -, hback⟩ := hw.syn_first h hkind
  obtain ⟨hends, hroutes⟩ := hw.on_reply h hkind .refuse uid
  have ht := hw.taken h
  refine { distinct := hw.distinct, sides := hw.sides,
           fitting := ht.fitting_post (fun _ _ h => h) rfl hr (hfits.reply hkind (.inr rfl) uid),
           numbered := ht.numbered_post (fun h => by cases h) ?_,
           counted := fun e he => (congrArg List.length (hends e he)).trans (hw.counted e he),
           unanswered := fun n x hx hnone =>
             (congrArg List.length (hroutes n x hx).1).trans (hw.unanswered n x hx hnone),
           unheard := fun n x hx hzero => (hroutes n x hx).2 hzero,
           unique := hw.unique, heard := ht.heard, registered := hw.registered,
           queues := ht.queues_post _ }
  rw [key_reply hfits hkind .refuse uid, on_take, hback]
  rfl

/-- A syn is heard: the far end is made, and it answers. -/
theorem heard_syn (hw : w.Wired) (h : w.Ready k q p) (hkind : p.kind = .syn) (uid : Nat) :
    (((w.take k q).attach ⟨p.conn, p.target, p.source, 1, false⟩).post
      (p.reply .accept uid)).Wired := by
  obtain ⟨r, hr, hfits, hk, hnext, hback⟩ := hw.syn_first h hkind
  obtain ⟨-, hsource, htarget⟩ := hfits.syn hkind
  obtain ⟨hends, hroutes⟩ := hw.on_reply h hkind .accept uid
  have hkey := key_reply hfits hkind .accept uid
  have hstream : (p.reply .accept uid).kind ≠ .dgram := fun h => by cases h
  have ht := hw.taken h
  have hnone := hw.none_of_next_eq_zero hnext
  have hhere : (⟨p.conn, p.target, p.source, 1, false⟩ : End).key = k := by
    rw [hk, ← htarget]
    rfl
  refine { distinct := hw.distinct, sides := fun e he => ?_,
           fitting := ht.fitting_post (fun _ _ h => h) rfl hr (hfits.reply hkind (.inl rfl) uid),
           numbered := ht.numbered_post hstream ?_, counted := fun e he => ?_,
           unanswered := fun n x hx hnone' => (congrArg List.length (hroutes n x hx).1).trans
             (hw.unanswered n x hx fun e he => hnone' e (List.mem_append_left _ he)),
           unheard := fun n x hx hzero => (hroutes n x hx).2 hzero,
           unique := hw.unique_attach hhere hnone,
           heard := ht.heard_attach hhere (one_le_next_take w k q),
           registered := hw.registered_attach hhere hnone, queues := ht.queues_post _ }
  · rcases List.mem_append.mp he with he | he
    · exact hw.sides e he
    · rw [List.mem_singleton.mp he]
      exact ⟨r, hr, .inr ⟨htarget, hsource⟩⟩
  · rw [hkey, on_take, hback]
    rfl
  · rcases List.mem_append.mp he with he | he
    · exact (congrArg List.length (hends e he)).trans (hw.counted e he)
    · rw [List.mem_singleton.mp he]
      have hout : (⟨p.conn, p.target, p.source, 1, false⟩ : End).outKey = (p.conn, r.1) := by
        rw [← hsource]
        rfl
      rw [hout, on_post hstream, if_pos hkey, on_attach, on_take, hback]
      rfl

/-- An accept is dispatched: the near end is made. -/
theorem accepted (hw : w.Wired) (h : w.Ready k q p) (hkind : p.kind = .accept) {r : Route}
    (hr : w.routes[p.conn]? = some r) :
    ((w.take k q).attach ⟨p.conn, r.1, r.2, 1, false⟩).Wired := by
  obtain ⟨hmem, hseq, -⟩ := hw.ready h
  obtain ⟨hsent, hstream, hkey⟩ := mem_on.mp hmem
  obtain ⟨r', hr', hfits⟩ := hw.fitting p hsent hstream
  obtain rfl := Option.some.inj (hr.symm.trans hr')
  obtain ⟨hzero, -, htarget⟩ := hfits.accept hkind
  have hk : k = (p.conn, r.1) := by rw [← hkey, p.key_eq, htarget]
  have hnone := hw.none_of_next_eq_zero (k := k) (by rw [h.next, ← hseq, hzero])
  have hhere : (⟨p.conn, r.1, r.2, 1, false⟩ : End).key = k := hk.symm
  have ht := hw.taken h
  refine { distinct := hw.distinct, sides := fun e he => ?_, fitting := hw.fitting,
           numbered := hw.numbered, counted := fun e he => ?_,
           unanswered := fun n x hx hnone' =>
             hw.unanswered n x hx fun e he => hnone' e (List.mem_append_left _ he),
           unheard := ht.unheard, unique := hw.unique_attach hhere hnone,
           heard := ht.heard_attach hhere (one_le_next_take w k q),
           registered := hw.registered_attach hhere hnone, queues := ht.queues }
  · rcases List.mem_append.mp he with he | he
    · exact hw.sides e he
    · rw [List.mem_singleton.mp he]
      exact ⟨r, hr, .inl ⟨rfl, rfl⟩⟩
  · rcases List.mem_append.mp he with he | he
    · exact hw.counted e he
    · rw [List.mem_singleton.mp he]
      exact hw.unanswered p.conn r hr fun e he => hk ▸ hnone e he

/-- Every move keeps the network wired. -/
theorem move {w w' : Wiring} (hw : w.Wired) (hmove : Move w w') : w'.Wired := by
  cases hmove with
  | datagram hkind => exact hw.datagram hkind
  | opened hends hkind hconn hfits => exact hw.opened hends hkind hconn hfits
  | sent he hkind hconn hsource htarget hseq =>
      exact hw.sent he hkind hconn hsource htarget hseq
  | closed he => exact hw.closed he
  | arrived hp hkind => exact hw.arrived hp hkind
  | taken hready => exact hw.taken hready
  | heard hready hkind uid => exact hw.heard_syn hready hkind uid
  | unheard hready hkind uid => exact hw.unheard_syn hready hkind uid
  | accepted hready hkind hr => exact hw.accepted hready hkind hr

theorem moves {w w' : Wiring} (hw : w.Wired) (hmoves : Moves w w') : w'.Wired := by
  induction hmoves with
  | refl => exact hw
  | tail _ hmove ih => exact ih.move hmove

end Wired

/-! ## Senders -/

/-- Data and the end of a stream are made by an end that leads there. -/
def Signed (w : Wiring) : Prop :=
  ∀ p ∈ w.sent, p.kind = .data ∨ p.kind = .fin → ∃ e ∈ w.ends, e.outKey = p.key

namespace Signed

variable {w w' : Wiring} {p : Packet}

/-- No end loses its direction, and what is made without an end is neither of the two. -/
theorem goes_on (hw : w.Signed) (hends : ∀ e ∈ w.ends, ∃ e' ∈ w'.ends, e'.outKey = e.outKey)
    (hsent : ∀ p ∈ w'.sent, p.kind = .data ∨ p.kind = .fin →
      p ∈ w.sent ∨ ∃ e ∈ w'.ends, e.outKey = p.key) : w'.Signed := by
  intro p hp hkind
  rcases hsent p hp hkind with hp | hmade
  · obtain ⟨e, he, hkey⟩ := hw p hp hkind
    obtain ⟨e', he', hsame⟩ := hends e he
    exact ⟨e', he', hsame.trans hkey⟩
  · exact hmade

/-- A change of an end that leaves where it leads. -/
theorem mem_outKey_modify {f : End → End} (hf : ∀ e, (f e).outKey = e.outKey) {es : List End}
    (t : Nat) {e : End} (he : e ∈ es) : ∃ e' ∈ es.modify t f, e'.outKey = e.outKey := by
  have hmem : e.outKey ∈ (es.modify t f).map End.outKey := by
    rw [map_modify_eq hf]
    exact List.mem_map_of_mem he
  exact List.mem_map.mp hmem

/-- A packet that opens or answers a connection, or a datagram, is made. -/
theorem mem_of_post (hdata : p.kind ≠ .data) (hfin : p.kind ≠ .fin) {l : List Packet} {q : Packet}
    (hq : q ∈ l ++ [p]) (hkind : q.kind = .data ∨ q.kind = .fin) : q ∈ l := by
  rcases List.mem_append.mp hq with hq | hq
  · exact hq
  · rw [List.mem_singleton.mp hq] at hkind
    exact hkind.elim (fun h => absurd h hdata) fun h => absurd h hfin

/-- Every move keeps the packets signed. -/
theorem move (hw : w.Signed) (hmove : Move w w') : w'.Signed := by
  have hsame : ∀ e ∈ w.ends, ∃ e' ∈ w.ends, e'.outKey = e.outKey := fun e he => ⟨e, he, rfl⟩
  have hgrown : ∀ x : End, ∀ e ∈ w.ends, ∃ e' ∈ w.ends ++ [x], e'.outKey = e.outKey :=
    fun _ e he => ⟨e, List.mem_append_left _ he, rfl⟩
  cases hmove with
  | datagram hkind =>
      refine hw.goes_on hsame fun q hq hq' => .inl (mem_of_post ?_ ?_ hq hq')
      all_goals simp only [hkind, ne_eq, reduceCtorEq, not_false_eq_true]
  | opened _ hkind _ _ =>
      refine hw.goes_on hsame fun q hq hq' => .inl (mem_of_post ?_ ?_ hq hq')
      all_goals simp only [hkind, ne_eq, reduceCtorEq, not_false_eq_true]
  | @sent t e p he _ hconn _ htarget _ =>
      refine hw.goes_on (fun e he => mem_outKey_modify (f := .numbered) (fun _ => rfl) t he)
        fun q hq _ => ?_
      refine (List.mem_append.mp hq).imp id fun hq => ?_
      obtain ⟨e', he', hkey⟩ :=
        mem_outKey_modify (f := .numbered) (fun _ => rfl) t (List.mem_of_getElem? he)
      refine ⟨e', he', hkey.trans ?_⟩
      rw [List.mem_singleton.mp hq]
      exact Prod.ext hconn.symm htarget.symm
  | @closed t e he =>
      exact hw.goes_on (fun e he => mem_outKey_modify (f := .shut) (fun _ => rfl) t he)
        fun _ hq _ => .inl hq
  | arrived _ _ => exact hw
  | taken _ => exact hw
  | heard _ _ uid =>
      exact hw.goes_on (hgrown _) fun q hq hq' =>
        .inl (mem_of_post (fun h => by cases h) (fun h => by cases h) hq hq')
  | unheard _ _ uid =>
      exact hw.goes_on hsame fun q hq hq' =>
        .inl (mem_of_post (fun h => by cases h) (fun h => by cases h) hq hq')
  | accepted _ _ _ => exact hw.goes_on (hgrown _) fun _ hq _ => .inl hq

theorem moves (hw : w.Signed) (hmoves : Moves w w') : w'.Signed := by
  induction hmoves with
  | refl => exact hw
  | tail _ hmove ih => exact ih.move hmove

/-- Nobody's stream is empty. -/
theorem silent (hw : w.Signed) {k : Key} (hnobody : ∀ e ∈ w.ends, e.outKey ≠ k) {p : Packet}
    (hp : p ∈ w.on k) : p.kind ≠ .data ∧ p.kind ≠ .fin := by
  obtain ⟨hmem, -, hkey⟩ := mem_on.mp hp
  have hno : ¬ (p.kind = .data ∨ p.kind = .fin) := fun hkind => by
    obtain ⟨e, he, hsame⟩ := hw p hmem hkind
    exact hnobody e he (hsame.trans hkey)
  exact not_or.mp hno

end Signed

end Wiring

end SimLoop.Net
