/-
  Net/Names.lean --- the names a network works with.

  Code of the program runs under a host that could be registered, never under the wire,
  and whatever takes a name takes it from what is on record.  So every packet, and every
  event of the trace, names hosts that could be registered.
-/
import SimLoop.Net.Stack
import SimLoop.Net.Tasks
import SimLoop.Net.Wired

set_option autoImplicit false

namespace SimLoop.Net

open SimLoop.Foundation

/-! ## Packets and events -/

/-- Both ends of the packet could be registered. -/
def Packet.Named (p : Packet) : Prop := Nameable p.src ∧ Nameable p.dst

/-- Every host of the label could be registered. -/
def NetLabel.Named : NetLabel → Prop
  | .packet _ src dst => Nameable src ∧ Nameable dst
  | .crash name => Nameable name
  | .restart name => Nameable name

namespace Traffic

/-- What is on its way and what is on record names hosts that could be registered. -/
structure Named (w : Traffic) : Prop where
  aloft : ∀ p, w.Aloft p → p.Named
  trace : ∀ e ∈ w.trace, e.label.Named

variable {w w' : Traffic} {time : ℚ} {p : Packet}

namespace Named

theorem noted (hw : w.Named) {t : ℚ} (verb : Verb) (hp : p.Named) : (w.note t verb p).Named where
  aloft := hw.aloft
  trace := by
    intro e he
    rcases List.mem_append.mp he with he | he
    · exact hw.trace e he
    · rw [List.mem_singleton.mp he]
      exact hp

theorem launched (hw : w.Named) (due : ℚ) (hp : p.Named) : (w.launch time due p).Named where
  aloft := fun x hx => (aloft_launch.mp hx).elim (hw.aloft x) fun h => h ▸ hp
  trace := (hw.noted (t := time) .send hp).trace

theorem parked (hw : w.Named) (hp : p.Named) : (w.park time p).Named where
  aloft := fun x hx => (aloft_park.mp hx).elim (hw.aloft x) fun h => h ▸ hp
  trace := (hw.noted (t := time) .hold hp).trace

theorem dispatched (hw : w.Named) (h : Dispatch time p w w') (hp : p.Named) : w'.Named := by
  cases h with
  | launched due => exact hw.launched due hp
  | parked _ => exact hw.parked hp
  | dropped _ => exact hw.noted .drop hp
  | doubled _ due due' => exact ((hw.noted .dup hp).launched due hp).launched due' hp

theorem posted (hw : w.Named) (h : Posted p w w') (hp : p.Named) : w'.Named := by
  obtain ⟨-, time, h⟩ := h
  exact dispatched (w := w.stamp p) ⟨hw.aloft, hw.trace⟩ h hp

theorem released (hw : w.Named) (h : Released w w') : w'.Named := by
  obtain ⟨time, p, rest, hheld, h⟩ := h
  have hp : p.Named := hw.aloft p (.inr (hheld ▸ List.mem_cons_self))
  have hrest : ({ w with held := rest } : Traffic).Named := by
    refine ⟨fun x hx => hw.aloft x (hx.imp_right fun hx => ?_), hw.trace⟩
    rw [hheld]
    exact List.mem_cons_of_mem _ hx
  exact (hrest.noted .release hp).dispatched h hp

theorem fired (hw : w.Named) {i : Nat} {f : Flight} (hi : w.inFlight[i]? = some f) :
    (w.fire i f.packet).Named ∧ f.packet.Named :=
  ⟨⟨fun x hx => hw.aloft x (aloft_of_fire hx), hw.trace⟩,
    hw.aloft _ (.inl ⟨f, List.mem_of_getElem? hi, rfl⟩)⟩

theorem purged (hw : w.Named) {name : HostName} (hname : Nameable name) :
    (w.purge time name).Named where
  aloft := fun x hx => hw.aloft x (hx.imp_right fun hx => (List.mem_filter.mp hx).1)
  trace := by
    intro e he
    rcases List.mem_append.mp he with he | he
    · rcases List.mem_append.mp he with he | he
      · exact hw.trace e he
      · obtain ⟨p, hp, rfl⟩ := List.mem_map.mp he
        exact hw.aloft p (.inr (List.mem_filter.mp hp).1)
    · rw [List.mem_singleton.mp he]
      exact hname

theorem restarted (hw : w.Named) {name : HostName} (hname : Nameable name) :
    (w.restart time name).Named where
  aloft := hw.aloft
  trace := by
    intro e he
    rcases List.mem_append.mp he with he | he
    · exact hw.trace e he
    · rw [List.mem_singleton.mp he]
      exact hname

end Named

end Traffic

/-! ## Switchboards -/

namespace Switchboard

/-- Every name on record could be registered; only the current host is left out. -/
structure Named (w : Switchboard) : Prop where
  traffic : w.traffic.Named
  alive : ∀ name, w.alive.contains name = true → Nameable name
  owners : ∀ a name, w.owners.get? a = some name → Nameable name
  sockets : ∀ name ∈ w.sockets, Nameable name
  transports : ∀ T ∈ w.transports, Nameable T.loc.1 ∧ Nameable T.remote.1
  connects : ∀ x ∈ w.connects, Nameable x.loc.1 ∧ Nameable x.remote.1
  early : ∀ k q n p, w.inbound.get? k = some q → q.early.get? n = some p → p.Named
  crashing : ∀ name keys, Frame.crash name keys ∈ w.stack → Nameable name
  soon : ∀ x ∈ w.soon, Nameable x.2

variable {A : Occasion → Prop} {w w' : Switchboard}

namespace Named

theorem known (hw : w.Named) {name : HostName} (h : w.Known name) : Nameable name := by
  rcases h with h | ⟨a, h⟩
  · exact hw.alive name h
  · exact hw.owners a name h

theorem of_insert (hw : w.Named) {name n : HostName} (hname : Nameable name) {up : Bool}
    (hn : (w.alive.insert name up).contains n = true) : Nameable n := by
  unfold Dict.contains at hn
  rw [Dict.get?_insert] at hn
  split at hn
  · rename_i heq
    rw [heq] at hname
    exact hname
  · exact hw.alive n hn

/-- Frames come and go; what matters is who is being crashed. -/
theorem of_stack (hw : w.Named) {stack : List Frame} (calls : List (HostName × Call))
    (hstack : ∀ name keys, Frame.crash name keys ∈ stack → Frame.crash name keys ∈ w.stack) :
    ({ w with stack := stack, calls := calls } : Switchboard).Named :=
  { hw with crashing := fun name keys h => hw.crashing name keys (hstack name keys h) }

theorem push (hw : w.Named) {l : List Frame}
    (hframes : ∀ name keys, Frame.crash name keys ∉ l) : (w.push l).Named :=
  hw.of_stack w.calls fun name keys h =>
    (List.mem_append.mp h).resolve_left (hframes name keys)

theorem call (hw : w.Named) (x : Call) {frames : List Frame}
    (hframes : ∀ name keys, Frame.crash name keys ∉ frames) : (w.call x frames).Named := by
  refine hw.of_stack _ fun name keys h => (List.mem_append.mp h).resolve_left fun h => ?_
  rcases List.mem_cons.mp h with h | h
  · cases h
  · exact hframes name keys h

theorem popped (hw : w.Named) {f : Frame} {rest : List Frame} (hstack : w.stack = f :: rest) :
    ({ w with stack := rest } : Switchboard).Named :=
  hw.of_stack w.calls fun _ _ h => hstack ▸ List.mem_cons_of_mem _ h

theorem modify (hw : w.Named) (t : Nat) {f : StreamTransport → StreamTransport}
    (hf : ∀ T, (f T).loc = T.loc ∧ (f T).remote = T.remote) : (w.modify t f).Named := by
  refine { hw with transports := fun T hT => ?_ }
  obtain ⟨U, hU, hloc, hremote⟩ : ∃ U ∈ w.transports, T.loc = U.loc ∧ T.remote = U.remote := by
    obtain ⟨i, hi⟩ := List.mem_iff_getElem?.mp hT
    obtain ⟨U, hU, rfl⟩ := Option.map_eq_some_iff.mp (List.getElem?_modify .. ▸ hi)
    refine ⟨U, List.mem_of_getElem? hU, ?_⟩
    split
    · exact hf U
    · exact ⟨rfl, rfl⟩
  rw [hloc, hremote]
  exact hw.transports U hU

theorem attach (hw : w.Named) {T : StreamTransport} (hloc : Nameable T.loc.1)
    (hremote : Nameable T.remote.1) : (w.attach T).Named := by
  refine { hw with transports := fun U hU => ?_ }
  rcases List.mem_append.mp hU with hU | hU
  · exact hw.transports U hU
  · rw [List.mem_singleton.mp hU]
    exact ⟨hloc, hremote⟩

theorem connect (hw : w.Named) (n : Nat) {f : Connect → Connect}
    (hf : ∀ x, (f x).route = x.route) : (w.connect n f).Named := by
  refine { hw with connects := fun x hx => ?_ }
  obtain ⟨y, hy, hroute⟩ : ∃ y ∈ w.connects, x.route = y.route := by
    obtain ⟨i, hi⟩ := List.mem_iff_getElem?.mp hx
    obtain ⟨y, hy, rfl⟩ := Option.map_eq_some_iff.mp (List.getElem?_modify .. ▸ hi)
    refine ⟨y, List.mem_of_getElem? hy, ?_⟩
    split
    · exact hf y
    · rfl
  obtain ⟨hloc, hremote⟩ := Prod.mk.inj hroute
  rw [hloc, hremote]
  exact hw.connects y hy

theorem taken (hw : w.Named) {k : Key} {q : InOrder} (hq : w.inbound.get? k = some q) :
    (w.take k q).Named := by
  refine { hw with early := fun k' q' n p hq' hp => ?_ }
  change (w.inbound.insert k _).get? k' = some q' at hq'
  rw [Dict.get?_insert] at hq'
  split at hq'
  · obtain rfl := Option.some.inj hq'
    change (q.early.erase q.next).get? n = some p at hp
    rw [Dict.get?_erase] at hp
    split at hp
    · cases hp
    · exact hw.early k q n p hq hp
  · exact hw.early k' q' n p hq' hp

theorem arrived (hw : w.Named) {p : Packet} (hp : p.Named) : (w.arrive p).Named := by
  refine { hw with early := fun k q n x hq hx => ?_ }
  change (w.inbound.insert p.key _).get? k = some q at hq
  rw [Dict.get?_insert] at hq
  split at hq
  · obtain rfl := Option.some.inj hq
    change (Dict.insert _ p.seq p).get? n = some x at hx
    rw [Dict.get?_insert] at hx
    split at hx
    · obtain rfl := Option.some.inj hx
      exact hp
    · cases hq : w.inbound.get? p.key with
      | none =>
          rw [hq] at hx
          cases hx
      | some q =>
          rw [hq] at hx
          exact hw.early p.key q n x hq hx
  · exact hw.early k q n x hq hx

theorem finish (hw : w.Named) (t : Nat) (T : StreamTransport) (exc : Option Exc) :
    (w.finish t T exc).Named := by
  have hshut := hw.modify t (f := .finished) fun _ => ⟨rfl, rfl⟩
  have herased : ({ w.modify t .finished with streams := w.streams.erase T.key } :
      Switchboard).Named := { hshut with }
  unfold Switchboard.finish
  cases T.protocol with
  | none => exact herased
  | some _ => exact herased.call _ fun _ _ => List.not_mem_nil

theorem hand (hw : w.Named) {t : Nat} {data : Bytes} (h : Hand t data w w') : w'.Named := by
  cases h with
  | unknown _ => exact hw
  | refused _ _ => exact hw
  | whole _ _ _ => exact hw.call _ fun _ _ => List.not_mem_nil
  | parts _ _ => exact hw.push fun _ _ h => by cases List.mem_singleton.mp h

theorem ending (hw : w.Named) {t : Nat} (h : Ending t w w') : w'.Named := by
  have hgone : (w.modify t .peerGone).Named := hw.modify t fun _ => ⟨rfl, rfl⟩
  cases h with
  | unknown _ => exact hw
  | late _ _ => exact hgone
  | kept _ _ _ => exact hgone.modify t (f := .ending true) fun _ => ⟨rfl, rfl⟩
  | refused _ _ _ _ => exact hgone
  | told _ _ _ _ => exact hgone.call _ fun _ _ h => by cases List.mem_singleton.mp h

theorem dispatched (hw : w.Named) {p : Packet} (hp : p.Named) (h : Dispatched p w w') :
    w'.Named := by
  have hreply : ∀ kind uid, (p.reply kind uid).Named := fun _ _ => ⟨hp.2, hp.1⟩
  cases h with
  | ignored _ _ _ => exact hw
  | heard _ born hpost =>
      have hattached := hw.attach (T := .fresh p.conn p.target p.source born) hp.2 hp.1
      refine Named.call ?_ _ fun _ _ h => by cases List.mem_singleton.mp h
      exact { hattached with traffic := hw.traffic.posted hpost (hreply _ _) }
  | unheard _ hpost => exact { hw with traffic := hw.traffic.posted hpost (hreply _ _) }
  | late _ _ _ _ => exact { hw with }
  | @accepted x _ _ hx _ born =>
      obtain ⟨hloc, hremote⟩ := hw.connects x (List.mem_of_getElem? hx)
      have hforgot : (w.forget p.conn).Named := { hw with }
      refine (hforgot.attach (T := .fresh p.conn x.loc x.remote born) hloc hremote).call _ ?_
      intro name keys h
      cases List.mem_singleton.mp h
  | refused _ _ _ _ e =>
      have hforgot : (w.forget p.conn).Named := { hw with }
      exact hforgot.connect p.conn (Connect.route_settle _)
  | queued _ _ _ _ _ => exact hw.modify _ fun _ => ⟨rfl, rfl⟩
  | @data t _ _ _ _ _ _ _ hhand =>
      refine (hw.push (l := [.consumed t p.payload.length]) ?_).hand hhand
      exact fun _ _ h => by cases List.mem_singleton.mp h
  | fin _ _ hending => exact hw.ending hending
  | @rst t T _ _ _ _ exc =>
      exact (hw.modify t (f := .peerGone) fun _ => ⟨rfl, rfl⟩).finish t T exc
  | rstLate _ _ _ _ => exact hw.modify _ fun _ => ⟨rfl, rfl⟩

end Named

theorem current_finish (w : Switchboard) (t : Nat) (T : StreamTransport) (exc : Option Exc) :
    (w.finish t T exc).current = w.current := by
  unfold Switchboard.finish
  cases T.protocol <;> rfl

theorem Hand.current {t : Nat} {data : Bytes} (h : Hand t data w w') : w'.current = w.current := by
  cases h <;> rfl

theorem Ending.current {t : Nat} (h : Ending t w w') : w'.current = w.current := by
  cases h <;> rfl

theorem Dispatched.current {p : Packet} (h : Dispatched p w w') : w'.current = w.current := by
  cases h with
  | data _ _ _ _ _ hhand => exact hhand.current
  | fin _ _ hending => exact hending.current
  | rst _ _ _ _ exc => exact current_finish _ _ _ exc
  | _ => rfl

namespace Named

/-- A move that stays under the current host keeps it, and takes no other name. -/
theorem move (hw : w.Named) (hcurrent : Nameable w.current)
    (hcrashed : ∀ name, A (.crashed name) → Nameable name) (hstays : ∀ host, ¬ A (.entered host))
    (h : Move A w w') : w'.Named ∧ w'.current = w.current := by
  cases h with
  | datagram _ hsrc hdst hpost =>
      exact ⟨{ hw with traffic := hw.traffic.posted hpost ⟨hw.sockets _ hsrc, hw.known hdst⟩ }, rfl⟩
  | @sent t T kind _ _ hT _ _ _ hpost =>
      have hposted := hw.modify t (f := .posted kind) fun _ => ⟨rfl, rfl⟩
      exact ⟨{ hposted with
        traffic := hw.traffic.posted hpost (hw.transports T (List.mem_of_getElem? hT)) }, rfl⟩
  | released hrelease => exact ⟨{ hw with traffic := hw.traffic.released hrelease }, rfl⟩
  | lost _ _ _ hA => exact absurd hA (hstays _)
  | parked _ _ _ hA => exact absurd hA (hstays _)
  | dropped _ _ _ hA => exact absurd hA (hstays _)
  | landed _ _ _ _ hA => exact absurd hA (hstays _)
  | reached _ _ _ _ hA => exact absurd hA (hstays _)
  | missed _ _ _ _ hA => exact absurd hA (hstays _)
  | purged _ hA => exact ⟨{ hw with traffic := hw.traffic.purged (hcrashed _ hA) }, rfl⟩
  | enlisted address _ hname =>
      refine ⟨{ hw with alive := fun n hn => hw.of_insert hname hn, owners := fun a n hn => ?_ },
        rfl⟩
      rw [Dict.get?_insert] at hn
      split at hn
      · obtain rfl := Option.some.inj hn
        exact hname
      · exact hw.owners a n hn
  | downed hA =>
      exact ⟨{ hw with alive := fun n hn => hw.of_insert (hcrashed _ hA) hn }, rfl⟩
  | restarted _ hname =>
      exact ⟨{ hw with
        traffic := hw.traffic.restarted (hw.alive _ hname)
        alive := fun n hn => hw.of_insert (hw.alive _ hname) hn }, rfl⟩
  | bound =>
      refine ⟨{ hw with sockets := fun n hn => ?_ }, rfl⟩
      rcases List.mem_append.mp hn with hn | hn
      · exact hw.sockets n hn
      · rw [List.mem_singleton.mp hn]
        exact hcurrent
  | started _ hA => exact absurd hA (hstays _)
  | switched _ hA => exact absurd hA (hstays _)
  | popped hstack _ => exact ⟨hw.popped hstack, rfl⟩
  | unwound hstack _ => exact ⟨hw.popped hstack, rfl⟩
  | starved hstack _ => exact ⟨hw.popped hstack, rfl⟩
  | left _ hA => exact absurd hA (hstays _)
  | called _ hframes =>
      exact ⟨hw.call _ fun name keys h => hframes _ h, rfl⟩
  | @pushed f hf =>
      refine ⟨hw.push fun name keys h => ?_, rfl⟩
      rw [← List.mem_singleton.mp h] at hf
      exact hf
  | @crashing name keys hA =>
      refine ⟨{ hw with crashing := fun n ks h => ?_ }, rfl⟩
      rcases List.mem_cons.mp h with h | h
      · obtain ⟨rfl, -⟩ := Frame.crash.inj h
        exact hcrashed _ hA
      · exact hw.crashing n ks h
  | scheduled h =>
      refine ⟨{ hw with soon := fun x hx => ?_ }, rfl⟩
      rcases List.mem_append.mp hx with hx | hx
      · exact hw.soon x hx
      · rw [List.mem_singleton.mp hx]
        exact hcurrent
  | ran _ _ => exact ⟨{ hw with soon := fun x hx => hw.soon x (List.mem_of_mem_eraseIdx hx) }, rfl⟩
  | @metered t _ _ _ hmeter =>
      refine ⟨hw.modify t fun U => ?_, rfl⟩
      have htip := StreamTransport.tip_of_core (hmeter.core U)
      exact ⟨congrArg End.loc htip, congrArg End.remote htip⟩
  | @flowed t _ f _ _ hmeter =>
      have hmetered : (w.modify t f).Named := hw.modify t fun U => by
        have htip := StreamTransport.tip_of_core (hmeter.core U)
        exact ⟨congrArg End.loc htip, congrArg End.remote htip⟩
      refine ⟨hmetered.call _ ?_, rfl⟩
      exact fun _ _ h => by cases List.mem_singleton.mp h
  | adopted protocol _ => exact ⟨hw.modify _ fun _ => ⟨rfl, rfl⟩, rfl⟩
  | shut _ => exact ⟨hw.modify _ fun _ => ⟨rfl, rfl⟩, rfl⟩
  | @finished t T _ _ exc _ =>
      exact ⟨hw.finish t T exc, current_finish w t T exc⟩
  | paused _ _ => exact ⟨hw.modify _ fun _ => ⟨rfl, rfl⟩, rfl⟩
  | @resumed t _ _ _ _ =>
      refine ⟨(hw.modify t (f := .reading false) fun _ => ⟨rfl, rfl⟩).push ?_, rfl⟩
      exact fun _ _ h => by cases List.mem_singleton.mp h
  | next _ hready hdispatch =>
      exact ⟨(hw.taken hready.1).dispatched (hw.early _ _ _ _ hready.1 hready.2) hdispatch,
        hdispatch.current⟩
  | @drained t _ _ chunk chunks _ _ _ _ _ _ hhand =>
      have hrest := (hw.modify t (f := .backlogged chunks) fun _ => ⟨rfl, rfl⟩).push
        (l := [.consumed t chunk.length]) fun _ _ h => by cases List.mem_singleton.mp h
      exact ⟨hrest.hand hhand, hhand.current⟩
  | @ended t rest _ _ hstack _ _ _ _ _ hending =>
      have hrest := (hw.popped hstack).modify t (f := .ending false) fun _ => ⟨rfl, rfl⟩
      exact ⟨hrest.ending hending, hending.current⟩
  | fed hstack _ =>
      refine ⟨(hw.popped hstack).call _ ?_, rfl⟩
      exact fun _ _ h => by cases List.mem_singleton.mp h
  | roomed _ hstack =>
      refine ⟨(hw.popped hstack).call _ ?_, rfl⟩
      exact fun _ _ h => by cases List.mem_singleton.mp h
  | @opened x _ _ _ _ hloc hremote hpost =>
      have hx : Nameable x.loc.1 ∧ Nameable x.remote.1 :=
        ⟨hloc ▸ hcurrent, hw.known hremote⟩
      refine ⟨{ hw with traffic := hw.traffic.posted hpost hx, connects := fun y hy => ?_ }, rfl⟩
      rcases List.mem_append.mp hy with hy | hy
      · exact hw.connects y hy
      · rw [List.mem_singleton.mp hy]
        exact hx
  | cancelled _ => exact ⟨hw.connect _ (Connect.route_settle _), rfl⟩
  | begunClient protocol hstack =>
      refine ⟨((hw.popped hstack).modify _ (f := .started protocol)
        fun _ => ⟨rfl, rfl⟩).call _ ?_, rfl⟩
      exact fun _ _ h => by cases List.mem_singleton.mp h
  | begunServer protocol hstack =>
      exact ⟨((hw.popped hstack).modify _ (f := .started protocol)
        fun _ => ⟨rfl, rfl⟩).call _ fun _ _ => List.not_mem_nil, rfl⟩
  | connected _ => exact ⟨hw.connect _ (Connect.route_settle _), rfl⟩
  | answered _ _ => exact ⟨hw.connect _ fun _ => rfl, rfl⟩
  | wrote _ => exact ⟨{ hw with }, rfl⟩
  | forgotten _ _ => exact ⟨{ hw with }, rfl⟩

theorem moves (hw : w.Named) (hcurrent : Nameable w.current)
    (hcrashed : ∀ name, A (.crashed name) → Nameable name) (hstays : ∀ host, ¬ A (.entered host))
    (h : Moves A w w') : w'.Named ∧ w'.current = w.current := by
  refine h.invariant (I := fun v => v.Named ∧ v.current = w.current) (fun v v' hmove hv => ?_)
    ⟨hw, rfl⟩
  obtain ⟨hnamed, hsame⟩ := hv.1.move (hv.2 ▸ hcurrent) hcrashed hstays hmove
  exact ⟨hnamed, hsame.trans hv.2⟩

end Named

end Switchboard

/-! ## Every run -/

variable {ρ : Type}

namespace SimNetwork

/-- Whatever is on record, the host at work and the hosts of the tasks could be registered. -/
structure Named (s : SimNetwork ρ) : Prop where
  board : s.board.Named
  current : s.stack ≠ [] → Nameable s.current
  tasks : ∀ T ∈ s.tasks, Nameable T.pinned

variable {R : RandomSource ρ} {s s' : SimNetwork ρ}

/-- Moves under one host, from a board that only takes names from the record. -/
theorem Named.goes_on {w : Switchboard} (hw : w.Named) (hcurrent : Nameable w.current)
    (h : Switchboard.Moves (fun _ => False) w s'.board) :
    s'.board.Named ∧ (s'.stack ≠ [] → Nameable s'.current) := by
  obtain ⟨hnamed, hsame⟩ := hw.moves hcurrent (fun _ h => h.elim) (fun _ h => h) h
  have hnow : Nameable s'.board.current := hsame ▸ hcurrent
  exact ⟨hnamed, fun _ => hnow⟩

theorem Named.delivered (hs : s.Named) (hstack : s.stack = []) {i : Nat} {f : Flight}
    (hi : s.inFlight[i]? = some f) (h : deliver R f.packet { s with
      inFlight := s.inFlight.eraseIdx i
      landed := s.landed ++ [⟨f.packet, s.trace.length⟩]
      current := wire } = s') : s'.board.Named ∧ (s'.stack ≠ [] → Nameable s'.current) := by
  obtain ⟨hfired, hp⟩ := hs.board.traffic.fired (i := i) hi
  have hidle : ∀ {P : Prop}, s.stack ≠ [] → P := fun h => absurd hstack h
  have hreached : ({ s.board with
      traffic := (s.traffic.fire i f.packet).note s.now .deliver f.packet
      current := f.packet.dst
      stack := .deliver :: s.stack } : Switchboard).Named := by
    refine { hs.board with traffic := hfired.noted .deliver hp, crashing := fun name keys h => ?_ }
    rcases List.mem_cons.mp h with h | h
    · cases h
    · exact hs.board.crashing name keys h
  unfold deliver at h
  split at h
  · subst h
    exact ⟨{ hs.board with traffic := hfired.noted .lost hp }, hidle⟩
  · split at h
    · unfold blackhole at h
      split at h
      · subst h
        exact ⟨{ hs.board with traffic := hfired.noted .drop hp }, hidle⟩
      · subst h
        exact ⟨{ hs.board with traffic := hfired.parked hp }, hidle⟩
    · dsimp only at h
      split at h
      · split at h
        · subst h
          exact ⟨{ hreached with traffic := hreached.traffic.noted .lost hp }, fun _ => hp.2⟩
        · rename_i d _
          subst h
          refine Named.goes_on hreached hp.2 (.trans (.of_eq ?_)
            (datagramArrived_switches _ d f.packet.payload (f.packet.src, f.packet.srcPort)))
          rfl
      · subst h
        have hpushed := (hreached.arrived hp).push (l := [.push f.packet.key])
          fun _ _ h => by cases List.mem_singleton.mp h
        refine Named.goes_on hpushed hp.2 (.trans (.of_eq ?_)
          (pushNext_switches R _ f.packet.key))
        rfl

theorem Named.ranSoon (hs : s.Named) (hstack : s.stack = []) {i : Nat} {h : Handle}
    {host : HostName} (hi : s.soon[i]? = some (h, host)) (hloop : loopAct R s (.runSoon i) = some s') :
    s'.board.Named ∧ (s'.stack ≠ [] → Nameable s'.current) := by
  have hswitched : ({ s with soon := s.soon.eraseIdx i, current := host } :
      SimNetwork ρ).board.Named :=
    { hs.board with soon := fun x hx => hs.board.soon x (List.mem_of_mem_eraseIdx hx) }
  have hhost : Nameable host := hs.board.soon _ (List.mem_of_getElem? hi)
  simp only [loopAct, hi] at hloop
  cases h with
  | finish t exc =>
      obtain rfl := Option.some.inj hloop
      exact Named.goes_on hswitched hhost (finish_switches _ (.inl hstack))
  | lost d =>
      obtain rfl := Option.some.inj hloop
      exact Named.goes_on hswitched hhost (lost_switches _ d)

/-- Every task is pinned like an old one or like one that the act can make. -/
theorem Step.pinned {a : Act} (hstep : Step R s a s') : ∀ T ∈ s'.tasks,
    (∃ U ∈ s.tasks, U.pinned = T.pinned) ∨ ∃ U, Makes s a U ∧ U.pinned = T.pinned := by
  have hold : ∀ T ∈ s.tasks, (∃ U ∈ s.tasks, U.pinned = T.pinned) ∨
      ∃ U, Makes s a U ∧ U.pinned = T.pinned := fun T hT => .inl ⟨T, hT, rfl⟩
  rcases step_moves R s hstep with hmoves | ⟨name, -, hrestart⟩
  · refine hmoves.invariant (I := fun g => ∀ T ∈ g.hosts.tasks,
      (∃ U ∈ s.tasks, U.pinned = T.pinned) ∨ ∃ U, Makes s a U ∧ U.pinned = T.pinned)
      (fun g h hmove hg => ?_) hold
    have hmodify : ∀ (i : Nat) {f : Task → Task}, (∀ T, (f T).pinned = T.pinned) →
        ∀ T ∈ g.hosts.tasks.modify i f, (∃ U ∈ s.tasks, U.pinned = T.pinned) ∨
          ∃ U, Makes s a U ∧ U.pinned = T.pinned := by
      intro i f hf T hT
      obtain ⟨j, hj⟩ := List.mem_iff_getElem?.mp hT
      obtain ⟨U, hU, rfl⟩ := Option.map_eq_some_iff.mp (List.getElem?_modify .. ▸ hj)
      have hpinned : (if i = j then f U else U).pinned = U.pinned := by
        split
        · exact hf U
        · rfl
      rw [hpinned]
      exact hg U (List.mem_of_getElem? hU)
    cases hmove with
    | hosts hmove =>
        cases hmove with
        | made hP _ _ =>
            intro T hT
            rcases List.mem_append.mp hT with hT | hT
            · exact hg T hT
            · rw [List.mem_singleton.mp hT]
              exact .inr ⟨_, hP, rfl⟩
        | asked i => exact hmodify i Roster.ask_pinned
        | settled i => exact hmodify i fun _ => rfl
        | _ => exact hg
    | _ => exact hg
  · rw [show s'.tasks = s.tasks from congrArg (fun g => g.hosts.tasks) hrestart]
    exact hold

/-- What an act can make is pinned to a host that could be registered. -/
theorem Named.makes (hs : s.Named) {a : Act} (hstep : Step R s a s') {T : Task}
    (hmakes : Makes s a T) : Nameable T.pinned := by
  have hof : ∀ {x : Option HostName} {d : HostName}, s.contextOk x = true → Nameable d →
      Nameable (x.getD d) := by
    intro x d hx hd
    cases x with
    | none => exact hd
    | some name => exact hs.board.alive name hx
  rcases step_cases R hstep with ⟨-, -, h⟩ | ⟨rest, -, hstack, h⟩ | ⟨rfl, -, -⟩
  · cases a <;> first | cases h | exact hmakes.elim
  · have hcurrent := hs.current (by rw [hstack]; exact List.cons_ne_nil _ _)
    cases a
    case createTask made context =>
      simp only [codeAct] at h
      split at h
      · rename_i hok
        obtain ⟨hmade, hcontext⟩ := Bool.and_eq_true_iff.mp hok
        rw [show T = _ from hmakes]
        exact hof hmade (hof hcontext hcurrent)
      · cases h
    case hostCreateTask name made =>
      simp only [codeAct] at h
      split at h
      · rename_i hok
        obtain ⟨hname, hmade⟩ := Bool.and_eq_true_iff.mp hok
        rw [show T = _ from hmakes]
        exact hof hmade (hs.board.alive name hname)
      · cases h
    all_goals exact hmakes.elim
  · exact hmakes.elim

theorem Named.looped (hs : s.Named) (hstack : s.stack = []) {a : Act}
    (h : loopAct R s a = some s') : s'.board.Named ∧ (s'.stack ≠ [] → Nameable s'.current) := by
  have hidle : ∀ {P : Prop}, s.stack ≠ [] → P := fun h => absurd hstack h
  have hstarted : ∀ {host : HostName}, Nameable host →
      ({ s with stack := [.code], current := host } : SimNetwork ρ).board.Named := by
    intro host hhost
    refine { hs.board with crashing := fun name keys h => ?_ }
    cases List.mem_singleton.mp h
  cases a
  case advance time =>
    simp only [loopAct] at h
    split at h
    · obtain rfl := Option.some.inj h
      exact ⟨hs.board, hidle⟩
    · cases h
  case fire i =>
    cases hi : s.inFlight[i]? with
    | none => simp only [loopAct, hi] at h; cases h
    | some f =>
        simp only [loopAct, hi] at h
        split at h
        · exact hs.delivered hstack hi (Option.some.inj h)
        · cases h
  case runSoon i =>
    cases hi : s.soon[i]? with
    | none => simp only [loopAct, hi] at h; cases h
    | some entry => exact hs.ranSoon hstack hi h
  case step i =>
    cases hT : s.tasks[i]? with
    | none => simp only [loopAct, hT] at h; cases h
    | some T =>
        simp only [loopAct, hT] at h
        split at h
        · cases h
        · obtain rfl := Option.some.inj h
          have hhost := hs.tasks T (List.mem_of_getElem? hT)
          exact ⟨hstarted hhost, fun _ => hhost⟩
  case callback host =>
    simp only [loopAct] at h
    split at h
    · rename_i hname
      obtain rfl := Option.some.inj h
      have hhost := hs.board.alive host hname
      exact ⟨hstarted hhost, fun _ => hhost⟩
    · cases h
  case forget i =>
    simp only [loopAct] at h
    split at h
    · obtain rfl := Option.some.inj h
      have hboard := board_forgetTask s i
      have hsame : (forgetTask i s).stack = s.stack := congrArg Switchboard.stack hboard
      exact ⟨hboard ▸ hs.board, fun hne => hidle (hsame ▸ hne)⟩
    · cases h
  all_goals cases h

/-- A step that is not the loop's and leaves no delivery. -/
theorem Named.stays (hs : s.Named) (hne : s.stack ≠ []) (hin : ∀ rest, s.stack ≠ .deliver :: rest)
    {a : Act} (h : Switchboard.Moves (s.Occasions a) s.board s'.board) :
    s'.board.Named ∧ (s'.stack ≠ [] → Nameable s'.current) := by
  have hcurrent := hs.current hne
  have hcrashed : ∀ name, s.Occasions a (.crashed name) → Nameable name := by
    rintro name (⟨-, hcrashes⟩ | ⟨-, keys, rest, hstack⟩)
    · exact hs.board.alive name hcrashes.contains
    · refine hs.board.crashing name keys ?_
      show Frame.crash name keys ∈ s.stack
      rw [hstack]
      exact List.mem_cons_self
  have hstays : ∀ host, ¬ s.Occasions a (.entered host) := by
    rintro host (hstack | ⟨-, rest, hstack⟩)
    · exact hne hstack
    · exact hin rest hstack
  obtain ⟨hnamed, hsame⟩ := hs.board.moves hcurrent hcrashed hstays h
  have hnow : Nameable s'.board.current := hsame ▸ hcurrent
  exact ⟨hnamed, fun _ => hnow⟩

theorem Named.ticked (hs : s.Named) (hstacked : Stacked s.stack) :
    (turn R s).board.Named ∧ ((turn R s).stack ≠ [] → Nameable (turn R s).current) := by
  cases hstack : s.stack with
  | nil =>
      have hturn : (turn R s).board = s.board := by
        unfold turn
        split
        · rfl
        · rfl
        · rename_i h
          cases hstack.symm.trans h
        · rename_i h
          cases hstack.symm.trans h
      have hsame : (turn R s).stack = s.stack := congrArg Switchboard.stack hturn
      exact ⟨hturn ▸ hs.board, fun hne => absurd (hsame.trans hstack) hne⟩
  | cons f rest =>
      by_cases hf : f = .deliver
      · -- a delivery that goes on is over, and nothing is below it
        subst hf
        obtain rfl := Stacked.eq_nil_of_deliver (hstack ▸ hstacked)
        have hleft : ∀ current : HostName,
            ({ s.board with stack := [], current := current } : Switchboard).Named := fun current =>
          { hs.board with crashing := fun _ _ h => absurd h List.not_mem_nil }
        cases hsignal : s.signal with
        | run =>
            have hturn : turn R s = s := by
              simp only [turn, hsignal]
            rw [hturn]
            exact ⟨hs.board, hs.current⟩
        | returned v =>
            have hturn : (turn R s).board = { s.board with stack := [], current := wire } := by
              simp only [turn, hsignal, hstack]
              rfl
            have hempty : (turn R s).stack = [] := congrArg Switchboard.stack hturn
            exact ⟨hturn ▸ hleft wire, fun hne => absurd hempty hne⟩
        | raised e =>
            have hturn : (turn R s).board = { s.board with stack := [], current := wire } := by
              simp only [turn, hsignal, hstack]
              rfl
            have hempty : (turn R s).stack = [] := congrArg Switchboard.stack hturn
            exact ⟨hturn ▸ hleft wire, fun hne => absurd hempty hne⟩
      · refine hs.stays (by rw [hstack]; exact List.cons_ne_nil _ _) (fun r h => ?_)
          (turn_switches R s)
        rw [hstack] at h
        exact hf (List.cons.inj h).1

theorem Named.step (hs : s.Named) (hstacked : Stacked s.stack) {a : Act} (hstep : Step R s a s') :
    s'.Named := by
  have hboard : s'.board.Named ∧ (s'.stack ≠ [] → Nameable s'.current) := by
    rcases step_cases R hstep with ⟨-, hstack, h⟩ | ⟨rest, -, hstack, h⟩ | ⟨rfl, -, rfl⟩
    · exact hs.looped hstack h
    · refine hs.stays (by rw [hstack]; exact List.cons_ne_nil _ _) (fun rest h => ?_)
        (codeAct_switches R s hstack h)
      cases hstack.symm.trans h
    · exact hs.ticked hstacked
  refine ⟨hboard.1, hboard.2, fun T hT => ?_⟩
  rcases Step.pinned hstep T hT with ⟨U, hU, hpinned⟩ | ⟨U, hU, hpinned⟩
  · exact hpinned ▸ hs.tasks U hU
  · exact hpinned ▸ hs.makes hstep hU

/-- **Every name in every reachable state could be registered.** -/
theorem named_of_run {seed : Int} {acts : List Act} (run : Run (Step R) (init R seed) acts s) :
    s.Named := by
  refine (run.invariant (I := fun u => u.Named ∧ Stacked u.stack)
    (fun u a v hu hstep => ⟨hu.1.step hu.2 hstep, ?_⟩) ⟨?_, .free .nil⟩).1
  · exact (step_switches R u hstep).invariant (I := fun w => Stacked w.stack)
      (fun _ _ hmove hw => hmove.stacked hw) hu.2
  · have hnone : ∀ {α : Type} {P : α → Prop}, ∀ x ∈ ([] : List α), P x :=
      fun _ h => absurd h List.not_mem_nil
    have hdriver : Nameable driver :=
      ⟨by decide, by simp [driver, SimNetwork.forbiddenNameChars]⟩
    refine ⟨⟨⟨?_, hnone⟩, ?_, ?_, hnone, hnone, hnone, ?_, fun _ _ h => absurd h List.not_mem_nil,
      hnone⟩, fun h => absurd rfl h, hnone⟩
    · rintro p (⟨f, hf, -⟩ | hp)
      · cases hf
      · cases hp
    · intro name hname
      change ((Dict.empty : Dict HostName Bool).insert driver true).contains name = true at hname
      unfold Dict.contains at hname
      rw [Dict.get?_insert] at hname
      split at hname
      · rename_i heq
        exact heq ▸ hdriver
      · cases hname
    · intro a name hname
      change ((Dict.empty : Dict String HostName).insert (formatAddress 1) driver).get? a =
        some name at hname
      rw [Dict.get?_insert] at hname
      split at hname
      · obtain rfl := Option.some.inj hname
        exact hdriver
      · cases hname
    · intro k q n p hq
      cases hq

end SimNetwork

end SimLoop.Net
