/-
  Net/Completeness.lean --- nothing that is written is lost.

  Between hosts that are not crashed, a packet of a connection that was made is on its way,
  waits for earlier ones, or was dispatched.  When nothing is on its way and nothing is being
  done, all of them were dispatched, and whoever reads has everything that was written.
-/
import SimLoop.Net.Reliability

set_option autoImplicit false

namespace SimLoop.Net

open SimLoop.Foundation

/-- Two packets of a direction with the same number are the same. -/
theorem Wiring.Wired.eq_of_seq {w : Wiring} {k : Key} {p x : Packet} (hw : w.Wired)
    (hp : p ∈ w.on k) (hx : x ∈ w.on k) (h : p.seq = x.seq) : p = x := by
  obtain ⟨i, hi⟩ := List.mem_iff_getElem?.mp hp
  obtain ⟨j, hj⟩ := List.mem_iff_getElem?.mp hx
  rw [hw.numbered k i p hi, hw.numbered k j x hj] at h
  exact Option.some.inj (hi.symm.trans (h ▸ hj))

theorem Packet.Fits.ends {p : Packet} {r : Route} (h : p.Fits r) (hkind : p.kind ≠ .dgram) :
    p.source = r.1 ∧ p.target = r.2 ∨ p.source = r.2 ∧ p.target = r.1 := by
  unfold Packet.Fits at h
  split at h
  · exact absurd ‹_› hkind
  · exact .inl h.2
  · exact .inr h.2
  · exact .inr h.2
  · exact h

/-- Where the packets come from and go to that lead to an end. -/
theorem Wiring.Wired.addresses {w : Wiring} (hw : w.Wired) {e : End} (he : e ∈ w.ends)
    {p : Packet} (hp : p ∈ w.on e.key) : p.source = e.remote ∧ p.target = e.loc := by
  obtain ⟨hsent, hkind, hkey⟩ := mem_on.mp hp
  have hconn : p.conn = e.conn := congrArg Prod.fst hkey
  have htarget : p.target = e.loc := congrArg Prod.snd hkey
  obtain ⟨r, hr, hjoins⟩ := hw.sides e he
  obtain ⟨r', hr', hfits⟩ := hw.fitting p hsent hkind
  obtain rfl : r = r' := Option.some.inj (hr.symm.trans (hconn ▸ hr'))
  have hdistinct := hw.distinct r (List.mem_of_getElem? hr)
  refine ⟨?_, htarget⟩
  rcases hfits.ends hkind with ⟨hsource, hto⟩ | ⟨hsource, hto⟩ <;>
    rcases hjoins with ⟨hloc, hremote⟩ | ⟨hloc, hremote⟩
  · exact absurd (hloc.symm.trans (htarget.symm.trans hto)) hdistinct
  · exact hsource.trans hremote.symm
  · exact hsource.trans hremote.symm
  · exact absurd (hto.symm.trans (htarget.trans hloc)) hdistinct

/-! ## What traffic retains -/

namespace Traffic

variable {H : HostName → Prop} {w w' v : Traffic} {p : Packet} {time : ℚ}

/-- No stream packet between the hosts gets lost, and new ones are on their way. -/
def Retains (H : HostName → Prop) (w w' : Traffic) : Prop :=
  ∀ x ∈ w'.sent, x.kind ≠ .dgram → H x.src → H x.dst →
    w'.Aloft x ∨ x ∈ w.sent ∧ (w.Aloft x → w'.Aloft x)

namespace Retains

theorem of_same (hsent : w'.sent = w.sent)
    (haloft : ∀ x, x.kind ≠ .dgram → H x.src → H x.dst → w.Aloft x → w'.Aloft x) :
    Retains H w w' := by
  intro x hx hkind hsrc hdst
  exact .inr ⟨hsent ▸ hx, haloft x hkind hsrc hdst⟩

theorem refl (w : Traffic) : Retains H w w := .of_same rfl fun _ _ _ _ h => h

theorem posted (h : Posted p w w') : Retains H w w' := by
  intro x hx hkind _ _
  rw [h.sent] at hx
  rcases List.mem_append.mp hx with hx | hx
  · exact .inr ⟨hx, h.of_aloft⟩
  · obtain rfl := List.mem_singleton.mp hx
    exact .inl (h.aloft_self hkind)

theorem released (h : Released w w') : Retains H w w' :=
  .of_same h.sent fun _ hkind _ _ => h.of_aloft hkind

/-- A packet that is none of theirs leaves the network. -/
theorem fired {i : Nat} {f : Flight} (hi : w.inFlight[i]? = some f)
    (hother : f.packet.kind ≠ .dgram → H f.packet.src → ¬ H f.packet.dst) :
    Retains H w (w.fire i f.packet) :=
  .of_same rfl fun x hkind hsrc hdst hx => (fire_aloft hi hx).resolve_right fun h => by
    subst h
    exact hother hkind hsrc hdst

theorem parked {i : Nat} {f : Flight} (hi : w.inFlight[i]? = some f) :
    Retains H w ((w.fire i f.packet).park time f.packet) :=
  .of_same rfl fun _ _ _ _ hx => aloft_park.mpr (fire_aloft hi hx)

theorem purged {name : HostName} (hname : ¬ H name) : Retains H w (w.purge time name) := by
  refine .of_same rfl fun x _ hsrc hdst hx => hx.imp_right fun hheld => ?_
  refine List.mem_filter.mpr ⟨hheld, ?_⟩
  simp only [endsAt, Bool.not_eq_true', decide_eq_false_iff_not]
  rintro (rfl | rfl)
  · exact hname hsrc
  · exact hname hdst

end Retains

end Traffic

/-! ## What a stack retains -/

section

variable {H : HostName → Prop} {l m n : List Frame} {f : Frame}

/-- Every loop of `_InOrder.push` goes on, and none of the hosts is being crashed. -/
structure Onward (H : HostName → Prop) (l m : List Frame) : Prop where
  push : ∀ k, .push k ∈ l → .push k ∈ m
  crash : ∀ name keys, .crash name keys ∈ m → .crash name keys ∈ l ∨ ¬ H name

namespace Onward

theorem refl (l : List Frame) : Onward H l l := ⟨fun _ h => h, fun _ _ h => .inl h⟩

/-- A frame that crashes none of the hosts comes on top. -/
theorem cons (hf : ∀ name keys, f = .crash name keys → ¬ H name) (h : Onward H l m) :
    Onward H l (f :: m) where
  push k hk := List.mem_cons_of_mem _ (h.push k hk)
  crash name keys hn := (List.mem_cons.mp hn).elim (fun h => .inr (hf name keys h.symm))
    (h.crash name keys)

/-- So do frames that have nothing to do with either. -/
theorem append {g : List Frame} (hg : ∀ f ∈ g, ∀ name keys, f ≠ .crash name keys)
    (h : Onward H l m) : Onward H l (g ++ m) where
  push k hk := List.mem_append_right _ (h.push k hk)
  crash name keys hn := (List.mem_append.mp hn).elim (fun h => absurd rfl (hg _ h name keys))
    (h.crash name keys)

/-- A frame that is no such loop is left. -/
theorem tail (hf : ∀ k, f ≠ .push k) : Onward H (f :: l) l where
  push k hk := (List.mem_cons.mp hk).resolve_left fun h => hf k h.symm
  crash _ _ hn := .inl (List.mem_cons_of_mem _ hn)

end Onward

end

namespace Switchboard

variable {A : Occasion → Prop} {H : HostName → Prop} {w w' : Switchboard} {t : Nat}

theorem finish_onward (t : Nat) (T : StreamTransport) (exc : Option Exc) :
    Onward H w.stack (w.finish t T exc).stack := by
  unfold finish
  cases T.protocol with
  | none => exact .refl _
  | some _ => exact .cons (fun _ _ h => by cases h) (.refl _)

theorem Hand.onward {data : Bytes} (h : Hand t data w w') : Onward H w.stack w'.stack := by
  cases h with
  | unknown _ => exact .refl _
  | refused _ _ => exact .refl _
  | whole _ _ _ => exact .cons (fun _ _ h => by cases h) (.refl _)
  | parts _ _ => exact .cons (fun _ _ h => by cases h) (.refl _)

theorem Ending.onward (h : Ending t w w') : Onward H w.stack w'.stack := by
  cases h with
  | told _ _ _ _ =>
      exact .cons (fun _ _ h => by cases h) (.cons (fun _ _ h => by cases h) (.refl _))
  | _ => exact .refl _

/-! ## What a switchboard retains -/

/-- The packet came up, and was dispatched or waits for earlier ones. -/
def Came (w : Switchboard) (p : Packet) : Prop :=
  p.seq < w.wiring.next p.key ∨
    ∃ q, w.inbound.get? p.key = some q ∧ q.early.get? p.seq = some p

/-- Every packet between the hosts is on its way or came up, and is being dispatched if it is
next. -/
structure Kept (H : HostName → Prop) (w : Switchboard) : Prop where
  up : ∀ name, H name → ¬ w.down name
  spared : ∀ name keys, .crash name keys ∈ w.stack → ¬ H name
  kept : ∀ p ∈ w.traffic.sent, p.kind ≠ .dgram → H p.src → H p.dst →
    w.traffic.Aloft p ∨ w.Came p
  busy : ∀ k q p, w.Ready k q p → .push k ∈ w.stack

/-- None of the hosts is crashed, and no exception leaves a loop of `_InOrder.push`. -/
structure Steady (A : Occasion → Prop) (H : HostName → Prop) : Prop where
  crashed : ∀ name, A (.crashed name) → ¬ H name
  unwound : ∀ k, ¬ A (.unwound (.push k))

namespace Kept

theorem goes_on (hw : w.Kept H) (hup : ∀ name, H name → w'.down name → w.down name)
    (hinbound : w'.inbound = w.inbound) (htraffic : Traffic.Retains H w.traffic w'.traffic)
    (hstack : Onward H w.stack w'.stack) : w'.Kept H where
  up name hname hdown := hw.up name hname (hup name hname hdown)
  spared name keys h := (hstack.crash name keys h).elim (hw.spared name keys) id
  kept p hp hkind hsrc hdst := by
    rcases htraffic p hp hkind hsrc hdst with haloft | ⟨hmem, haloft⟩
    · exact .inl haloft
    · refine (hw.kept p hmem hkind hsrc hdst).imp haloft fun hcame => ?_
      have hnext : w'.wiring.next p.key = w.wiring.next p.key := by
        simp only [Wiring.next, wiring, hinbound]
      rw [Came, hnext, hinbound]
      exact hcame
  busy k q p h := by
    refine hstack.push k (hw.busy k q p ?_)
    rw [Ready, ← hinbound]
    exact h

/-- A packet lands and waits in the queue of its direction. -/
theorem landed (hw : w.Kept H) (hsound : w.Sound) {time : ℚ} {i : Nat} {f : Flight}
    (hi : w.traffic.inFlight[i]? = some f) (hkind : f.packet.kind ≠ .dgram)
    (hstack : w.stack = []) :
    ((({ w with
      traffic := (w.traffic.fire i f.packet).note time .deliver f.packet
      current := f.packet.dst } : Switchboard).arrive f.packet).push
        [.push f.packet.key, .deliver]).Kept H := by
  have hidle : ∀ k q p, ¬ w.Ready k q p := fun k q p h => by
    have hbusy := hw.busy k q p h
    rw [hstack] at hbusy
    cases hbusy
  have hmade := hsound.carried.fired hi
  refine ⟨hw.up, fun name keys h => ?_, fun p hp hstream hsrc hdst => ?_, fun k q p h => ?_⟩
  · simp only [push, arrive, hstack, List.append_nil, List.mem_cons, List.not_mem_nil, or_false,
      reduceCtorEq] at h
  · have hqueue : ∀ {q : InOrder}, (w.inbound.get? p.key).getD ⟨0, Dict.empty⟩ = q →
        f.packet.key = p.key → (w.arrive f.packet).inbound.get? p.key =
          some { q with early := q.early.insert f.packet.seq f.packet } := by
      rintro q rfl hkey
      simp only [arrive, hkey, Dict.get?_insert_self]
    have hnew : p = f.packet → (w.arrive f.packet).Came p := by
      rintro rfl
      exact .inr ⟨_, hqueue rfl rfl, Dict.get?_insert_self _ _ _⟩
    rcases hw.kept p hp hstream hsrc hdst with haloft | hcame
    · exact (Traffic.fire_aloft hi haloft).imp id hnew
    · refine .inr (hcame.imp (fun h => ?_) ?_)
      · have hnext := Wiring.next_arrive (w := w.wiring) (p := f.packet) p.key
        exact hnext.symm ▸ h
      · rintro ⟨q, hq, hearly⟩
        cases hkey : decide (f.packet.key = p.key) with
        | false =>
            refine ⟨q, ?_, hearly⟩
            exact (Dict.get?_insert_of_ne _ _ (of_decide_eq_false hkey)).trans hq
        | true =>
            have hkey := of_decide_eq_true hkey
            refine ⟨_, hqueue (q := q) (by rw [hq]; rfl) hkey, ?_⟩
            show (q.early.insert f.packet.seq f.packet).get? p.seq = some p
            rw [Dict.get?_insert]
            split
            · exact congrArg some (hsound.wired.eq_of_seq (Wiring.mem_on.mpr ⟨hmade, hkind, hkey⟩)
                (Wiring.mem_on.mpr ⟨hp, hstream, rfl⟩) ‹_›)
            · exact hearly
  · cases hkey : decide (f.packet.key = k) with
    | false =>
        refine absurd ⟨?_, h.2⟩ (hidle k q p)
        exact (Dict.get?_insert_of_ne _ _ (of_decide_eq_false hkey)).symm.trans h.1
    | true =>
        rw [of_decide_eq_true hkey]
        exact List.mem_cons_self

/-- The next packet of a direction is taken from its queue, while the loop goes on. -/
theorem take (hw : w.Kept H) {k : Key} {q : InOrder} {p : Packet} (hready : w.Ready k q p)
    (hloop : .push k ∈ w.stack) : (w.take k q).Kept H := by
  have hready' : w.wiring.Ready k q p := hready
  have hnext : (w.take k q).wiring.next k = q.next + 1 :=
    (Wiring.next_take (w := w.wiring) k).trans (if_pos rfl)
  refine ⟨hw.up, hw.spared, fun x hx hkind hsrc hdst => ?_, fun k' q' p' h => ?_⟩
  · refine (hw.kept x hx hkind hsrc hdst).imp id fun hcame => ?_
    rcases hcame with hlt | ⟨q', hq', hearly⟩
    · exact .inl (hlt.trans_le (Wiring.next_le_take hready' x.key))
    · cases hkey : decide (k = x.key) with
      | false =>
          refine .inr ⟨q', ?_, hearly⟩
          exact (Dict.get?_insert_of_ne _ _ (of_decide_eq_false hkey)).trans hq'
      | true =>
          have hkey := of_decide_eq_true hkey
          obtain rfl : q = q' := Option.some.inj (hready.1.symm.trans (hkey ▸ hq'))
          cases hseq : decide (q.next = x.seq) with
          | true =>
              refine .inl ?_
              rw [← hkey, hnext, of_decide_eq_true hseq]
              exact Nat.lt_succ_self _
          | false =>
              refine .inr ⟨{ q with next := q.next + 1, early := q.early.erase q.next }, ?_, ?_⟩
              · rw [← hkey]
                exact Dict.get?_insert_self _ _ _
              · exact (Dict.get?_erase_of_ne _ (of_decide_eq_false hseq)).trans hearly
  · cases hkey : decide (k = k') with
    | true => exact of_decide_eq_true hkey ▸ hloop
    | false =>
        refine hw.busy k' q' p' ⟨?_, h.2⟩
        exact (Dict.get?_insert_of_ne _ _ (of_decide_eq_false hkey)).symm.trans h.1

/-- An exception leaves a loop of `_InOrder.push` that has nothing left to do. -/
theorem popped (hw : w.Kept H) {f : Frame} {rest : List Frame} (hstack : w.stack = f :: rest)
    (hdone : w.Done f) : ({ w with stack := rest } : Switchboard).Kept H := by
  refine ⟨hw.up, fun name keys h => ?_, hw.kept, fun k q p h => ?_⟩
  · exact hw.spared name keys (hstack ▸ List.mem_cons_of_mem _ h)
  · have hbusy := hw.busy k q p h
    rw [hstack] at hbusy
    refine (List.mem_cons.mp hbusy).resolve_left ?_
    rintro rfl
    cases (hdone q h.1).symm.trans h.2

end Kept

/-- What becomes of packets, apart from the transports. -/
def outside (w : Switchboard) : Traffic × Dict HostName Bool × Dict Key InOrder :=
  (w.traffic, w.alive, w.inbound)

/-- Only transports and frames change. -/
theorem Kept.inside (hw : w.Kept H) (h : w'.outside = w.outside)
    (hstack : Onward H w.stack w'.stack) : w'.Kept H := by
  obtain ⟨htraffic, hrest⟩ := Prod.mk.inj h
  obtain ⟨halive, hinbound⟩ := Prod.mk.inj hrest
  refine hw.goes_on (fun name _ hdown => ?_) hinbound ?_ hstack
  · rw [down, ← halive]
    exact hdown
  · rw [htraffic]
    exact .refl _

theorem Hand.keeps {data : Bytes} (h : Hand t data w w') (hw : w.Kept H) : w'.Kept H := by
  refine hw.inside ?_ h.onward
  cases h <;> rfl

theorem Ending.keeps (h : Ending t w w') (hw : w.Kept H) : w'.Kept H := by
  refine hw.inside ?_ h.onward
  cases h <;> rfl

theorem Kept.finish (hw : w.Kept H) (t : Nat) (T : StreamTransport) (exc : Option Exc) :
    (w.finish t T exc).Kept H := by
  refine hw.inside ?_ (finish_onward t T exc)
  unfold Switchboard.finish
  cases T.protocol <;> rfl

theorem Dispatched.keeps {p : Packet} (h : Dispatched p w w') (hw : w.Kept H) : w'.Kept H := by
  have hcalled : ∀ f, (∀ name keys, f ≠ .crash name keys) →
      Onward H w.stack (.code :: f :: w.stack) := fun f hf =>
    .cons (fun _ _ h => by cases h) (.cons (fun name keys h => absurd h (hf name keys)) (.refl _))
  cases h with
  | heard _ _ hpost =>
      exact hw.goes_on (fun _ _ h => h) rfl (.posted hpost) (hcalled _ fun _ _ h => by cases h)
  | unheard _ hpost => exact hw.goes_on (fun _ _ h => h) rfl (.posted hpost) (.refl _)
  | accepted _ _ _ _ _ => exact hw.inside rfl (hcalled _ fun _ _ h => by cases h)
  | data _ _ _ _ _ hhand =>
      exact hhand.keeps (hw.inside rfl (.cons (fun _ _ h => by cases h) (.refl _)))
  | fin _ _ hending => exact hending.keeps hw
  | @rst u T _ _ _ _ exc =>
      have hgone : (w.modify u .peerGone).Kept H := hw.inside rfl (.refl _)
      exact hgone.finish u T exc
  | _ => exact hw.inside rfl (.refl _)

theorem Move.keeps (h : Move A w w') (hsound : w.Sound) (hA : Steady A H) (hw : w.Kept H) :
    w'.Kept H := by
  have hinside : w'.outside = w.outside → Onward H w.stack w'.stack → w'.Kept H := hw.inside
  have hquiet : ∀ {tr : Traffic} {l : List Frame}, w'.traffic = tr → w'.stack = l →
      Traffic.Retains H w.traffic tr → Onward H w.stack l → w'.alive = w.alive →
      w'.inbound = w.inbound → w'.Kept H := by
    rintro _ _ rfl rfl htraffic hstack halive hinbound
    refine hw.goes_on (fun name _ hdown => ?_) hinbound htraffic hstack
    rw [down, ← halive]
    exact hdown
  have htail : ∀ {f rest}, w.stack = f :: rest → (∀ k, f ≠ .push k) → Onward H w.stack rest :=
    fun hstack hf => by
      rw [hstack]
      exact .tail hf
  cases h with
  | datagram _ _ _ hpost => exact hquiet rfl rfl (.posted hpost) (.refl _) rfl rfl
  | sent _ _ _ _ hpost => exact hquiet rfl rfl (.posted hpost) (.refl _) rfl rfl
  | released hrelease => exact hquiet rfl rfl (.released hrelease) (.refl _) rfl rfl
  | @lost time i f hi hdown _ =>
      refine hquiet rfl rfl (.fired hi fun _ hsrc hdst => ?_) (.refl _) rfl rfl
      exact hdown.elim (hw.up _ hsrc) (hw.up _ hdst)
  | parked time hi _ _ => exact hquiet rfl rfl (.parked hi) (.refl _) rfl rfl
  | dropped time hi hkind _ =>
      exact hquiet rfl rfl (.fired hi fun h => absurd hkind h) (.refl _) rfl rfl
  | landed time hi hkind hstack _ => exact hw.landed hsound hi hkind hstack
  | reached time hi hkind _ _ =>
      exact hquiet rfl rfl (.fired hi fun h => absurd hkind h)
        (.cons (fun _ _ h => by cases h) (.refl _)) rfl rfl
  | missed time hi hkind _ _ =>
      exact hquiet rfl rfl (.fired hi fun h => absurd hkind h)
        (.cons (fun _ _ h => by cases h) (.refl _)) rfl rfl
  | purged time hname =>
      exact hquiet rfl rfl (.purged (hA.crashed _ hname)) (.refl _) rfl rfl
  | @enlisted name address _ _ =>
      refine hw.goes_on (fun n _ hdown => ?_) rfl (.refl _) (.refl _)
      have hdown : (w.alive.insert name true).get? n = some false := hdown
      rw [Dict.get?_insert] at hdown
      split at hdown
      · cases hdown
      · exact hdown
  | @downed name hname =>
      refine hw.goes_on (fun n hn hdown => ?_) rfl (.refl _) (.refl _)
      have hne : name ≠ n := by
        rintro rfl
        exact hA.crashed name hname hn
      exact (Dict.get?_insert_of_ne _ _ hne).symm.trans hdown
  | @restarted time name _ =>
      refine hw.goes_on (fun n _ hdown => ?_) rfl (.of_same rfl fun _ _ _ _ h => h) (.refl _)
      have hdown : (w.alive.insert name true).get? n = some false := hdown
      rw [Dict.get?_insert] at hdown
      split at hdown
      · cases hdown
      · exact hdown
  | started hstack _ =>
      refine hinside rfl ?_
      rw [hstack]
      exact .cons (fun _ _ h => by cases h) (.refl _)
  | popped hstack hdone => exact hw.popped hstack hdone
  | unwound hstack hf =>
      refine hinside rfl (htail hstack fun k h => hA.unwound k ?_)
      exact h ▸ hf
  | starved hstack _ => exact hinside rfl (htail hstack fun k h => by cases h)
  | left hstack _ => exact hinside rfl (htail hstack fun k h => by cases h)
  | called _ hframes =>
      refine hinside rfl (.cons (fun _ _ h => by cases h) (.append (fun f hf name keys h => ?_)
        (.refl _)))
      have haside := hframes f hf
      rw [h] at haside
      exact haside
  | flowed _ _ =>
      exact hinside rfl (.cons (fun _ _ h => by cases h) (.cons (fun _ _ h => by cases h)
        (.refl _)))
  | pushed hf =>
      refine hinside rfl (.cons (fun name keys h => ?_) (.refl _))
      rw [h] at hf
      exact False.elim hf
  | crashing keys hname =>
      refine hinside rfl (.cons (fun name' keys' h => ?_) (.refl _))
      obtain ⟨rfl, -⟩ := Frame.crash.inj h
      exact hA.crashed _ hname
  | @finished t T _ _ exc _ => exact hw.finish t T exc
  | resumed _ _ _ => exact hinside rfl (.cons (fun _ _ h => by cases h) (.refl _))
  | next hstack hready hdispatch =>
      exact hdispatch.keeps (hw.take hready (hstack ▸ List.mem_cons_self))
  | drained _ _ _ _ _ hhand =>
      exact hhand.keeps (hw.inside rfl (.cons (fun _ _ h => by cases h) (.refl _)))
  | ended hstack _ _ _ _ _ hending =>
      exact hending.keeps (hw.inside rfl (htail hstack fun k h => by cases h))
  | fed hstack _ =>
      exact hinside rfl (.cons (fun _ _ h => by cases h) (.cons (fun _ _ h => by cases h)
        (htail hstack fun k h => by cases h)))
  | roomed _ hstack =>
      exact hinside rfl (.cons (fun _ _ h => by cases h) (.cons (fun _ _ h => by cases h)
        (htail hstack fun k h => by cases h)))
  | opened _ _ _ _ hpost => exact hquiet rfl rfl (.posted hpost) (.refl _) rfl rfl
  | begunClient _ hstack =>
      exact hinside rfl (.cons (fun _ _ h => by cases h) (.cons (fun _ _ h => by cases h)
        (htail hstack fun k h => by cases h)))
  | begunServer _ hstack =>
      exact hinside rfl (.cons (fun _ _ h => by cases h) (htail hstack fun k h => by cases h))
  | _ => exact hinside rfl (.refl _)

end Switchboard

/-! ## Runs -/

namespace SimNetwork

variable {ρ : Type} {R : RandomSource ρ} {s s' : SimNetwork ρ}

/-- No crash of one of the hosts goes through, and no exception leaves `_InOrder.push` while the
next packet is there. -/
def steady (hosts : List HostName) (s : SimNetwork ρ) : Act → Bool
  | .crash name _ => !(hosts.contains name && decide (s.Crashes name))
  | .tick =>
    match s.signal, s.stack with
    | .raised _, .push k :: _ =>
      (s.inbound.get? k).all fun q => (q.early.get? q.next).isNone
    | _, _ => true
  | _ => true

theorem Step.kept {hosts : List HostName} {a : Act} (hs : s.board.Regular)
    (hkept : s.board.Kept (· ∈ hosts)) (hstep : Step R s a s') (h : s.steady hosts a = true) :
    s'.board.Kept (· ∈ hosts) := by
  have hcalm : (∀ e k rest, a = .tick → s.signal = .raised e → s.stack ≠ .push k :: rest) →
      s'.board.Kept (· ∈ hosts) := fun hpush => by
    have hsteady : Switchboard.Steady (s.Occasions a) (· ∈ hosts) := by
      refine ⟨?_, ?_⟩
      · rintro name (⟨⟨waiting, rfl⟩, hcrashes⟩ | ⟨-, keys, rest, hstack⟩)
        · simpa only [steady, hcrashes, decide_true, Bool.and_true, Bool.not_eq_true',
            List.contains_eq_mem, decide_eq_false_iff_not] using h
        · refine hkept.spared name keys ?_
          rw [show s.board.stack = _ from hstack]
          exact List.mem_cons_self
      · rintro k ⟨rfl, e, rest, hsignal, hstack⟩
        exact hpush e k rest rfl hsignal hstack
    have hboth := (step_switches R s hstep).invariant
      (I := fun w => w.Regular ∧ w.Kept (· ∈ hosts))
      (fun _ _ hmove hw => ⟨hw.1.move hmove, hmove.keeps hw.1.sound hsteady hw.2⟩) ⟨hs, hkept⟩
    exact hboth.2
  rcases Classical.em (a = .tick ∧ ∃ e k rest, s.signal = .raised e ∧ s.stack = .push k :: rest)
    with ⟨rfl, e, k, rest, hsignal, hstack⟩ | hother
  · rcases step_cases R hstep with ⟨-, -, h'⟩ | ⟨_, -, -, h'⟩ | ⟨-, -, rfl⟩
    · cases h'
    · cases h'
    · have hboard : (turn R s).board = { s.board with stack := rest } := by
        simp only [turn, hsignal, hstack]
        rfl
      rw [hboard]
      refine hkept.popped hstack fun q hq => ?_
      simp only [steady, hsignal, hstack, show s.inbound.get? k = some q from hq,
        Option.all_some, Option.isNone_iff_eq_none] at h
      exact h
  · exact hcalm fun e k rest ha hsignal hstack => hother ⟨ha, e, k, rest, hsignal, hstack⟩

/-- **No packet between hosts that stay up is lost.** -/
theorem kept_of_run {seed : Int} {acts : List Act} {hosts : List HostName}
    (run : Run (restrict (Step R) fun s a => s.steady hosts a) (init R seed) acts s) :
    s.board.Kept (· ∈ hosts) := by
  have hboth := run.invariant (I := fun s => s.board.Regular ∧ s.board.Kept (· ∈ hosts))
    (fun s a s' hs hstep => ⟨hs.1.moves (step_switches R s hstep.1),
      Step.kept hs.1 hs.2 hstep.1 hstep.2⟩) ⟨regular_of_run (.nil _), ?_⟩
  · exact hboth.2
  · rw [board_init]
    refine ⟨fun name _ hdown => ?_, fun _ _ h => absurd h List.not_mem_nil,
      fun _ h => absurd h List.not_mem_nil, fun _ _ _ h => (by cases h.1)⟩
    have hup : (Dict.empty.insert driver true).get? name = some false := hdown
    rw [Dict.get?_insert] at hup
    split at hup <;> cases hup

/-- Nothing of this direction is in flight or held. -/
def Landed (s : SimNetwork ρ) (k : Key) : Prop :=
  ∀ p, s.board.traffic.Aloft p → p.kind ≠ .dgram → p.key ≠ k

/-- When nothing is going on, all packets of a direction were dispatched. -/
theorem taken_of_idle {seed : Int} {acts : List Act} {hosts : List HostName}
    (run : Run (restrict (Step R) fun s a => s.steady hosts a) (init R seed) acts s)
    (hidle : s.stack = []) {k : Key} (hlanded : s.Landed k)
    (hhosts : ∀ p ∈ s.board.wiring.on k, p.src ∈ hosts ∧ p.dst ∈ hosts) :
    s.board.wiring.taken k = s.board.wiring.on k := by
  have hkept := kept_of_run run
  have hwired := (regular_of_run run.of_restrict).sound.wired
  refine List.take_of_length_le (Nat.not_lt.mp fun hlt => ?_)
  -- the next packet is neither on its way nor in the queue
  obtain ⟨p, hget⟩ : ∃ p, (s.board.wiring.on k)[s.board.wiring.next k]? = some p :=
    ⟨_, List.getElem?_eq_getElem hlt⟩
  obtain ⟨hmem, hkind, hkey⟩ := Wiring.mem_on.mp (List.mem_of_getElem? hget)
  have hseq := hwired.numbered k _ _ hget
  obtain ⟨hsrc, hdst⟩ := hhosts _ (List.mem_of_getElem? hget)
  rcases hkept.kept _ hmem hkind hsrc hdst with haloft | hbefore | ⟨q, hq, hearly⟩
  · exact hlanded _ haloft hkind hkey
  · rw [hkey, hseq] at hbefore
    exact Nat.lt_irrefl _ hbefore
  · rw [hkey] at hq
    rw [hseq] at hearly
    have hnext : s.board.wiring.next k = q.next := by
      simp only [Wiring.next, show s.board.wiring.inbound.get? k = some q from hq,
        Option.map_some, Option.getD_some]
    rw [hnext] at hearly
    have hbusy := hkept.busy k q _ ⟨hq, hearly⟩
    rw [show s.board.stack = [] from hidle] at hbusy
    cases hbusy

/-- **Whoever reads has everything that was written**, when nothing is going on. -/
theorem all_handed {seed : Int} {acts : List Act} {hosts : List HostName}
    (run : Run (restrict (Step R) fun s a => s.smooth a && s.steady hosts a) (init R seed) acts s)
    (hidle : s.stack = []) {t u : Nat} {T U : StreamTransport} (h : s.Faces u U t T)
    (hloc : T.loc.1 ∈ hosts) (hremote : T.remote.1 ∈ hosts) (hlanded : s.Landed T.key)
    (hopen : T.closed = false) (hprotocol : T.protocol ≠ none) (hreading : T.readPaused = false) :
    handedTo t s.calls = writtenTo u s.calls ∧
      eofsTo t s.calls = if U.eofSent then 1 else 0 := by
  obtain ⟨hU, hT, hkey⟩ := h
  have hsteady := run.widen fun _ _ h => (Bool.and_eq_true_iff.mp h).2
  have hsmooth := run.widen fun _ _ h => (Bool.and_eq_true_iff.mp h).1
  have hregular := regular_of_run run.of_restrict
  have hsound := intake_of_run hsmooth t
  have hwritten := (written_of_run run.of_restrict).carried u U hU
  rw [hkey] at hwritten
  have hlive : T.ear.Live := ⟨hopen, Option.isSome_iff_ne_none.mpr hprotocol⟩
  have hear := Switchboard.ear_intake (w := s.board) hT
  have hduties : (s.board.intake t).duties = [] := by
    show duties t s.stack = []
    rw [hidle]
    rfl
  have hno : .draining ∉ (s.board.intake t).duties := by
    rw [hduties]
    exact List.not_mem_nil
  have htaken := taken_of_idle hsteady hidle hlanded fun p hp => by
    obtain ⟨hsource, htarget⟩ := hregular.sound.wired.addresses
      (List.mem_of_getElem? (Switchboard.ends_of_transports hT)) hp
    have hsrc : p.src = T.remote.1 := congrArg Prod.fst hsource
    have hdst : p.dst = T.loc.1 := congrArg Prod.fst htarget
    rw [hsrc, hdst]
    exact ⟨hremote, hloc⟩
  have harrived := Switchboard.arrived_intake (w := s.board) hT
  rw [htaken] at harrived
  refine ⟨?_, ?_⟩
  · have hwhole := hsound.whole _ hear hlive
    rw [hduties, hsound.backlog_eq_nil hear hlive hreading hno, harrived] at hwhole
    simp only [underway_nil, List.append_nil, List.flatten_nil] at hwhole
    exact hwhole.trans hwritten
  · split
    · rename_i heof
      obtain ⟨p, hp, hfin⟩ := hregular.ordered.ended U (List.mem_of_getElem? hU) heof
      have hended : (s.board.intake t).Ended := ⟨p, by rw [harrived, ← hkey]; exact hp, hfin⟩
      refine (hsound.told hended _ hear hlive).resolve_left fun hpending => hno ?_
      exact hsound.drains _ hear hlive hreading (.inr hpending)
    · rename_i heof
      refine (told_after_all hsmooth ⟨hU, hT, hkey⟩).resolve_right fun h => heof h.2.1

theorem all_handed_exchange : ∃ (s : SimNetwork Unit) (T U : StreamTransport),
    performsWhile .least (fun s a => s.smooth a && s.steady [driver] a) (init .least 0) exchange =
      some s ∧ s.Faces 1 U 0 T ∧ handedTo 0 s.calls = writtenTo 1 s.calls ∧
      eofsTo 0 s.calls = if U.eofSent then 1 else 0 := by
  have hstate : ((performsWhile .least (fun s a => s.smooth a && s.steady [driver] a)
      (init .least 0) exchange).bind fun s =>
        s.transports[1]?.bind fun U => s.transports[0]?.bind fun T =>
          if U.outKey = T.key ∧ s.stack = [] ∧ T.loc.1 = driver ∧ T.remote.1 = driver ∧
            (∀ f ∈ s.inFlight, f.packet.key ≠ T.key) ∧ s.held = [] ∧ T.closed = false ∧
            T.protocol ≠ none ∧ T.readPaused = false then some () else none) = some () := by
    decide +kernel
  obtain ⟨s, hs, hrest⟩ := Option.bind_eq_some_iff.mp hstate
  obtain ⟨U, hU, hrest⟩ := Option.bind_eq_some_iff.mp hrest
  obtain ⟨T, hT, hrest⟩ := Option.bind_eq_some_iff.mp hrest
  obtain ⟨⟨hkey, hidle, hloc, hremote, hflights, hheld, hopen, hprotocol, hreading⟩, -⟩ :=
    Option.ite_none_right_eq_some.mp hrest
  have hfaces : s.Faces 1 U 0 T := ⟨hU, hT, hkey⟩
  refine ⟨s, T, U, hs, hfaces, all_handed (run_of_performsWhile _ hs) hidle hfaces
    (List.mem_singleton.mpr hloc) (List.mem_singleton.mpr hremote) ?_ hopen hprotocol hreading⟩
  rintro p (⟨f, hf, rfl⟩ | hp) -
  · exact hflights f hf
  · rw [show s.board.traffic.held = [] from hheld] at hp
    cases hp

end SimNetwork

end SimLoop.Net
