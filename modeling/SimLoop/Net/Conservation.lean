/-
  Net/Conservation.lean --- no packet is lost or doubled.

  Every uid has an account: how many timers, held entries and delivery steps it has, and
  how often the trace says that it was sent, delivered and lost.  A move touches the
  account of one packet, or, when a host crashes, turns held entries into losses; so the
  accounts stay balanced, and a stream packet is in exactly one place.
-/
import SimLoop.Net.Bookkeeping

set_option autoImplicit false

namespace SimLoop.Net

open SimLoop.Foundation

/-! ## Accounts -/

/-- What a net event says of its packet. -/
def NetLabel.verb : NetLabel → Option Verb
  | .packet verb _ _ => some verb
  | .crash _ => none
  | .restart _ => none

/-- What is known of one uid: its pending timers, held entries and delivery steps, and
its events. -/
structure Account where
  aloft : Nat
  parked : Nat
  landings : Nat
  sends : Nat
  delivers : Nat
  losts : Nat
  deriving DecidableEq

namespace Account

/-- The account of a uid that was never used. -/
def zero : Account := ⟨0, 0, 0, 0, 0, 0⟩

/-- One more event. -/
def noted (a : Account) : Verb → Account
  | .send => { a with sends := a.sends + 1 }
  | .deliver => { a with delivers := a.delivers + 1 }
  | .lost => { a with losts := a.losts + 1 }
  | _ => a

/-- Every timer that was started is pending or has led to a delivery step.  A stream
packet is in one place; a datagram is never held, and delivered twice at most. -/
def Balanced (kind : PacketKind) (a : Account) : Prop :=
  a.sends = a.aloft + a.landings ∧
    if kind = .dgram then a.parked = 0 ∧ a.delivers ≤ a.landings ∧ a.aloft + a.landings ≤ 2
    else a.aloft + a.parked + a.delivers + a.losts = 1

end Account

namespace Traffic

/-- How often the trace says `verb` of a uid. -/
def tally (w : Traffic) (verb : Verb) (uid : Nat) : Nat :=
  w.trace.countP fun e => decide (e.uid = uid ∧ e.label.verb = some verb)

/-- The account of a uid. -/
def account (w : Traffic) (uid : Nat) : Account where
  aloft := w.inFlight.countP fun f => decide (f.packet.uid = uid)
  parked := w.held.countP fun p => decide (p.uid = uid)
  landings := w.landed.countP fun l => decide (l.packet.uid = uid)
  sends := w.tally .send uid
  delivers := w.tally .deliver uid
  losts := w.tally .lost uid

variable (w : Traffic) (time due : ℚ) (verb : Verb) (p : Packet) (uid : Nat)

theorem account_note : (w.note time verb p).account uid =
    if p.uid = uid then (w.account uid).noted verb else w.account uid := by
  by_cases h : p.uid = uid
  · cases verb <;>
      simp [account, tally, note, event, NetLabel.verb, Account.noted, h, List.countP_append]
  · simp [account, tally, note, event, h, List.countP_append]

theorem account_launch : (w.launch time due p).account uid =
    if p.uid = uid then
      { (w.account uid).noted .send with aloft := (w.account uid).aloft + 1 }
    else w.account uid := by
  by_cases h : p.uid = uid
  · simp [account, tally, launch, note, event, NetLabel.verb, Account.noted, h,
      List.countP_append]
  · simp [account, tally, launch, note, event, h, List.countP_append]

theorem account_park : (w.park time p).account uid =
    if p.uid = uid then { w.account uid with parked := (w.account uid).parked + 1 }
    else w.account uid := by
  by_cases h : p.uid = uid
  · simp [account, tally, park, note, event, NetLabel.verb, h, List.countP_append]
  · simp [account, tally, park, note, event, h, List.countP_append]

theorem account_fire {i : Nat} {f : Flight} (hi : w.inFlight[i]? = some f) :
    (w.fire i f.packet).account uid =
      if f.packet.uid = uid then
        { w.account uid with
          aloft := (w.account uid).aloft - 1, landings := (w.account uid).landings + 1 }
      else w.account uid := by
  obtain ⟨hlt, hget⟩ := List.getElem?_eq_some_iff.mp hi
  have hperm := (List.getElem_cons_eraseIdx_perm hlt).countP_eq
    fun f => decide (f.packet.uid = uid)
  rw [hget, List.countP_cons] at hperm
  by_cases h : f.packet.uid = uid
  · simp only [h, decide_true, if_true] at hperm
    simp only [account, tally, fire, h, decide_true, if_true, List.countP_append,
      List.countP_singleton, ← hperm, Nat.add_sub_cancel]
  · simp only [h, decide_false, Bool.false_eq_true, if_false, Nat.add_zero] at hperm
    simp only [account, tally, fire, h, decide_false, if_false, List.countP_append,
      List.countP_singleton, Bool.false_eq_true, Nat.add_zero, hperm]

theorem aloft_pos {i : Nat} {f : Flight} (hi : w.inFlight[i]? = some f) :
    0 < (w.account f.packet.uid).aloft :=
  List.countP_pos_iff.mpr ⟨f, List.mem_of_getElem? hi, by simp⟩

theorem account_purge (name : HostName) : (w.purge time name).account uid =
    { w.account uid with
      parked := (w.held.filter fun p => !endsAt name p).countP fun p => decide (p.uid = uid)
      losts := (w.account uid).losts +
        (w.held.filter (endsAt name)).countP fun p => decide (p.uid = uid) } := by
  have hnone : ∀ verb, verb ≠ .lost → ((w.held.filter (endsAt name)).map (event time .lost)).countP
      (fun e => decide (e.uid = uid ∧ e.label.verb = some verb)) = 0 := by
    intro verb hverb
    apply List.countP_eq_zero.mpr
    intro e he
    obtain ⟨p, -, rfl⟩ := List.mem_map.mp he
    simp only [event, NetLabel.verb, Option.some.injEq, decide_eq_true_eq, not_and]
    exact fun _ h => hverb h.symm
  have hlost : ((w.held.filter (endsAt name)).map (event time .lost)).countP
      (fun e => decide (e.uid = uid ∧ e.label.verb = some .lost)) =
      (w.held.filter (endsAt name)).countP fun p => decide (p.uid = uid) := by
    rw [List.countP_map]
    simp only [event, NetLabel.verb, and_true, Function.comp_def]
  simp only [account, tally, purge, List.countP_append, hnone .send (by decide),
    hnone .deliver (by decide), hlost]
  simp [NetLabel.verb]

theorem account_restart (name : HostName) :
    (w.restart time name).account uid = w.account uid := by
  simp [account, tally, restart, NetLabel.verb, List.countP_append]

/-! ## The invariant -/

/-- Whatever is on record is about a packet that was made, and each was made once. -/
structure Placed (w : Traffic) : Prop where
  fresh : ∀ p ∈ w.sent, p.uid < w.nextUid
  nodup : (w.sent.map Packet.uid).Nodup
  aloft : ∀ f ∈ w.inFlight, f.packet ∈ w.sent
  held : ∀ p ∈ w.held, p ∈ w.sent ∧ p.kind ≠ .dgram
  landed : ∀ l ∈ w.landed, l.packet ∈ w.sent
  recorded : ∀ e ∈ w.trace, e.label.verb ≠ none → e.uid ∈ w.sent.map Packet.uid

/-- What a delivery step can record first. -/
def landingVerbs : List Verb := [.deliver, .lost, .hold, .drop]

/-- Every delivery step recorded first what became of its packet. -/
def Punctual (w : Traffic) : Prop :=
  ∀ l ∈ w.landed, ∃ time, ∃ verb ∈ landingVerbs,
    w.trace[l.start]? = some (event time verb l.packet)

/-- No packet is lost or doubled. -/
structure Conserved (w : Traffic) : Prop extends Placed w where
  balanced : ∀ p ∈ w.sent, (w.account p.uid).Balanced p.kind
  punctual : Punctual w

theorem Placed.eq_of_uid {w : Traffic} (hw : Placed w) {p q : Packet} (hp : p ∈ w.sent)
    (hq : q ∈ w.sent) (huid : p.uid = q.uid) : p = q :=
  List.inj_on_of_nodup_map hw.nodup hp hq huid

/-- Nothing is on record of a uid that no packet has. -/
theorem Placed.account_zero {w : Traffic} (hw : Placed w) {uid : Nat}
    (huid : uid ∉ w.sent.map Packet.uid) : w.account uid = .zero := by
  have hmem : ∀ p ∈ w.sent, p.uid ≠ uid := fun p hp h => huid (List.mem_map.mpr ⟨p, hp, h⟩)
  have htally : ∀ verb, w.tally verb uid = 0 := by
    intro verb
    apply List.countP_eq_zero.mpr
    intro e he
    simp only [decide_eq_true_eq, not_and]
    intro heq hverb
    exact huid (heq ▸ hw.recorded e he (by rw [hverb]; exact Option.some_ne_none _))
  simp only [account, Account.zero, htally, Account.mk.injEq, List.countP_eq_zero,
    decide_eq_true_eq, and_true]
  exact ⟨fun f hf => hmem _ (hw.aloft f hf), fun p hp => hmem p (hw.held p hp).1,
    fun l hl => hmem _ (hw.landed l hl)⟩

/-! ## Changes of one account -/

/-- More is on record of `p`, and of no other packet. -/
structure Extends (p : Packet) (w w' : Traffic) : Prop where
  sent : w'.sent = w.sent
  landed : w'.landed = w.landed
  nextUid : w'.nextUid = w.nextUid
  aloft : ∀ f ∈ w'.inFlight, f ∈ w.inFlight ∨ f.packet = p
  held : ∀ q ∈ w'.held, q ∈ w.held ∨ q = p ∧ p.kind ≠ .dgram
  trace : ∃ l, w'.trace = w.trace ++ l ∧ ∀ e ∈ l, e.uid = p.uid
  other : ∀ uid, p.uid ≠ uid → w'.account uid = w.account uid

namespace Extends

variable {w w' w'' : Traffic} {p : Packet}

theorem trans (h : Extends p w w') (h' : Extends p w' w'') : Extends p w w'' where
  sent := h'.sent.trans h.sent
  landed := h'.landed.trans h.landed
  nextUid := h'.nextUid.trans h.nextUid
  aloft f hf := (h'.aloft f hf).elim (h.aloft f) .inr
  held q hq := (h'.held q hq).elim (h.held q) .inr
  trace := by
    obtain ⟨l, hl, hp⟩ := h.trace
    obtain ⟨l', hl', hp'⟩ := h'.trace
    refine ⟨l ++ l', by rw [hl', hl, List.append_assoc], fun e he => ?_⟩
    exact (List.mem_append.mp he).elim (hp e) (hp' e)
  other uid huid := (h'.other uid huid).trans (h.other uid huid)

theorem note (w : Traffic) (time : ℚ) (verb : Verb) (p : Packet) :
    Extends p w (w.note time verb p) where
  sent := rfl
  landed := rfl
  nextUid := rfl
  aloft _ hf := .inl hf
  held _ hq := .inl hq
  trace := ⟨_, rfl, fun e he => by rw [List.mem_singleton.mp he]; rfl⟩
  other uid huid := by rw [account_note, if_neg huid]

theorem launch (w : Traffic) (time due : ℚ) (p : Packet) :
    Extends p w (w.launch time due p) where
  sent := rfl
  landed := rfl
  nextUid := rfl
  aloft f hf := (List.mem_append.mp hf).imp_right fun h => by rw [List.mem_singleton.mp h]
  held _ hq := .inl hq
  trace := ⟨_, rfl, fun e he => by rw [List.mem_singleton.mp he]; rfl⟩
  other uid huid := by rw [account_launch, if_neg huid]

theorem park (w : Traffic) (time : ℚ) {p : Packet} (hkind : p.kind ≠ .dgram) :
    Extends p w (w.park time p) where
  sent := rfl
  landed := rfl
  nextUid := rfl
  aloft _ hf := .inl hf
  held q hq := (List.mem_append.mp hq).imp_right fun h => ⟨List.mem_singleton.mp h, hkind⟩
  trace := ⟨_, rfl, fun e he => by rw [List.mem_singleton.mp he]; rfl⟩
  other uid huid := by rw [account_park, if_neg huid]

theorem dispatch {time : ℚ} (h : Dispatch time p w w') : Extends p w w' := by
  cases h with
  | launched due => exact launch w time due p
  | parked hkind => exact park w time hkind
  | dropped _ => exact note w time .drop p
  | doubled _ due due' =>
      exact ((note w time .dup p).trans (launch _ time due p)).trans (launch _ time due' p)

theorem outcome {down : HostName → Prop} {time : ℚ} (h : Outcome down time p w w') :
    Extends p w w' := by
  cases h with
  | lost _ => exact note w time .lost p
  | parked hkind => exact park w time hkind
  | dropped _ => exact note w time .drop p
  | delivered => exact note w time .deliver p

/-- More on record of a packet that was made leaves everything placed. -/
theorem placed (h : Extends p w w') (hw : Placed w) (hp : p ∈ w.sent) : Placed w' where
  fresh := by rw [h.sent, h.nextUid]; exact hw.fresh
  nodup := by rw [h.sent]; exact hw.nodup
  aloft f hf := by
    rw [h.sent]
    exact (h.aloft f hf).elim (hw.aloft f) fun heq => heq ▸ hp
  held q hq := by
    rw [h.sent]
    exact (h.held q hq).elim (hw.held q) fun heq => ⟨heq.1 ▸ hp, heq.1 ▸ heq.2⟩
  landed := by rw [h.landed, h.sent]; exact hw.landed
  recorded e he hverb := by
    obtain ⟨l, hl, huid⟩ := h.trace
    rw [hl] at he
    rw [h.sent]
    rcases List.mem_append.mp he with he | he
    · exact hw.recorded e he hverb
    · exact huid e he ▸ List.mem_map.mpr ⟨p, hp, rfl⟩

/-- What was recorded stays where it is. -/
theorem recorded_at (h : Extends p w w') {i : Nat} {e : NetEvent}
    (hi : w.trace[i]? = some e) : w'.trace[i]? = some e := by
  obtain ⟨l, hl, -⟩ := h.trace
  rw [hl, List.getElem?_append_left (List.getElem?_eq_some_iff.mp hi).1]
  exact hi

theorem punctual (h : Extends p w w') (hw : Punctual w) : Punctual w' := by
  intro l hl
  rw [h.landed] at hl
  obtain ⟨time, verb, hverb, hat⟩ := hw l hl
  exact ⟨time, verb, hverb, h.recorded_at hat⟩

/-- The accounts of the other packets stay balanced. -/
theorem conserved (h : Extends p w w') (hw : Placed w) (hp : p ∈ w.sent)
    (hother : ∀ q ∈ w.sent, q ≠ p → (w.account q.uid).Balanced q.kind)
    (hown : (w'.account p.uid).Balanced p.kind) (hpunctual : Punctual w') : Conserved w' where
  toPlaced := h.placed hw hp
  balanced q hq := by
    rw [h.sent] at hq
    by_cases hqp : q = p
    · exact hqp ▸ hown
    · have huid : p.uid ≠ q.uid := fun heq => hqp (hw.eq_of_uid hq hp heq.symm)
      rw [h.other _ huid]
      exact hother q hq hqp
  punctual := hpunctual

end Extends

/-! ## The moves -/

/-- A packet with an empty account, or one that has just left the held ones, is balanced
once it is handed over. -/
theorem Dispatch.balanced {time : ℚ} {p : Packet} {w w' : Traffic} (h : Dispatch time p w w')
    (hsends : (w.account p.uid).sends = (w.account p.uid).aloft + (w.account p.uid).landings)
    (hnone : (w.account p.uid).aloft = 0 ∧ (w.account p.uid).parked = 0 ∧
      (w.account p.uid).delivers = 0 ∧ (w.account p.uid).losts = 0)
    (hfirst : p.kind = .dgram → (w.account p.uid).landings = 0) :
    (w'.account p.uid).Balanced p.kind := by
  obtain ⟨haloft, hparked, hdelivers, hlosts⟩ := hnone
  cases h with
  | launched due =>
      rw [account_launch, if_pos rfl]
      refine ⟨by simp only [Account.noted]; omega, ?_⟩
      split
      · rename_i hkind
        have := hfirst hkind
        simp only [Account.noted]
        omega
      · simp only [Account.noted]
        omega
  | parked hkind =>
      rw [account_park, if_pos rfl]
      refine ⟨hsends, ?_⟩
      rw [if_neg hkind]
      simp only
      omega
  | dropped hkind =>
      rw [account_note, if_pos rfl]
      refine ⟨hsends, ?_⟩
      have := hfirst hkind
      rw [if_pos hkind]
      simp only [Account.noted]
      omega
  | doubled hkind due due' =>
      have := hfirst hkind
      simp only [account_launch, account_note, if_pos]
      refine ⟨by simp only [Account.noted]; omega, ?_⟩
      rw [if_pos hkind]
      simp only [Account.noted]
      omega

theorem Placed.stamp {w : Traffic} (hw : Placed w) {p : Packet} (huid : p.uid = w.nextUid) :
    Placed (w.stamp p) := by
  have hmem : ∀ {q}, q ∈ w.sent → q ∈ (w.stamp p).sent := fun h => List.mem_append_left _ h
  refine ⟨fun q hq => ?_, ?_, fun f hf => hmem (hw.aloft f hf),
    fun q hq => ⟨hmem (hw.held q hq).1, (hw.held q hq).2⟩, fun l hl => hmem (hw.landed l hl),
    fun e he hverb => ?_⟩
  · rcases List.mem_append.mp hq with hq | hq
    · exact Nat.lt_succ_of_lt (hw.fresh q hq)
    · obtain rfl := List.mem_singleton.mp hq
      exact huid ▸ Nat.lt_succ_self _
  · simp only [Traffic.stamp, List.map_append, List.map_cons, List.map_nil]
    refine List.nodup_append.mpr ⟨hw.nodup, List.nodup_singleton _, ?_⟩
    intro u hu v hv huv
    obtain ⟨q, hq, rfl⟩ := List.mem_map.mp hu
    have hlt := hw.fresh q hq
    rw [huv, List.mem_singleton.mp hv, huid] at hlt
    exact lt_irrefl _ hlt
  · simp only [Traffic.stamp, List.map_append]
    exact List.mem_append_left _ (hw.recorded e he hverb)

theorem Conserved.posted {w w' : Traffic} (hw : Conserved w) {time : ℚ} {p : Packet}
    (huid : p.uid = w.nextUid) (hsend : Dispatch time p (w.stamp p) w') : Conserved w' := by
  have hnew : p.uid ∉ w.sent.map Packet.uid := by
    intro hmem
    obtain ⟨q, hq, heq⟩ := List.mem_map.mp hmem
    have hlt := hw.fresh q hq
    omega
  have hzero : (w.stamp p).account p.uid = .zero := hw.toPlaced.account_zero hnew
  refine (Extends.dispatch hsend).conserved (hw.toPlaced.stamp huid)
    (List.mem_append_right _ (List.mem_singleton.mpr rfl)) ?_ ?_ ?_
  · intro q hq hne
    rcases List.mem_append.mp hq with hq | hq
    · exact hw.balanced q hq
    · exact absurd (List.mem_singleton.mp hq) hne
  · apply hsend.balanced <;> simp only [hzero, Account.zero, and_self, implies_true]
  · exact (Extends.dispatch hsend).punctual hw.punctual

theorem Conserved.released {w w' : Traffic} (hw : Conserved w) {time : ℚ} {p : Packet}
    {rest : List Packet} (hheld : w.held = p :: rest)
    (hsend : Dispatch time p (({ w with held := rest } : Traffic).note time .release p) w') :
    Conserved w' := by
  have hp := hw.held p (hheld ▸ List.mem_cons_self)
  have hext : Extends p { w with held := rest } w' :=
    (Extends.note _ time .release p).trans (.dispatch hsend)
  have haccount : ∀ uid, w.account uid = if p.uid = uid then
      { ({ w with held := rest } : Traffic).account uid with
        parked := (({ w with held := rest } : Traffic).account uid).parked + 1 }
      else ({ w with held := rest } : Traffic).account uid := by
    intro uid
    by_cases h : p.uid = uid <;> simp [account, tally, hheld, h]
  have hplaced : Placed ({ w with held := rest } : Traffic) :=
    ⟨hw.fresh, hw.nodup, hw.aloft, fun q hq => hw.held q (hheld ▸ List.mem_cons_of_mem _ hq),
      hw.landed, hw.recorded⟩
  refine hext.conserved hplaced hp.1 ?_ ?_ ?_
  · intro q hq hne
    have huid : p.uid ≠ q.uid := fun heq => hne (hplaced.eq_of_uid hq hp.1 heq.symm)
    have := haccount q.uid
    rw [if_neg huid] at this
    exact this ▸ hw.balanced q hq
  · -- the packet was in one place, the held ones, and is in none while it is released
    obtain ⟨hsends, hplaces⟩ := hw.balanced p hp.1
    have hown := haccount p.uid
    rw [if_pos rfl] at hown
    rw [if_neg hp.2] at hplaces
    simp only [hown] at hsends hplaces
    apply hsend.balanced
    · rw [account_note, if_pos rfl]
      exact hsends
    · rw [account_note, if_pos rfl]
      simp only [Account.noted]
      omega
    · exact fun hkind => absurd hkind hp.2
  · exact hext.punctual hw.punctual

theorem Conserved.fired {down : HostName → Prop} {w w' : Traffic} (hw : Conserved w)
    {time : ℚ} {i : Nat} {f : Flight} (hi : w.inFlight[i]? = some f)
    (hland : Outcome down time f.packet (w.fire i f.packet) w') : Conserved w' := by
  have hf : f.packet ∈ w.sent := hw.aloft f (List.mem_of_getElem? hi)
  have hplaced : Placed (w.fire i f.packet) := by
    refine ⟨hw.fresh, hw.nodup, fun g hg => hw.aloft g (List.mem_of_mem_eraseIdx hg), hw.held,
      fun l hl => ?_, hw.recorded⟩
    rcases List.mem_append.mp hl with hl | hl
    · exact hw.landed l hl
    · rw [List.mem_singleton.mp hl]
      exact hf
  have hext := Extends.outcome hland
  have hverb : ∃ verb ∈ landingVerbs, ∃ l,
      w'.trace = w.trace ++ event time verb f.packet :: l := by
    cases hland with
    | lost _ => exact ⟨.lost, by decide, [], rfl⟩
    | parked _ => exact ⟨.hold, by decide, [], rfl⟩
    | dropped _ => exact ⟨.drop, by decide, [], rfl⟩
    | delivered => exact ⟨.deliver, by decide, [], rfl⟩
  refine hext.conserved hplaced hf ?_ ?_ ?_
  · intro q hq hne
    have huid : f.packet.uid ≠ q.uid := fun heq => hne (hw.toPlaced.eq_of_uid hq hf heq.symm)
    rw [account_fire w q.uid hi, if_neg huid]
    exact hw.balanced q hq
  · obtain ⟨hsends, hplaces⟩ := hw.balanced f.packet hf
    have hpos := aloft_pos w hi
    have hown := account_fire w f.packet.uid hi
    rw [if_pos rfl] at hown
    cases hland with
    | lost _ =>
        rw [account_note, if_pos rfl, hown]
        refine ⟨by simp only [Account.noted]; omega, ?_⟩
        split at hplaces
        · rename_i hkind
          rw [if_pos hkind]
          simp only [Account.noted]
          omega
        · rename_i hkind
          rw [if_neg hkind]
          simp only [Account.noted]
          omega
    | parked hkind =>
        rw [if_neg hkind] at hplaces
        rw [account_park, if_pos rfl, hown]
        refine ⟨by simp only; omega, ?_⟩
        rw [if_neg hkind]
        simp only
        omega
    | dropped hkind =>
        rw [if_pos hkind] at hplaces
        rw [account_note, if_pos rfl, hown]
        refine ⟨by simp only [Account.noted]; omega, ?_⟩
        rw [if_pos hkind]
        simp only [Account.noted]
        omega
    | delivered =>
        rw [account_note, if_pos rfl, hown]
        refine ⟨by simp only [Account.noted]; omega, ?_⟩
        split at hplaces
        · rename_i hkind
          rw [if_pos hkind]
          simp only [Account.noted]
          omega
        · rename_i hkind
          rw [if_neg hkind]
          simp only [Account.noted]
          omega
  · obtain ⟨verb, hmem, l, htrace⟩ := hverb
    intro l' hl'
    rw [hext.landed] at hl'
    rcases List.mem_append.mp hl' with hl' | hl'
    · obtain ⟨time', verb', hverb', hat⟩ := hw.punctual l' hl'
      exact ⟨time', verb', hverb', hext.recorded_at hat⟩
    · obtain rfl := List.mem_singleton.mp hl'
      refine ⟨time, verb, hmem, ?_⟩
      rw [htrace, List.getElem?_append_right (le_refl _), Nat.sub_self]
      rfl

theorem Conserved.missed {w : Traffic} (hw : Conserved w) (time : ℚ) {l : Landing}
    (hl : l ∈ w.landed) (hkind : l.packet.kind = .dgram) :
    Conserved (w.note time .lost l.packet) := by
  have hext := Extends.note w time .lost l.packet
  refine hext.conserved hw.toPlaced (hw.landed l hl) (fun q hq _ => hw.balanced q hq) ?_
    (hext.punctual hw.punctual)
  obtain ⟨hsends, hplaces⟩ := hw.balanced _ (hw.landed l hl)
  rw [account_note, if_pos rfl]
  rw [if_pos hkind] at hplaces
  exact ⟨hsends, by rw [if_pos hkind]; exact hplaces⟩

/-- A crash turns held entries into losses. -/
theorem Conserved.purged {w : Traffic} (hw : Conserved w) (time : ℚ) (name : HostName) :
    Conserved (w.purge time name) where
  fresh q hq := Nat.lt_succ_of_lt (hw.fresh q hq)
  nodup := hw.nodup
  aloft := hw.aloft
  held q hq := hw.held q (List.mem_of_mem_filter hq)
  landed := hw.landed
  recorded e he hverb := by
    rcases List.mem_append.mp he with he | he
    · rcases List.mem_append.mp he with he | he
      · exact hw.recorded e he hverb
      · obtain ⟨p, hp, rfl⟩ := List.mem_map.mp he
        exact List.mem_map.mpr ⟨p, (hw.held p (List.mem_of_mem_filter hp)).1, rfl⟩
    · rw [List.mem_singleton.mp he] at hverb
      exact absurd rfl hverb
  balanced q hq := by
    obtain ⟨hsends, hplaces⟩ := hw.balanced q hq
    rw [account_purge]
    have hcount := List.countP_eq_countP_filter_add w.held
      (fun p => decide (p.uid = q.uid)) (endsAt name)
    have hparked : (w.account q.uid).parked = w.held.countP fun p => decide (p.uid = q.uid) := rfl
    refine ⟨hsends, ?_⟩
    split at hplaces <;> rename_i hkind
    · rw [if_pos hkind]
      simp only
      omega
    · rw [if_neg hkind]
      simp only
      omega
  punctual l hl := by
    obtain ⟨time', verb, hverb, hat⟩ := hw.punctual l hl
    refine ⟨time', verb, hverb, ?_⟩
    simp only [purge, List.append_assoc]
    rw [List.getElem?_append_left (List.getElem?_eq_some_iff.mp hat).1]
    exact hat

theorem Conserved.restarted {w : Traffic} (hw : Conserved w) (time : ℚ) (name : HostName) :
    Conserved (w.restart time name) where
  fresh q hq := Nat.lt_succ_of_lt (hw.fresh q hq)
  nodup := hw.nodup
  aloft := hw.aloft
  held := hw.held
  landed := hw.landed
  recorded e he hverb := by
    rcases List.mem_append.mp he with he | he
    · exact hw.recorded e he hverb
    · rw [List.mem_singleton.mp he] at hverb
      exact absurd rfl hverb
  balanced q hq := by
    rw [account_restart]
    exact hw.balanced q hq
  punctual l hl := by
    obtain ⟨time', verb, hverb, hat⟩ := hw.punctual l hl
    refine ⟨time', verb, hverb, ?_⟩
    simp only [restart]
    rw [List.getElem?_append_left (List.getElem?_eq_some_iff.mp hat).1]
    exact hat

theorem Conserved.move {down : HostName → Prop} {w w' : Traffic} (hw : Conserved w)
    (hmove : Move down w w') : Conserved w' := by
  cases hmove with
  | posted _ huid hsend => exact hw.posted huid hsend
  | released _ hheld hsend => exact hw.released hheld hsend
  | landed _ hi hland => exact hw.fired hi hland
  | missed time hl hkind => exact hw.missed time hl hkind
  | purged time name => exact hw.purged time name
  | restarted time name => exact hw.restarted time name

/-! ## Losses -/

/-- Handing a packet over loses nothing. -/
theorem Dispatch.no_loss {time : ℚ} {p : Packet} {w w' : Traffic} (h : Dispatch time p w w')
    {e : NetEvent} (he : e ∈ w'.trace) (hverb : e.label.verb = some .lost) : e ∈ w.trace := by
  have hnew : ∀ {w : Traffic} {verb : Verb}, verb ≠ .lost →
      e ∈ w.trace ++ [event time verb p] → e ∈ w.trace := by
    intro w verb hne he
    refine (List.mem_append.mp he).resolve_right fun he => ?_
    rw [List.mem_singleton.mp he] at hverb
    exact hne (Option.some.inj hverb)
  cases h with
  | launched _ => exact hnew (by decide) he
  | parked _ => exact hnew (by decide) he
  | dropped _ => exact hnew (by decide) he
  | doubled _ _ _ => exact hnew (by decide) (hnew (by decide) (hnew (by decide) he))

/-- The trace says that this host crashed. -/
def Crashed (w : Traffic) (name : HostName) : Prop := ∃ e ∈ w.trace, e.label = .crash name

/-- A move loses a stream packet only when one of its ends is down, or crashes. -/
theorem Move.loss {down : HostName → Prop} {w w' : Traffic} (hw : Conserved w)
    (hmove : Move down w w') {p : Packet} (hp : p ∈ w'.sent) (hkind : p.kind ≠ .dgram)
    {e : NetEvent} (he : e ∈ w'.trace) (huid : e.uid = p.uid)
    (hverb : e.label.verb = some .lost) :
    p ∈ w.sent ∧ e ∈ w.trace ∨ (down p.src ∨ down p.dst) ∨ Crashed w' p.src ∨ Crashed w' p.dst := by
  cases hmove with
  | posted _ hnew hsend =>
      have he' : e ∈ w.trace := hsend.no_loss he hverb
      rw [(Extends.dispatch hsend).sent] at hp
      refine .inl ⟨(List.mem_append.mp hp).resolve_right fun hlast => ?_, he'⟩
      obtain ⟨q, hq, heq⟩ := List.mem_map.mp
        (hw.recorded e he' (by rw [hverb]; exact Option.some_ne_none _))
      have hlt := hw.fresh q hq
      rw [heq, huid, List.mem_singleton.mp hlast, hnew] at hlt
      exact absurd hlt (lt_irrefl _)
  | released _ hheld hsend =>
      rw [((Extends.note _ _ .release _).trans (.dispatch hsend)).sent] at hp
      refine .inl ⟨hp, (List.mem_append.mp (hsend.no_loss he hverb)).resolve_right fun hlast => ?_⟩
      rw [List.mem_singleton.mp hlast] at hverb
      cases hverb
  | landed time hi hland =>
      have hf := hw.aloft _ (List.mem_of_getElem? hi)
      have hsent := (Extends.outcome hland).sent
      rw [hsent] at hp
      have hsame : ∀ {verb}, e = event time verb _ → p = _ := fun h =>
        hw.toPlaced.eq_of_uid hp hf (by rw [← huid, h]; rfl)
      cases hland with
      | lost hdown =>
          rcases List.mem_append.mp he with he | he
          · exact .inl ⟨hp, he⟩
          · rw [hsame (List.mem_singleton.mp he)]
            exact .inr (.inl hdown)
      | parked _ =>
          refine .inl ⟨hp, (List.mem_append.mp he).resolve_right fun hlast => ?_⟩
          rw [List.mem_singleton.mp hlast] at hverb
          cases hverb
      | dropped _ =>
          refine .inl ⟨hp, (List.mem_append.mp he).resolve_right fun hlast => ?_⟩
          rw [List.mem_singleton.mp hlast] at hverb
          cases hverb
      | delivered =>
          refine .inl ⟨hp, (List.mem_append.mp he).resolve_right fun hlast => ?_⟩
          rw [List.mem_singleton.mp hlast] at hverb
          cases hverb
  | missed time hl hdgram =>
      refine .inl ⟨hp, (List.mem_append.mp he).resolve_right fun hlast => ?_⟩
      rw [List.mem_singleton.mp hlast] at huid
      exact hkind (hw.toPlaced.eq_of_uid hp (hw.landed _ hl) huid.symm ▸ hdgram)
  | purged time name =>
      rcases List.mem_append.mp he with he | he
      · rcases List.mem_append.mp he with he | he
        · exact .inl ⟨hp, he⟩
        · obtain ⟨q, hq, rfl⟩ := List.mem_map.mp he
          obtain ⟨hheld, hends⟩ := List.mem_filter.mp hq
          obtain rfl := hw.toPlaced.eq_of_uid (hw.held q hheld).1 hp huid
          have hcrash : Crashed (w.purge time name) name :=
            ⟨_, List.mem_append_right _ (List.mem_singleton.mpr rfl), rfl⟩
          rcases of_decide_eq_true hends with rfl | rfl
          · exact .inr (.inr (.inl hcrash))
          · exact .inr (.inr (.inr hcrash))
      · rw [List.mem_singleton.mp he] at hverb
        cases hverb
  | restarted time name =>
      refine .inl ⟨hp, (List.mem_append.mp he).resolve_right fun hlast => ?_⟩
      rw [List.mem_singleton.mp hlast] at hverb
      cases hverb

/-- The trace only grows. -/
theorem Move.trace_mono {down : HostName → Prop} {w w' : Traffic} (hmove : Move down w w')
    {e : NetEvent} (he : e ∈ w.trace) : e ∈ w'.trace := by
  have hext : ∀ {p : Packet} {u u' : Traffic}, Extends p u u' → e ∈ u.trace → e ∈ u'.trace := by
    intro p u u' h he
    obtain ⟨l, hl, -⟩ := h.trace
    exact hl ▸ List.mem_append_left _ he
  cases hmove with
  | posted _ _ hsend => exact hext (.dispatch hsend) he
  | released _ _ hsend => exact hext ((Extends.note _ _ .release _).trans (.dispatch hsend)) he
  | landed _ _ hland => exact hext (.outcome hland) he
  | missed => exact List.mem_append_left _ he
  | purged => exact List.mem_append_left _ (List.mem_append_left _ he)
  | restarted => exact List.mem_append_left _ he

end Traffic

namespace Ledger

/-- A crash struck this host: it is down, or the trace says that it crashed or came back. -/
def Struck (g : Ledger) (name : HostName) : Prop :=
  g.hosts.down name ∨
    ∃ e ∈ g.traffic.trace, e.label = .crash name ∨ e.label = .restart name

/-- No packet is lost or doubled, and a stream packet is lost to a crash only. -/
structure Accounted (g : Ledger) : Prop where
  conserved : g.traffic.Conserved
  struck : ∀ p ∈ g.traffic.sent, p.kind ≠ .dgram → ∀ e ∈ g.traffic.trace, e.uid = p.uid →
    e.label.verb = some .lost → g.Struck p.src ∨ g.Struck p.dst

/-- A change that keeps the traffic and whoever is struck. -/
theorem Accounted.of_struck {g h : Ledger} (hg : g.Accounted) (htraffic : h.traffic = g.traffic)
    (hstruck : ∀ name, g.Struck name → h.Struck name) : h.Accounted where
  conserved := htraffic ▸ hg.conserved
  struck p hp hkind e he huid hverb := by
    rw [htraffic] at hp he
    exact (hg.struck p hp hkind e he huid hverb).imp (hstruck _) (hstruck _)

theorem Accounted.traffic {g : Ledger} (hg : g.Accounted) {w : Traffic}
    (hmove : Traffic.Move g.hosts.down g.traffic w) : Accounted { g with traffic := w } where
  conserved := hg.conserved.move hmove
  struck p hp hkind e he huid hverb := by
    have hkeep : ∀ {name}, g.Struck name → Struck { g with traffic := w } name :=
      fun h => h.imp_right fun ⟨e, he, hlabel⟩ => ⟨e, hmove.trace_mono he, hlabel⟩
    have hcrash : ∀ {name}, w.Crashed name → Struck { g with traffic := w } name :=
      fun ⟨e, he, hlabel⟩ => .inr ⟨e, he, .inl hlabel⟩
    rcases hmove.loss hg.conserved hp hkind he huid hverb with ⟨hp, he⟩ | hdown | hcrashed
    · exact (hg.struck p hp hkind e he huid hverb).imp hkeep hkeep
    · exact hdown.imp .inl .inl
    · exact hcrashed.imp hcrash hcrash

theorem Accounted.move {A : Change → Prop} {g h : Ledger} (hg : g.Accounted)
    (hmove : Move A g h) : h.Accounted := by
  cases hmove with
  | traffic hmove => exact hg.traffic hmove
  | hosts hmove =>
      refine hg.of_struck rfl fun name hname => hname.imp_left fun hdown => ?_
      cases hmove with
      | enlisted hnew =>
          refine (Dict.get?_insert_of_ne _ _ ?_).trans hdown
          rintro rfl
          rw [Roster.down] at hdown
          simp only [Dict.contains, hdown, Option.isSome_some, Bool.true_eq_false] at hnew
      | made => exact hdown
      | asked => exact hdown
      | settled => exact hdown
      | forgotten => exact hdown
  | @downed name _ =>
      refine hg.of_struck rfl fun other hother => hother.imp_left fun hdown => ?_
      by_cases h : name = other
      · exact h ▸ Dict.get?_insert_self _ _ _
      · exact (Dict.get?_insert_of_ne _ _ h).trans hdown
  | streams => exact hg.of_struck rfl fun _ h => h
  | bound => exact hg.of_struck rfl fun _ h => h
  | closed => exact hg.of_struck rfl fun _ h => h
  | freed => exact hg.of_struck rfl fun _ h => h
  | drew => exact hg.of_struck rfl fun _ h => h
  | listeners => exact hg.of_struck rfl fun _ h => h

theorem Accounted.restart {g : Ledger} (hg : g.Accounted) (time : ℚ) (name : HostName) :
    (g.restart time name).Accounted := by
  have hstep := hg.traffic (.restarted _ time name)
  refine hstep.of_struck rfl fun other hother => ?_
  rcases hother with hdown | hevent
  · by_cases h : name = other
    · exact .inr ⟨_, List.mem_append_right _ (List.mem_singleton.mpr rfl), .inr (h ▸ rfl)⟩
    · exact .inl ((Dict.get?_insert_of_ne _ _ h).trans hdown)
  · exact .inr hevent

end Ledger

/-! ## Every run -/

variable {ρ : Type}

namespace SimNetwork

theorem accounted_init (R : RandomSource ρ) (seed : Int) : (init R seed).ledger.Accounted := by
  refine Ledger.Moves.invariant (A := fun _ => False) (fun _ _ hmove hg => hg.move hmove)
    (host_moves _ driver) ?_
  refine ⟨⟨⟨?_, List.nodup_nil, ?_, ?_, ?_, ?_⟩, ?_, ?_⟩, ?_⟩ <;>
    exact fun _ h => absurd h List.not_mem_nil

theorem Step.accounted {R : RandomSource ρ} {s s' : SimNetwork ρ} {a : Act}
    (hstep : Step R s a s') (hs : s.ledger.Accounted) : s'.ledger.Accounted := by
  rcases step_moves R s hstep with hmoves | ⟨name, -, hrestart⟩
  · exact hmoves.invariant (fun _ _ hmove hg => hg.move hmove) hs
  · rw [hrestart]
    exact hs.restart s.now name

/-- The packet has exactly one of: a pending timer, a held entry, a delivery, and a loss,
and it is lost only if a crash struck one of its ends. -/
def InOnePlace (s : SimNetwork ρ) (p : Packet) : Prop :=
  (s.traffic.account p.uid).aloft + (s.traffic.account p.uid).parked +
      (s.traffic.account p.uid).delivers + (s.traffic.account p.uid).losts = 1 ∧
    (0 < (s.traffic.account p.uid).losts → s.ledger.Struck p.src ∨ s.ledger.Struck p.dst)

/-- **Packets are conserved.**  In every reachable state no two packets share a uid, and
timers and held entries are about packets that were handed over; a stream packet is in
exactly one place; a datagram is not held and is delivered at most twice; for every uid
the `send` events are the pending timers and the delivery steps, and every delivery step
recorded first that its packet was delivered, lost, held or dropped. -/
theorem packets_conserved {R : RandomSource ρ} {seed : Int} {acts : List Act}
    {s : SimNetwork ρ} (run : Run (Step R) (init R seed) acts s) :
    ((s.sent.map Packet.uid).Nodup ∧ (∀ f ∈ s.inFlight, f.packet ∈ s.sent) ∧
      ∀ p ∈ s.held, p ∈ s.sent) ∧
    (∀ p ∈ s.sent, p.kind ≠ .dgram → s.InOnePlace p) ∧
    (∀ p ∈ s.sent, p.kind = .dgram →
      p ∉ s.held ∧ (s.traffic.account p.uid).parked = 0 ∧
        (s.traffic.account p.uid).delivers ≤ 2) ∧
    (∀ uid, (s.traffic.account uid).sends =
      (s.traffic.account uid).aloft + (s.traffic.account uid).landings) ∧
    ∀ l ∈ s.landed, ∃ time, ∃ verb ∈ [Verb.deliver, .lost, .hold, .drop],
      s.trace[l.start]? = some (Traffic.event time verb l.packet) := by
  have hs : s.ledger.Accounted :=
    run.invariant (fun _ _ _ hs hstep => Step.accounted hstep hs) (accounted_init R seed)
  have hw := hs.conserved
  refine ⟨⟨hw.nodup, hw.aloft, fun p hp => (hw.held p hp).1⟩, fun p hp hkind => ⟨?_, ?_⟩,
    fun p hp hkind => ⟨fun hheld => (hw.held p hheld).2 hkind, ?_⟩, fun uid => ?_,
    hw.punctual⟩
  · have hplaces := (hw.balanced p hp).2
    rwa [if_neg hkind] at hplaces
  · intro hlost
    obtain ⟨e, he, hevent⟩ := List.countP_pos_iff.mp hlost
    simp only [decide_eq_true_eq] at hevent
    exact hs.struck p hp hkind e he hevent.1 hevent.2
  · have hplaces := (hw.balanced p hp).2
    rw [if_pos hkind] at hplaces
    exact ⟨hplaces.1, by have : s.ledger.traffic = s.traffic := rfl; rw [this] at hplaces; omega⟩
  · by_cases hmem : uid ∈ s.sent.map Packet.uid
    · obtain ⟨p, hp, rfl⟩ := List.mem_map.mp hmem
      exact (hw.balanced p hp).1
    · have hzero : s.traffic.account uid = .zero := hw.toPlaced.account_zero hmem
      rw [hzero]
      rfl

/-- A connection is opened across a cut, and its other end crashes. -/
def cutOff : List Act :=
  [.callback driver, .host "a", .tick, .partition [driver] ["a"], .tick,
    .openConnection "a" 80, .tick, .crash "a" []]

theorem packets_conserved_cutOff : ∃ s : SimNetwork Unit,
    performs .least (init .least 0) cutOff = some s ∧ s.sent.map Packet.kind = [.syn] ∧
      (∀ p ∈ s.sent, p.kind ≠ .dgram → s.InOnePlace p) ∧
      ∀ uid, (s.traffic.account uid).sends =
        (s.traffic.account uid).aloft + (s.traffic.account uid).landings := by
  have hsent : (performs .least (init .least 0) cutOff).map (fun s => s.sent.map Packet.kind) =
      some [.syn] := by decide +kernel
  obtain ⟨s, h, hkinds⟩ := Option.map_eq_some_iff.mp hsent
  have hall := packets_conserved (run_of_performs _ h)
  exact ⟨s, h, hkinds, hall.2.1, hall.2.2.2.1⟩

end SimNetwork

end SimLoop.Net
