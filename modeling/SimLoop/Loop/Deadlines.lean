/-
  Loop/Deadlines.lean --- virtual time respects deadlines under every schedule.

  A policy may draw ready entries in any order, so the order of deadlines comes from
  what is let into the ready list at each advance.  The invariant says where every
  booked timer is: in the heap, and then its deadline is no earlier than the clock
  unless it was booked in the past; or ready, and then its deadline has come, and is
  the clock itself unless it was booked in the past.
-/
import SimLoop.Loop.Conservation
import Mathlib.Order.Bounds.Basic

set_option autoImplicit false

namespace SimLoop.Loop

open SimLoop.Foundation SimLoop.Policy

variable {κ : Type}

/-! ## The order of the heap -/

theorem TimerEntry.before_trans {a b c : TimerEntry κ} (hab : a.before b) (hbc : b.before c) :
    a.before c := by
  rcases hab with hab | ⟨hab, hs⟩ <;> rcases hbc with hbc | ⟨hbc, ht⟩
  · exact .inl (lt_trans hab hbc)
  · exact .inl (hbc ▸ hab)
  · exact .inl (hab ▸ hbc)
  · exact .inr ⟨hab.trans hbc, hs.trans ht⟩

theorem TimerEntry.before_total (a b : TimerEntry κ) : a.before b ∨ b.before a := by
  rcases lt_trichotomy a.when_ b.when_ with h | h | h
  · exact .inl (.inl h)
  · rcases Nat.le_total a.seq b.seq with hs | hs
    · exact .inl (.inr ⟨h, hs⟩)
    · exact .inr (.inr ⟨h.symm, hs⟩)
  · exact .inr (.inl h)

theorem TimerEntry.before.when_le {a b : TimerEntry κ} (h : a.before b) : a.when_ ≤ b.when_ := by
  rcases h with h | ⟨h, -⟩
  · exact h.le
  · exact h.le

instance : IsTrans (TimerEntry κ) TimerEntry.before := ⟨fun _ _ _ => TimerEntry.before_trans⟩

instance : Std.Total (TimerEntry.before (κ := κ)) := ⟨TimerEntry.before_total⟩

theorem pairwise_heappush {l : List (TimerEntry κ)} (h : l.Pairwise TimerEntry.before)
    (t : TimerEntry κ) : (heappush t l).Pairwise TimerEntry.before :=
  h.orderedInsert t l

namespace Agenda

/-! ## Numbers in use were given out -/

theorem Ledger.booking_lt {a : Agenda κ} (h : Ledger a) {b : Booking} (hb : b ∈ a.bookings) :
    b.seq < a.nextSeq :=
  List.mem_range.mp (h.booked ▸ List.mem_map_of_mem hb)

theorem Ledger.timer_lt {a : Agenda κ} (h : Ledger a) {t : TimerEntry κ} (ht : t ∈ a.timers) :
    t.seq < a.nextSeq := by
  have hpos : 0 < a.inHeap t.seq := List.countP_pos_iff.mpr ⟨t, ht, by simp⟩
  have honce := h.once t.seq
  by_contra hge
  rw [if_neg hge] at honce
  unfold places at honce
  omega

theorem Ledger.ready_lt {a : Agenda κ} (h : Ledger a) {e : ReadyEntry κ} (he : e ∈ a.ready) :
    e.seq < a.nextSeq := by
  have hpos : 0 < a.waiting e.seq := List.countP_pos_iff.mpr ⟨e, he, by simp⟩
  have honce := h.once e.seq
  by_contra hge
  rw [if_neg hge] at honce
  unfold places at honce
  omega

/-! ## The invariant -/

/-- Where the clock stands against the deadlines. -/
structure Timely (a : Agenda κ) : Prop where
  sorted : a.timers.Pairwise TimerEntry.before
  clocks : ∀ b ∈ a.bookings, b.clock ≤ a.now
  heap_due : ∀ t ∈ a.timers, ∀ b ∈ a.bookings, b.seq = t.seq → b.due = some t.when_
  heap_ahead : ∀ t ∈ a.timers, ∀ b ∈ a.bookings, b.seq = t.seq → b.clock ≤ t.when_ →
    a.now ≤ t.when_
  ready_due : ∀ e ∈ a.ready, ∀ b ∈ a.bookings, b.seq = e.seq → ∀ d, b.due = some d →
    d ≤ a.now ∧ (b.clock ≤ d → d = a.now)

/-- A timer taken off the heap leaves the rest as it was. -/
theorem Timely.of_sublist {a b : Agenda κ} (ha : Timely a) (hnow : b.now = a.now)
    (htimers : b.timers.Sublist a.timers) (hready : ∀ e ∈ b.ready, e ∈ a.ready)
    (hbookings : b.bookings = a.bookings) : Timely b where
  sorted := ha.sorted.sublist htimers
  clocks := by
    rw [hbookings, hnow]
    exact ha.clocks
  heap_due := by
    rw [hbookings]
    exact fun t ht => ha.heap_due t (htimers.subset ht)
  heap_ahead := by
    rw [hbookings, hnow]
    exact fun t ht => ha.heap_ahead t (htimers.subset ht)
  ready_due := by
    rw [hbookings, hnow]
    exact fun e he => ha.ready_due e (hready e he)

/-- An entry booked without a deadline says nothing about the clock. -/
theorem Timely.book {a : Agenda κ} (ha : Timely a) (hledger : Ledger a) (e : ReadyEntry κ)
    (events : List TraceEvent) (he : e.seq = a.nextSeq) :
    Timely { a with
      nextSeq := a.nextSeq + 1
      ready := a.ready ++ [e]
      events := events
      bookings := a.bookings ++ [⟨e.seq, none, a.now⟩] } where
  sorted := ha.sorted
  clocks := by
    intro b hb
    rcases List.mem_append.mp hb with hold | hnew
    · exact ha.clocks b hold
    · obtain rfl := List.mem_singleton.mp hnew
      exact le_refl _
  heap_due := by
    intro t ht b hb hseq
    rcases List.mem_append.mp hb with hold | hnew
    · exact ha.heap_due t ht b hold hseq
    · obtain rfl := List.mem_singleton.mp hnew
      have := hledger.timer_lt ht
      dsimp only at hseq
      omega
  heap_ahead := by
    intro t ht b hb hseq
    rcases List.mem_append.mp hb with hold | hnew
    · exact ha.heap_ahead t ht b hold hseq
    · obtain rfl := List.mem_singleton.mp hnew
      have := hledger.timer_lt ht
      dsimp only at hseq
      omega
  ready_due := by
    intro x hx b hb hseq d hd
    rcases List.mem_append.mp hb with hold | hnew
    · rcases List.mem_append.mp hx with hx | hx
      · exact ha.ready_due x hx b hold hseq d hd
      · obtain rfl := List.mem_singleton.mp hx
        have := hledger.booking_lt hold
        omega
    · obtain rfl := List.mem_singleton.mp hnew
      cases hd

/-- A timer booked in time is ahead of the clock at that moment. -/
theorem Timely.bookTimer {a : Agenda κ} (ha : Timely a) (hledger : Ledger a) (t : TimerEntry κ)
    (events : List TraceEvent) (ht : t.seq = a.nextSeq) :
    Timely { a with
      nextSeq := a.nextSeq + 1
      timers := heappush t a.timers
      events := events
      bookings := a.bookings ++ [⟨t.seq, some t.when_, a.now⟩] } where
  sorted := pairwise_heappush ha.sorted t
  clocks := by
    intro b hb
    rcases List.mem_append.mp hb with hold | hnew
    · exact ha.clocks b hold
    · obtain rfl := List.mem_singleton.mp hnew
      exact le_refl _
  heap_due := by
    intro u hu b hb hseq
    rcases List.mem_append.mp hb with hold | hnew
    · rcases mem_heappush.mp hu with rfl | hu
      · have := hledger.booking_lt hold
        omega
      · exact ha.heap_due u hu b hold hseq
    · obtain rfl := List.mem_singleton.mp hnew
      rcases mem_heappush.mp hu with rfl | hu
      · rfl
      · have := hledger.timer_lt hu
        dsimp only at hseq
        omega
  heap_ahead := by
    intro u hu b hb hseq hclock
    rcases List.mem_append.mp hb with hold | hnew
    · rcases mem_heappush.mp hu with rfl | hu
      · have := hledger.booking_lt hold
        omega
      · exact ha.heap_ahead u hu b hold hseq hclock
    · obtain rfl := List.mem_singleton.mp hnew
      rcases mem_heappush.mp hu with rfl | hu
      · exact hclock
      · have := hledger.timer_lt hu
        dsimp only at hseq
        omega
  ready_due := by
    intro x hx b hb hseq d hd
    rcases List.mem_append.mp hb with hold | hnew
    · exact ha.ready_due x hx b hold hseq d hd
    · obtain rfl := List.mem_singleton.mp hnew
      have := hledger.ready_lt hx
      dsimp only at hseq
      omega

/-- Nothing being ready, the clock may move to the earliest deadline: a timer booked in
time is still not behind it. -/
theorem Timely.advance {a : Agenda κ} (ha : Timely a) {t : TimerEntry κ}
    {rest : List (TimerEntry κ)} (hr : a.ready = []) (ht : a.timers = t :: rest)
    (events : List TraceEvent) :
    Timely { a with now := max a.now t.when_, events := events } where
  sorted := ha.sorted
  clocks := fun b hb => (ha.clocks b hb).trans (le_max_left _ _)
  heap_due := ha.heap_due
  heap_ahead := by
    intro u hu b hb hseq hclock
    have hle : t.when_ ≤ u.when_ := by
      have hsorted := ht ▸ ha.sorted
      rcases List.mem_cons.mp (ht ▸ hu) with rfl | hu
      · exact le_refl _
      · exact ((List.pairwise_cons.mp hsorted).1 u hu).when_le
    exact max_le (ha.heap_ahead u hu b hb hseq hclock) hle
  ready_due := by
    intro e he
    rw [hr] at he
    exact absurd he List.not_mem_nil

/-- A timer that is due and was booked in time is due at the clock exactly. -/
theorem Timely.due {a : Agenda κ} (ha : Timely a) {t : TimerEntry κ}
    {rest : List (TimerEntry κ)} (ht : a.timers = t :: rest) (hd : t.when_ ≤ a.now) :
    Timely { a with timers := rest, ready := a.ready ++ [t.due] } where
  sorted := (List.pairwise_cons.mp (ht ▸ ha.sorted)).2
  clocks := ha.clocks
  heap_due := fun u hu => ha.heap_due u (ht ▸ List.mem_cons_of_mem t hu)
  heap_ahead := fun u hu => ha.heap_ahead u (ht ▸ List.mem_cons_of_mem t hu)
  ready_due := by
    intro x hx b hb hseq d hdue
    rcases List.mem_append.mp hx with hx | hx
    · exact ha.ready_due x hx b hb hseq d hdue
    · obtain rfl := List.mem_singleton.mp hx
      have htmem : t ∈ a.timers := ht ▸ List.mem_cons_self
      have hwhen := ha.heap_due t htmem b hb hseq
      obtain rfl : t.when_ = d := Option.some.inj (hwhen.symm.trans hdue)
      exact ⟨hd, fun hclock => le_antisymm hd (ha.heap_ahead t htmem b hb hseq hclock)⟩

/-- The invariant is kept by every move. -/
theorem Timely.step {a b : Agenda κ} (hledger : Ledger a) (ha : Timely a) (h : Step a b) :
    Timely b := by
  cases h with
  | book e host he => exact ha.book hledger e _ he
  | bookTimer t host ht => exact ha.bookTimer hledger t _ ht
  | cancel n hn => exact ha.of_sublist rfl (.refl _) (fun _ he => he) rfl
  | note ev hev => exact ha.of_sublist rfl (.refl _) (fun _ he => he) rfl
  | dropTop t rest host ht hc =>
      exact ha.of_sublist rfl (ht ▸ List.sublist_cons_self t rest) (fun _ he => he) rfl
  | advance t rest ev hr ht hc hev => exact ha.advance hr ht _
  | due t rest ht hd hc => exact ha.due ht hd
  | run i e host hi hc =>
      exact ha.of_sublist rfl (.refl _) (fun _ he => List.mem_of_mem_eraseIdx he) rfl
  | skip i e host hi hc =>
      exact ha.of_sublist rfl (.refl _) (fun _ he => List.mem_of_mem_eraseIdx he) rfl

end Agenda

/-! ## The clock -/

variable {π ε ρ : Type} {P : SchedulingPolicy π} {R : RandomSource ρ}

/-- The deadlines of the timers in the heap that were not cancelled. -/
def LoopState.liveDeadlines (s : LoopState π κ ε ρ) : Set ℚ :=
  { d | ∃ t ∈ s.timers, t.seq ∉ s.cancelled ∧ t.when_ = d }

/-- In a sorted heap the first live timer has the earliest live deadline. -/
theorem LoopState.nextTimer_isLeast {s : LoopState π κ ε ρ} {t : TimerEntry κ}
    (hsorted : s.timers.Pairwise TimerEntry.before) (h : s.nextTimer = some t) :
    IsLeast s.liveDeadlines t.when_ := by
  obtain ⟨rest, hrest⟩ := List.head?_eq_some_iff.mp h
  have hlive := (LoopState.nextTimer_eq_some h).1
  have hmem : ∀ u, u ∈ t :: rest → u ∈ s.timers := fun u hu =>
    (List.dropWhile_sublist _).subset (hrest ▸ hu)
  refine ⟨⟨t, hmem t List.mem_cons_self, hlive, rfl⟩, ?_⟩
  rintro d ⟨u, hu, hul, rfl⟩
  have hsplit := List.takeWhile_append_dropWhile (p := fun t => s.isCancelled t.seq)
    (l := s.timers)
  rw [← hsplit] at hu
  rcases List.mem_append.mp hu with hu | hu
  · have := List.mem_takeWhile_imp hu
    exact absurd (by simpa using this) hul
  · rw [hrest] at hu
    have htail := hsorted.sublist (hrest ▸ List.dropWhile_sublist _)
    rcases List.mem_cons.mp hu with rfl | hu
    · exact le_refl _
    · exact ((List.pairwise_cons.mp htail).1 u hu).when_le

/-- Only a step moves the clock. -/
theorem LoopState.now_perform {s : LoopState π κ ε ρ} {op : Op κ ε} (h : op ≠ .step) :
    (s.perform P R op).2.now = s.now := by
  have timer : ∀ when_ shown cb context, (s.callAtTrue when_ shown cb context).2.now = s.now := by
    intro when_ shown cb context
    unfold LoopState.callAtTrue
    split
    · rfl
    · cases context <;> rfl
  have soon : ∀ cb context, (s.callSoon cb context).2.now = s.now := by
    intro cb context
    unfold LoopState.callSoon
    split
    · rfl
    · cases context <;> rfl
  cases op with
  | step => exact absurd rfl h
  | callSoon cb context => exact soon cb context
  | callLater delay cb context => exact timer _ _ cb context
  | callAt when_ cb context => exact timer _ _ cb context
  | createTask task cb context =>
      refine Eq.trans ?_ (soon cb context)
      simp only [LoopState.perform, LoopState.createTask]
      split
      · rename_i h
        rw [h]
      · rename_i h
        rw [h]
        rfl
  | cancel seq =>
      simp only [LoopState.perform, LoopState.cancel]
      split <;> rfl
  | enterRun =>
      simp only [LoopState.perform, LoopState.enterRun]
      split
      · rfl
      · split <;> rfl
  | close =>
      simp only [LoopState.perform, LoopState.close]
      split <;> rfl
  | draw st d => cases st <;> rfl
  | _ => rfl

/-! ## Runs -/

/-- Where the clock stands after anything a program can do with a new loop. -/
theorem Watched.timely {policy : π} {seed : Int} {ops : List (Op κ ε)} {w : Watched π κ ε ρ}
    (run : Run (Watched.step P R) (Watched.fresh R policy seed) ops w) :
    Agenda.Ledger w.agenda ∧ Agenda.Timely w.agenda := by
  refine Watched.invariant (I := fun a => Agenda.Ledger a ∧ Agenda.Timely a)
    (fun _ _ ha h => ⟨ha.1.step h, ha.2.step ha.1 h⟩) ⟨?_, ?_⟩ run
  · exact Watched.ledger (.nil (Watched.fresh R policy seed) : Run (Watched.step P R) _ _ _)
  · exact {
      sorted := List.Pairwise.nil
      clocks := fun b hb => absurd hb List.not_mem_nil
      heap_due := fun t ht => absurd ht List.not_mem_nil
      heap_ahead := fun t ht => absurd ht List.not_mem_nil
      ready_due := fun e he => absurd he List.not_mem_nil }

namespace Agenda

/-- A timer booked in time that was not called off, with a deadline before the clock,
has run. -/
theorem ran_of_due {a : Agenda κ} (hledger : Ledger a) (ha : Timely a) {b : Booking} {d : ℚ}
    (hb : b ∈ a.bookings) (hd : b.due = some d) (hclock : b.clock ≤ d) (hlt : d < a.now)
    (hlive : b.seq ∉ a.cancelled) : 0 < countEvents .run b.seq a.events := by
  have honce := hledger.once b.seq
  rw [if_pos (hledger.booking_lt hb)] at honce
  have hwaiting : a.waiting b.seq = 0 := by
    refine List.countP_eq_zero.mpr fun e he hseq => ?_
    have hseq : b.seq = e.seq := (by simpa using hseq : e.seq = b.seq).symm
    exact absurd ((ha.ready_due e he b hb hseq d hd).2 hclock) hlt.ne
  have hheap : a.inHeap b.seq = 0 := by
    refine List.countP_eq_zero.mpr fun t ht hseq => ?_
    have hseq : b.seq = t.seq := (by simpa using hseq : t.seq = b.seq).symm
    obtain rfl : t.when_ = d := Option.some.inj ((ha.heap_due t ht b hb hseq).symm.trans hd)
    exact absurd (ha.heap_ahead t ht b hb hseq hclock) (not_le.mpr hlt)
  have hcalled : countEvents .cancel b.seq a.events = 0 := by
    by_contra h
    exact hlive (hledger.calledOff b.seq (Nat.pos_of_ne_zero h))
  unfold places at honce
  omega

end Agenda

/-- **Virtual time respects deadlines.**  After any calls on a new loop, under any
policy: no call moves the clock back, only a step with nothing ready moves it, and a
step with nothing ready moves it to the larger of its value and the earliest live
deadline when there is one; a step that runs a timer leaves the clock at or past its
deadline; and when it runs a timer that was booked in time, every live timer booked in
time with an earlier deadline has its `run` event before. -/
theorem deadlines_respected {policy : π} {seed : Int} {ops : List (Op κ ε)}
    {w : Watched π κ ε ρ} (run : Run (Watched.step P R) (Watched.fresh R policy seed) ops w) :
    (∀ op : Op κ ε, w.loop.now ≤ (w.loop.perform P R op).2.now) ∧
      (∀ op : Op κ ε, (w.loop.perform P R op).2.now ≠ w.loop.now → op = .step ∧
        w.loop.ready = [] ∧ ∃ d, IsLeast w.loop.liveDeadlines d) ∧
      (w.loop.ready = [] → ∀ d, IsLeast w.loop.liveDeadlines d →
        (w.loop.step P).2.now = max w.loop.now d) ∧
      (∀ e t, w.loop.step P = (.run e, t) → ∀ b ∈ w.bookings, b.seq = e.seq →
        ∀ dB, b.due = some dB → dB ≤ t.now ∧
          (b.clock ≤ dB → ∀ a ∈ w.bookings, ∀ dA, a.due = some dA → a.clock ≤ dA → dA < dB →
            a.seq ∉ w.loop.cancelled →
            ∃ before ev, t.recorder.events = before ++ [ev] ∧ ev.kind = .run ∧
              ev.seq = (e.seq : Int) ∧ 0 < Agenda.countEvents .run a.seq before)) := by
  obtain ⟨hledger, htimely⟩ := Watched.timely run
  have idle : w.loop.ready = [] → ∀ d, IsLeast w.loop.liveDeadlines d →
      (w.loop.step P).2.now = max w.loop.now d := by
    intro hr d hd
    cases hn : w.loop.nextTimer with
    | none =>
        obtain ⟨t, ht, hlive, -⟩ := hd.1
        exact absurd (LoopState.nextTimer_eq_none_iff.mp hn t ht) hlive
    | some t =>
        rw [LoopState.now_step_of_idle hr hn,
          (LoopState.nextTimer_isLeast htimely.sorted hn).unique hd]
  have moved : ∀ op : Op κ ε, (w.loop.perform P R op).2.now ≠ w.loop.now → op = .step ∧
      w.loop.ready = [] ∧ ∃ d, IsLeast w.loop.liveDeadlines d := by
    intro op hop
    have hstep : op = .step := by
      by_contra h
      exact hop (LoopState.now_perform h)
    subst hstep
    have hr : w.loop.ready = [] := by
      by_contra h
      exact hop (LoopState.now_step_of_ready h)
    refine ⟨rfl, hr, ?_⟩
    cases hn : w.loop.nextTimer with
    | none =>
        refine absurd ?_ hop
        simp [LoopState.perform, LoopState.step_of_stalled hr hn]
    | some t => exact ⟨_, LoopState.nextTimer_isLeast htimely.sorted hn⟩
  refine ⟨?_, moved, idle, ?_⟩
  · intro op
    by_cases h : (w.loop.perform P R op).2.now = w.loop.now
    · exact h.ge
    · obtain ⟨rfl, hr, d, hd⟩ := moved op h
      exact (le_max_left _ _).trans (idle hr d hd).ge
  · intro e t hstep b hb hseq dB hdB
    obtain ⟨u, hmoves, hcan, hmem, -, hnow, hevents⟩ := LoopState.step_eq_run hstep w.bookings
    obtain ⟨huledger, hutimely⟩ := Agenda.invariant
      (I := fun a => Agenda.Ledger a ∧ Agenda.Timely a)
      (fun _ _ ha h => ⟨ha.1.step h, ha.2.step ha.1 h⟩) hmoves ⟨hledger, htimely⟩
    obtain ⟨hle, hexact⟩ := hutimely.ready_due e hmem b hb hseq dB hdB
    refine ⟨hnow ▸ hle, ?_⟩
    intro hclock a ha dA hdA haclock hlt hlive
    obtain rfl : dB = u.now := hexact hclock
    exact ⟨_, _, hevents, rfl, rfl,
      Agenda.ran_of_due huledger hutimely ha hdA haclock hlt
        (by simpa [LoopState.agenda, hcan] using hlive)⟩

/-- Two timers, the later one booked first, and one step. -/
def twoTimersOps : List (Op Unit Unit) :=
  [.callLater 2 ⟨some "late", "function", none, ()⟩ none,
    .callLater 1 ⟨some "early", "function", none, ()⟩ none, .step]

/-- Where those calls leave a new loop on seed 0. -/
def twoTimersLoop : Watched (Shipped Unit) Unit Unit Unit :=
  Watched.exec (shipped .least) .least (Watched.fresh .least (.seeded (.init .least 0)) 0)
    twoTimersOps

theorem deadlines_respected_twoTimers :
    ∃ before ev, (twoTimersLoop.loop.step (shipped .least)).2.recorder.events = before ++ [ev] ∧
      ev.kind = .run ∧ ev.seq = 0 ∧ 0 < Agenda.countEvents .run 1 before :=
  ((deadlines_respected (Watched.run_exec (shipped .least) .least
      (Watched.fresh .least (.seeded (.init .least 0)) 0) twoTimersOps)).2.2.2
    ⟨0, "late", 1, ⟨some "late", "function", none, ()⟩⟩ _
    (Prod.ext (by decide +kernel) rfl) ⟨0, some 2, 0⟩ (by decide +kernel) rfl 2 rfl).2 (by decide +kernel)
    ⟨1, some 1, 0⟩ (by decide +kernel) 1 rfl (by decide +kernel) (by decide +kernel)
    (by decide +kernel)

end SimLoop.Loop
