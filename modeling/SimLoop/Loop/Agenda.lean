/-
  Loop/Agenda.lean --- the loop as an agenda of booked work.

  What scheduling is about, without policies, contexts or streams: entries are
  booked under increasing numbers, wait in a list or in a deadline-ordered heap,
  can be called off, and leave with one event.  `Agenda.Step` has one constructor
  for each elementary move; every call on a loop is a sequence of such moves
  (`perform_agenda`), so an invariant of the moves is an invariant of the loop.
-/
import SimLoop.Loop.Machine
import Mathlib.Data.List.TakeWhile
import Mathlib.Logic.Relation

set_option autoImplicit false

namespace SimLoop.Loop

open SimLoop.Foundation SimLoop.Policy Relation

/-- The part of a watched loop that scheduling is about. -/
structure Agenda (κ : Type) where
  now : ℚ
  nextSeq : Nat
  ready : List (ReadyEntry κ)
  timers : List (TimerEntry κ)
  cancelled : List Nat
  events : List TraceEvent
  bookings : List Booking

namespace Agenda

variable {κ : Type}

/-- An event about the entry with number `seq`. -/
def event (a : Agenda κ) (kind : EventKind) (seq : Nat) (label : String) (host : HostName) :
    TraceEvent := ⟨kind, a.now, seq, label, host⟩

/-- The elementary moves. -/
inductive Step : Agenda κ → Agenda κ → Prop
  /-- An entry is booked to run as soon as possible. -/
  | book (a : Agenda κ) (e : ReadyEntry κ) (host : HostName) (he : e.seq = a.nextSeq) :
      Step a { a with
        nextSeq := a.nextSeq + 1
        ready := a.ready ++ [e]
        events := a.events ++ [a.event .schedule e.seq e.label host]
        bookings := a.bookings ++ [⟨e.seq, none, a.now⟩] }
  /-- An entry is booked for a deadline. -/
  | bookTimer (a : Agenda κ) (t : TimerEntry κ) (host : HostName) (ht : t.seq = a.nextSeq) :
      Step a { a with
        nextSeq := a.nextSeq + 1
        timers := heappush t a.timers
        events := a.events ++ [a.event .schedule t.seq t.label host]
        bookings := a.bookings ++ [⟨t.seq, some t.when_, a.now⟩] }
  /-- A handle that was given out is called off. -/
  | cancel (a : Agenda κ) (n : Nat) (hn : n < a.nextSeq) :
      Step a { a with cancelled := n :: a.cancelled }
  /-- Something is recorded that is about no entry. -/
  | note (a : Agenda κ) (ev : TraceEvent) (hev : ev.kind = .net) :
      Step a { a with events := a.events ++ [ev] }
  /-- The earliest timer was called off and leaves. -/
  | dropTop (a : Agenda κ) (t : TimerEntry κ) (rest : List (TimerEntry κ)) (host : HostName)
      (ht : a.timers = t :: rest) (hc : t.seq ∈ a.cancelled) :
      Step a { a with
        timers := rest
        events := a.events ++ [a.event .cancel t.seq t.label host] }
  /-- Nothing is ready, and the clock moves on to the earliest deadline. -/
  | advance (a : Agenda κ) (t : TimerEntry κ) (rest : List (TimerEntry κ)) (ev : TraceEvent)
      (hr : a.ready = []) (ht : a.timers = t :: rest) (hc : t.seq ∉ a.cancelled)
      (hev : ev.kind = .advance) :
      Step a { a with now := max a.now t.when_, events := a.events ++ [ev] }
  /-- The earliest timer is due and becomes ready. -/
  | due (a : Agenda κ) (t : TimerEntry κ) (rest : List (TimerEntry κ))
      (ht : a.timers = t :: rest) (hd : t.when_ ≤ a.now) (hc : t.seq ∉ a.cancelled) :
      Step a { a with timers := rest, ready := a.ready ++ [t.due] }
  /-- A ready entry is drawn and runs. -/
  | run (a : Agenda κ) (i : Nat) (e : ReadyEntry κ) (host : HostName)
      (hi : a.ready[i]? = some e) (hc : e.seq ∉ a.cancelled) :
      Step a { a with
        ready := a.ready.eraseIdx i
        events := a.events ++ [a.event .run e.seq e.label host] }
  /-- A ready entry is drawn and was called off. -/
  | skip (a : Agenda κ) (i : Nat) (e : ReadyEntry κ) (host : HostName)
      (hi : a.ready[i]? = some e) (hc : e.seq ∈ a.cancelled) :
      Step a { a with
        ready := a.ready.eraseIdx i
        events := a.events ++ [a.event .cancel e.seq e.label host] }

/-- A property every move keeps is kept by any number of them. -/
theorem invariant {I : Agenda κ → Prop} (hstep : ∀ a b, I a → Step a b → I b) {a b : Agenda κ}
    (run : ReflTransGen Step a b) (ha : I a) : I b := by
  induction run with
  | refl => exact ha
  | tail _ h ih => exact hstep _ _ ih h

end Agenda

/-! ## A loop's agenda -/

variable {π κ ε ρ : Type}

namespace LoopState

/-- The agenda of a loop with the given bookings. -/
def agenda (s : LoopState π κ ε ρ) (bookings : List Booking) : Agenda κ :=
  ⟨s.now, s.nextSeq, s.ready, s.timers, s.cancelled, s.recorder.events, bookings⟩

@[simp] theorem agenda_copyContext (s : LoopState π κ ε ρ) (bk : List Booking) :
    s.copyContext.2.agenda bk = s.agenda bk := rfl

@[simp] theorem agenda_handleContext (s : LoopState π κ ε ρ) (context : Option ContextId)
    (bk : List Booking) : (s.handleContext context).2.agenda bk = s.agenda bk := by
  cases context <;> rfl

@[simp] theorem agenda_setStream (s : LoopState π κ ε ρ) (r : ρ) (st : Stream)
    (bk : List Booking) : (s.setStream r st).agenda bk = s.agenda bk := by
  cases st <;> rfl

theorem callSoon_closed {s : LoopState π κ ε ρ} (h : s.closed = true) (cb : Callback κ)
    (context : Option ContextId) : s.callSoon cb context = (.error closedError, s) := by
  simp [callSoon, h]

theorem callAtTrue_closed {s : LoopState π κ ε ρ} (h : s.closed = true) (when_ shown : ℚ)
    (cb : Callback κ) (context : Option ContextId) :
    s.callAtTrue when_ shown cb context = (.error closedError, s) := by
  simp [callAtTrue, h]

/-- On an open loop `call_soon` gives out the next number and books it. -/
theorem callSoon_open {s : LoopState π κ ε ρ} (h : s.closed = false) (cb : Callback κ)
    (context : Option ContextId) (bk : List Booking) :
    (s.callSoon cb context).1 = .ok s.nextSeq ∧
      Agenda.Step (s.agenda bk)
        ((s.callSoon cb context).2.agenda (bk ++ [⟨s.nextSeq, none, s.now⟩])) := by
  have hmove := Agenda.Step.book (s.agenda bk)
    ⟨s.nextSeq, cb.label, (s.handleContext context).1, cb⟩
    (s.handleContext context).2.currentHost rfl
  simp only [callSoon, h, Bool.false_eq_true, if_false]
  cases context with
  | none => exact ⟨rfl, hmove⟩
  | some c => exact ⟨rfl, hmove⟩

/-- On an open loop `_call_at_true` gives out the next number and books it for the
deadline. -/
theorem callAtTrue_open {s : LoopState π κ ε ρ} (h : s.closed = false) (when_ shown : ℚ)
    (cb : Callback κ) (context : Option ContextId) (bk : List Booking) :
    (s.callAtTrue when_ shown cb context).1 = .ok s.nextSeq ∧
      Agenda.Step (s.agenda bk)
        ((s.callAtTrue when_ shown cb context).2.agenda
          (bk ++ [⟨s.nextSeq, some when_, s.now⟩])) := by
  have hmove := Agenda.Step.bookTimer (s.agenda bk)
    ⟨when_, s.nextSeq, cb.label, (s.handleContext context).1, shown, cb⟩
    (s.handleContext context).2.currentHost rfl
  simp only [callAtTrue, h, Bool.false_eq_true, if_false]
  cases context with
  | none => exact ⟨rfl, hmove⟩
  | some c => exact ⟨rfl, hmove⟩

/-! ## The clock's two loops -/

@[simp] theorem agenda_record (s : LoopState π κ ε ρ) (kind : EventKind) (seq : Int)
    (label : String) (host : HostName) (bk : List Booking) :
    (s.record kind seq label host).agenda bk =
      { s.agenda bk with events := (s.agenda bk).events ++ [⟨kind, s.now, seq, label, host⟩] } :=
  rfl

/-- Dropping cancelled timers off the top is a sequence of moves. -/
theorem dropCancelled_agenda (l : List (TimerEntry κ)) (s : LoopState π κ ε ρ)
    (bk : List Booking) :
    ReflTransGen Agenda.Step ({ s with timers := l }.agenda bk)
      ((dropCancelled l s).agenda bk) := by
  induction l generalizing s with
  | nil => exact .refl
  | cons t rest ih =>
      unfold dropCancelled
      split
      · rename_i hc
        refine .head ?_ (ih _)
        exact .dropTop ({ s with timers := t :: rest }.agenda bk) t rest (s.hostOf t.context) rfl
          ((isCancelled_iff s t.seq).mp hc)
      · exact .refl

/-- Collecting the timers that are due is a sequence of moves. -/
theorem collectDue_agenda (l : List (TimerEntry κ)) (s : LoopState π κ ε ρ)
    (bk : List Booking) :
    ReflTransGen Agenda.Step ({ s with timers := l }.agenda bk)
      ((collectDue l s).agenda bk) := by
  induction l generalizing s with
  | nil => exact .refl
  | cons t rest ih =>
      unfold collectDue
      split
      · rename_i hd
        split
        · rename_i hc
          refine .head ?_ (ih _)
          exact .dropTop ({ s with timers := t :: rest }.agenda bk) t rest (s.hostOf t.context)
            rfl ((isCancelled_iff s t.seq).mp hc)
        · rename_i hc
          refine .head ?_ (ih _)
          exact .due ({ s with timers := t :: rest }.agenda bk) t rest rfl hd
            (fun h => hc ((isCancelled_iff s t.seq).mpr h))
      · exact .refl

@[simp] theorem now_dropCancelled (l : List (TimerEntry κ)) (s : LoopState π κ ε ρ) :
    (dropCancelled l s).now = s.now := by
  induction l generalizing s with
  | nil => rfl
  | cons t rest ih =>
      unfold dropCancelled
      split
      · exact ih _
      · rfl

@[simp] theorem ready_dropCancelled (l : List (TimerEntry κ)) (s : LoopState π κ ε ρ) :
    (dropCancelled l s).ready = s.ready := by
  induction l generalizing s with
  | nil => rfl
  | cons t rest ih =>
      unfold dropCancelled
      split
      · exact ih _
      · rfl

@[simp] theorem cancelled_dropCancelled (l : List (TimerEntry κ)) (s : LoopState π κ ε ρ) :
    (dropCancelled l s).cancelled = s.cancelled := by
  induction l generalizing s with
  | nil => rfl
  | cons t rest ih =>
      unfold dropCancelled
      split
      · exact ih _
      · rfl

/-- What is left of the heap starts at the first timer that was not cancelled. -/
theorem timers_dropCancelled (l : List (TimerEntry κ)) (s : LoopState π κ ε ρ) :
    (dropCancelled l s).timers = l.dropWhile (fun t => s.isCancelled t.seq) := by
  induction l generalizing s with
  | nil => rfl
  | cons t rest ih =>
      unfold dropCancelled
      split
      · rename_i hc
        rw [ih]
        exact (List.dropWhile_cons_of_pos (p := fun t : TimerEntry κ => s.isCancelled t.seq) hc).symm
      · rename_i hc
        exact (List.dropWhile_cons_of_neg (p := fun t : TimerEntry κ => s.isCancelled t.seq) hc).symm

@[simp] theorem now_collectDue (l : List (TimerEntry κ)) (s : LoopState π κ ε ρ) :
    (collectDue l s).now = s.now := by
  induction l generalizing s with
  | nil => rfl
  | cons t rest ih =>
      unfold collectDue
      split
      · split
        · exact ih _
        · exact ih _
      · rfl

@[simp] theorem cancelled_collectDue (l : List (TimerEntry κ)) (s : LoopState π κ ε ρ) :
    (collectDue l s).cancelled = s.cancelled := by
  induction l generalizing s with
  | nil => rfl
  | cons t rest ih =>
      unfold collectDue
      split
      · split
        · exact ih _
        · exact ih _
      · rfl

/-- What becomes ready: the due prefix of the heap, less what was cancelled. -/
theorem ready_collectDue (l : List (TimerEntry κ)) (s : LoopState π κ ε ρ) :
    (collectDue l s).ready = s.ready ++
      ((l.takeWhile (fun t => decide (t.when_ ≤ s.now))).filter
        (fun t => !s.isCancelled t.seq)).map TimerEntry.due := by
  induction l generalizing s with
  | nil => simp [collectDue]
  | cons t rest ih =>
      unfold collectDue
      split
      · rename_i hd
        rw [List.takeWhile_cons_of_pos (by simpa using hd)]
        split
        · rename_i hc
          rw [ih, List.filter_cons_of_neg (by simpa using hc)]
          rfl
        · rename_i hc
          rw [ih, List.filter_cons_of_pos (by simpa using hc)]
          simp [isCancelled]
      · rename_i hd
        rw [List.takeWhile_cons_of_neg (by simpa using hd)]
        simp

theorem mem_ready_collectDue {t : TimerEntry κ} {rest : List (TimerEntry κ)}
    {s : LoopState π κ ε ρ} (hd : t.when_ ≤ s.now) (hc : t.seq ∉ s.cancelled) :
    t.due ∈ (collectDue (t :: rest) s).ready := by
  rw [ready_collectDue, List.takeWhile_cons_of_pos (by simpa using hd)]
  refine List.mem_append_right _ (List.mem_map.mpr ⟨t, List.mem_filter.mpr ⟨?_, ?_⟩, rfl⟩)
  · exact List.mem_cons_self
  · simpa using hc

/-! ## Advancing the clock -/

/-- The timer the clock moves to: the first that was not cancelled. -/
def nextTimer (s : LoopState π κ ε ρ) : Option (TimerEntry κ) :=
  (s.timers.dropWhile (fun t => s.isCancelled t.seq)).head?

theorem nextTimer_eq_none_iff {s : LoopState π κ ε ρ} :
    s.nextTimer = none ↔ ∀ t ∈ s.timers, t.seq ∈ s.cancelled := by
  simp [nextTimer, List.dropWhile_eq_nil_iff]

/-- With no live timer `_advance_clock` raises and leaves the clock and the ready
list alone. -/
theorem advanceClock_none {s : LoopState π κ ε ρ} (h : s.nextTimer = none) :
    s.advanceClock = (some noTimersError, dropCancelled s.timers s) := by
  have hnil : (dropCancelled s.timers s).timers = [] := by
    rw [timers_dropCancelled]
    exact List.head?_eq_none_iff.mp h
  simp only [advanceClock, hnil]

/-- The next timer heads what `dropCancelled` leaves, and it was not cancelled. -/
theorem nextTimer_eq_some {s : LoopState π κ ε ρ} {t : TimerEntry κ}
    (h : s.nextTimer = some t) :
    t.seq ∉ s.cancelled ∧ ∃ rest, (dropCancelled s.timers s).timers = t :: rest := by
  constructor
  · have hnot := List.head?_dropWhile_not (fun t => s.isCancelled t.seq) s.timers
    rw [nextTimer] at h
    rw [h] at hnot
    simpa using hnot
  · rw [timers_dropCancelled]
    exact List.head?_eq_some_iff.mp h

/-- The clock moved to `q`, with its event. -/
def moveTo (s : LoopState π κ ε ρ) (q : ℚ) : LoopState π κ ε ρ :=
  ({ s with now := q } : LoopState π κ ε ρ).record .advance (-1) "" ""

theorem advanceClock_eq {s : LoopState π κ ε ρ} {t : TimerEntry κ} {rest : List (TimerEntry κ)}
    (h : (dropCancelled s.timers s).timers = t :: rest) :
    s.advanceClock = (none, collectDue (t :: rest)
      ((dropCancelled s.timers s).moveTo (max (dropCancelled s.timers s).now t.when_))) := by
  unfold advanceClock moveTo
  generalize dropCancelled s.timers s = u at h
  cases u
  cases h
  rfl

/-- With a live timer it moves the clock there, and that timer is among what becomes
ready. -/
theorem advanceClock_some {s : LoopState π κ ε ρ} {t : TimerEntry κ} (h : s.nextTimer = some t) :
    s.advanceClock.1 = none ∧ s.advanceClock.2.now = max s.now t.when_ ∧
      t.due ∈ s.advanceClock.2.ready := by
  obtain ⟨hlive, rest, hrest⟩ := nextTimer_eq_some h
  rw [advanceClock_eq hrest]
  refine ⟨rfl, by simp [record, moveTo], ?_⟩
  exact mem_ready_collectDue (by simp [record, moveTo]) (by simpa [record, moveTo] using hlive)

@[simp] theorem cancelled_advanceClock (s : LoopState π κ ε ρ) :
    s.advanceClock.2.cancelled = s.cancelled := by
  cases hn : s.nextTimer with
  | none => simp [advanceClock_none hn]
  | some t =>
      obtain ⟨-, rest, hrest⟩ := nextTimer_eq_some hn
      simp [advanceClock_eq hrest, moveTo, record]

/-- Moving the clock to the head of the heap and collecting what is due. -/
theorem moveTo_agenda {s : LoopState π κ ε ρ} {t : TimerEntry κ} {rest : List (TimerEntry κ)}
    (hr : s.ready = []) (ht : s.timers = t :: rest) (hc : t.seq ∉ s.cancelled)
    (bk : List Booking) :
    ReflTransGen Agenda.Step (s.agenda bk)
      ((collectDue (t :: rest) (s.moveTo (max s.now t.when_))).agenda bk) := by
  cases s
  cases ht
  refine .head ?_ (collectDue_agenda (t :: rest) _ bk)
  exact .advance _ t rest _ hr rfl hc rfl

theorem advanceClock_agenda (s : LoopState π κ ε ρ) (hr : s.ready = []) (bk : List Booking) :
    ReflTransGen Agenda.Step (s.agenda bk) (s.advanceClock.2.agenda bk) := by
  have hdrop := dropCancelled_agenda s.timers s bk
  cases hn : s.nextTimer with
  | none => simpa only [advanceClock_none hn] using hdrop
  | some t =>
      obtain ⟨hlive, rest, hrest⟩ := nextTimer_eq_some hn
      rw [advanceClock_eq hrest]
      exact hdrop.trans (moveTo_agenda (by simpa using hr) hrest (by simpa using hlive) bk)

/-! ## The step -/

theorem pop_eq_of_none {s : LoopState π κ ε ρ} {i : Nat} (h : s.ready[i]? = none) :
    s.pop i = (.raised (.index "pop index out of range"),
      { s with choiceLog := s.choiceLog ++ [i] }) := by
  simp only [pop, h]

theorem pop_eq_of_some {s : LoopState π κ ε ρ} {i : Nat} {e : ReadyEntry κ}
    (h : s.ready[i]? = some e) :
    s.pop i =
      (if s.isCancelled e.seq then .skipped e else .run e,
        ({ s with
          choiceLog := s.choiceLog ++ [i]
          ready := s.ready.eraseIdx i } : LoopState π κ ε ρ).record
          (if s.isCancelled e.seq then .cancel else .run) e.seq e.label
          (s.hostOf e.context)) := by
  simp only [pop, h]
  by_cases hc : e.seq ∈ s.cancelled
  · simp only [isCancelled, hc, decide_true, if_true]
    rfl
  · simp only [isCancelled, hc, decide_false, Bool.false_eq_true, if_false]
    rfl

/-- How a step ends once something is ready: the policy or the choice log refuses, or
the entry it names leaves the ready list with its event. -/
theorem draw_cases (P : SchedulingPolicy π) (s : LoopState π κ ε ρ) :
    (∃ e p log, s.draw P = (.raised e, { s with policy := p, choiceLog := log })) ∨
    ∃ i e p, s.ready[i]? = some e ∧ i ≤ maxChoice ∧
      P.choose s.policy s.readyViews = (.ok (i : Int), p) ∧
      s.draw P =
        (if s.isCancelled e.seq then .skipped e else .run e,
          ({ s with
            policy := p
            choiceLog := s.choiceLog ++ [i]
            ready := s.ready.eraseIdx i } : LoopState π κ ε ρ).record
            (if s.isCancelled e.seq then .cancel else .run) e.seq e.label
            (s.hostOf e.context)) := by
  unfold draw
  split
  · exact .inl ⟨_, _, s.choiceLog, rfl⟩
  · rename_i index p hchoose
    dsimp only
    split
    · exact .inl ⟨_, _, s.choiceLog, rfl⟩
    · split
      · exact .inl ⟨_, _, s.choiceLog, rfl⟩
      · rename_i hmax hneg
        obtain ⟨i, rfl⟩ := Int.eq_ofNat_of_zero_le (Int.not_lt.mp hneg)
        rw [Int.toNat_natCast]
        cases hi : s.ready[i]? with
        | none => exact .inl ⟨_, _, _, pop_eq_of_none hi⟩
        | some e => exact .inr ⟨i, e, p, hi, by omega, hchoose, pop_eq_of_some hi⟩

theorem draw_agenda (P : SchedulingPolicy π) (s : LoopState π κ ε ρ) (bk : List Booking) :
    ReflTransGen Agenda.Step (s.agenda bk) ((s.draw P).2.agenda bk) := by
  obtain ⟨e, p, log, h⟩ | ⟨i, e, p, hi, -, -, h⟩ := s.draw_cases P
  · rw [h]
    exact .refl
  · rw [h]
    refine .single ?_
    by_cases hc : e.seq ∈ s.cancelled
    · simpa [isCancelled, hc, agenda, record, Agenda.event] using
        Agenda.Step.skip (s.agenda bk) i e (s.hostOf e.context) hi hc
    · simpa [isCancelled, hc, agenda, record, Agenda.event] using
        Agenda.Step.run (s.agenda bk) i e (s.hostOf e.context) hi hc

theorem step_agenda (P : SchedulingPolicy π) (s : LoopState π κ ε ρ) (bk : List Booking) :
    ReflTransGen Agenda.Step (s.agenda bk) ((s.step P).2.agenda bk) := by
  unfold step
  split
  · rename_i hr
    have hadv := advanceClock_agenda s (List.isEmpty_iff.mp hr) bk
    split
    · rename_i e t ht
      rw [ht] at hadv
      exact hadv
    · rename_i t ht
      rw [ht] at hadv
      exact hadv.trans (draw_agenda P t bk)
  · exact draw_agenda P s bk

/-- A step that is about to run `e` drew it, live, from a state it reached by moving the
clock at most. -/
theorem step_eq_run {P : SchedulingPolicy π} {s t : LoopState π κ ε ρ} {e : ReadyEntry κ}
    (h : s.step P = (.run e, t)) (bk : List Booking) :
    ∃ u : LoopState π κ ε ρ, ReflTransGen Agenda.Step (s.agenda bk) (u.agenda bk) ∧
      u.cancelled = s.cancelled ∧ e ∈ u.ready ∧ e.seq ∉ u.cancelled ∧ t.now = u.now ∧
      t.recorder.events =
        u.recorder.events ++ [⟨.run, u.now, e.seq, e.label, u.hostOf e.context⟩] := by
  have drawn : ∀ u : LoopState π κ ε ρ, u.draw P = (.run e, t) →
      e ∈ u.ready ∧ e.seq ∉ u.cancelled ∧ t.now = u.now ∧
      t.recorder.events =
        u.recorder.events ++ [⟨.run, u.now, e.seq, e.label, u.hostOf e.context⟩] := by
    intro u hu
    obtain ⟨_, _, _, hd⟩ | ⟨i, x, p, hi, -, -, hd⟩ := u.draw_cases P
    · rw [hd] at hu
      cases hu
    · rw [hd] at hu
      by_cases hc : x.seq ∈ u.cancelled
      · simp [isCancelled, hc] at hu
      · simp only [isCancelled, hc, decide_false, Bool.false_eq_true, if_false, Prod.mk.injEq,
          StepOutcome.run.injEq] at hu
        obtain ⟨rfl, rfl⟩ := hu
        exact ⟨List.mem_of_getElem? hi, hc, rfl, rfl⟩
  unfold step at h
  split at h
  · rename_i hr
    have hadv := advanceClock_agenda s (List.isEmpty_iff.mp hr) bk
    have hcan := cancelled_advanceClock s
    split at h
    · cases h
    · rename_i u hu
      rw [hu] at hadv hcan
      exact ⟨u, hadv, hcan, drawn u h⟩
  · exact ⟨s, .refl, rfl, drawn s h⟩

theorem now_draw (P : SchedulingPolicy π) (s : LoopState π κ ε ρ) : (s.draw P).2.now = s.now := by
  obtain ⟨_, _, _, h⟩ | ⟨_, _, _, _, _, _, h⟩ := s.draw_cases P
  · rw [h]
  · rw [h]
    rfl

/-- A step with something ready leaves the clock alone. -/
theorem now_step_of_ready {P : SchedulingPolicy π} {s : LoopState π κ ε ρ} (h : s.ready ≠ []) :
    (s.step P).2.now = s.now := by
  have hne : s.ready.isEmpty = false := by simpa using h
  simp only [step, hne, Bool.false_eq_true, if_false]
  exact now_draw P s

/-- A step with nothing ready and no live timer raises and leaves the clock alone. -/
theorem step_of_stalled {P : SchedulingPolicy π} {s : LoopState π κ ε ρ} (h : s.ready = [])
    (hn : s.nextTimer = none) :
    s.step P = (.raised noTimersError, dropCancelled s.timers s) := by
  simp [step, h, advanceClock_none hn]

/-- A step with nothing ready moves the clock to the next live timer. -/
theorem now_step_of_idle {P : SchedulingPolicy π} {s : LoopState π κ ε ρ} {t : TimerEntry κ}
    (h : s.ready = []) (hn : s.nextTimer = some t) :
    (s.step P).2.now = max s.now t.when_ := by
  obtain ⟨hnone, hnow, -⟩ := advanceClock_some hn
  have hpair : s.advanceClock = (none, s.advanceClock.2) := Prod.ext hnone rfl
  simp only [step, h, List.isEmpty_nil, if_true]
  rw [hpair]
  exact (now_draw P _).trans hnow

end LoopState

/-! ## Every call is a sequence of moves -/

/-- The booking a scheduling call makes. -/
def bookedHandle (due : Option ℚ) (clock : ℚ) : Except LoopError Nat → List Booking
  | .ok seq => [⟨seq, due, clock⟩]
  | .error _ => []

theorem booked_ofHandle (s : LoopState π κ ε ρ) (op : Op κ ε) (r : Except LoopError Nat) :
    booked s op (.ofHandle r) = bookedHandle (op.due s) s.now r := by
  cases r <;> rfl

theorem booked_ofError (s : LoopState π κ ε ρ) (op : Op κ ε) (e : Option LoopError) :
    booked s op (.ofError e) = [] := by
  cases e <;> rfl

namespace LoopState

theorem callSoon_agenda (s : LoopState π κ ε ρ) (cb : Callback κ) (context : Option ContextId)
    (bk : List Booking) :
    ReflTransGen Agenda.Step (s.agenda bk)
      ((s.callSoon cb context).2.agenda
        (bk ++ bookedHandle none s.now (s.callSoon cb context).1)) := by
  cases hcl : s.closed with
  | true =>
      simp only [callSoon_closed hcl, bookedHandle, List.append_nil]
      exact .refl
  | false =>
      obtain ⟨hr, hmove⟩ := callSoon_open hcl cb context bk
      rw [hr]
      exact .single hmove

theorem callAtTrue_agenda (s : LoopState π κ ε ρ) (when_ shown : ℚ) (cb : Callback κ)
    (context : Option ContextId) (bk : List Booking) :
    ReflTransGen Agenda.Step (s.agenda bk)
      ((s.callAtTrue when_ shown cb context).2.agenda
        (bk ++ bookedHandle (some when_) s.now (s.callAtTrue when_ shown cb context).1)) := by
  cases hcl : s.closed with
  | true =>
      simp only [callAtTrue_closed hcl, bookedHandle, List.append_nil]
      exact .refl
  | false =>
      obtain ⟨hr, hmove⟩ := callAtTrue_open hcl when_ shown cb context bk
      rw [hr]
      exact .single hmove

theorem createTask_fst (s : LoopState π κ ε ρ) (task : TaskId) (cb : Callback κ)
    (context : Option ContextId) :
    (s.createTask task cb context).1 = (s.callSoon cb context).1 := by
  unfold createTask
  split <;> (rename_i h; rw [h])

theorem agenda_createTask (s : LoopState π κ ε ρ) (task : TaskId) (cb : Callback κ)
    (context : Option ContextId) (bk : List Booking) :
    (s.createTask task cb context).2.agenda bk = (s.callSoon cb context).2.agenda bk := by
  unfold createTask
  split
  · rename_i h
    rw [h]
  · rename_i h
    rw [h]
    rfl

end LoopState

/-- What a call does to the agenda: the elementary moves its booking, if it makes one,
is part of. -/
theorem perform_agenda (P : SchedulingPolicy π) (R : RandomSource ρ) (s : LoopState π κ ε ρ)
    (op : Op κ ε) (bk : List Booking) :
    ReflTransGen Agenda.Step (s.agenda bk)
      ((s.perform P R op).2.agenda (bk ++ booked s op (s.perform P R op).1)) := by
  cases op with
  | callSoon cb context =>
      simp only [LoopState.perform, booked_ofHandle]
      exact s.callSoon_agenda cb context bk
  | callLater delay cb context =>
      simp only [LoopState.perform, booked_ofHandle]
      exact s.callAtTrue_agenda _ _ cb context bk
  | callAt when_ cb context =>
      simp only [LoopState.perform, booked_ofHandle]
      exact s.callAtTrue_agenda _ _ cb context bk
  | createTask task cb context =>
      simp only [LoopState.perform, booked_ofHandle, LoopState.createTask_fst,
        LoopState.agenda_createTask]
      exact s.callSoon_agenda cb context bk
  | cancel seq =>
      simp only [LoopState.perform, booked, List.append_nil, LoopState.cancel]
      split
      · rename_i h
        exact .single (.cancel (s.agenda bk) seq h)
      · exact .refl
  | step =>
      simp only [LoopState.perform, booked, List.append_nil]
      exact s.step_agenda P bk
  | enterRun =>
      simp only [LoopState.perform, booked_ofError, List.append_nil, LoopState.enterRun]
      split
      · exact .refl
      · split <;> exact .refl
  | close =>
      simp only [LoopState.perform, booked_ofError, List.append_nil, LoopState.close]
      split <;> exact .refl
  | trace uid label =>
      simp only [LoopState.perform, booked, List.append_nil]
      exact .single (.note (s.agenda bk) ⟨.net, s.now, uid, label, ""⟩ rfl)
  | draw st d =>
      simp only [LoopState.perform, booked, List.append_nil, LoopState.agenda_setStream]
      exact .refl
  | time | stop | leaveRun | copyContext | setHost _ | enter _ | setClock _ _ | setExceptionHandler _
  | collect _ | inspect =>
      simp only [LoopState.perform, booked, List.append_nil]
      exact .refl

/-- A watched loop's agenda. -/
def Watched.agenda (w : Watched π κ ε ρ) : Agenda κ := w.loop.agenda w.bookings

/-- An invariant of the moves, true of an unused loop, holds of every run on it. -/
theorem Watched.invariant {P : SchedulingPolicy π} {R : RandomSource ρ} {policy : π} {seed : Int}
    {I : Agenda κ → Prop} (hstep : ∀ a b, I a → Agenda.Step a b → I b)
    (h0 : I (Watched.fresh R policy seed : Watched π κ ε ρ).agenda)
    {ops : List (Op κ ε)} {w : Watched π κ ε ρ}
    (run : Run (Watched.step P R) (Watched.fresh R policy seed) ops w) : I w.agenda := by
  refine Run.invariant (I := fun w => I w.agenda) ?_ run h0
  rintro w op _ hw rfl
  exact Agenda.invariant hstep (perform_agenda P R w.loop op w.bookings) hw

end SimLoop.Loop
