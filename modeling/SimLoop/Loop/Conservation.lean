/-
  Loop/Conservation.lean --- no callback is lost, duplicated or resurrected.

  Every number the loop has given out is accounted for once: in the ready list, in
  the heap, or by one `run` or `cancel` event.  The accounting is an invariant of the
  elementary moves of the agenda.
-/
import SimLoop.Loop.Agenda
import Mathlib.Data.List.Perm.Basic

set_option autoImplicit false

namespace SimLoop.Loop

open SimLoop.Foundation SimLoop.Policy

variable {κ : Type}

/-! ## Where a number is -/

namespace Agenda

/-- How often `n` is in the ready list. -/
def waiting (a : Agenda κ) (n : Nat) : Nat := a.ready.countP (fun e => e.seq = n)

/-- How often `n` is in the timer heap. -/
def inHeap (a : Agenda κ) (n : Nat) : Nat := a.timers.countP (fun t => t.seq = n)

/-- How many of the events are of a kind and about `n`. -/
def countEvents (kind : EventKind) (n : Nat) (events : List TraceEvent) : Nat :=
  events.countP (fun e => decide (e.kind = kind ∧ e.seq = (n : Int)))

/-- In how many places `n` is, each counted as often as `n` is there. -/
def places (a : Agenda κ) (n : Nat) : Nat :=
  a.waiting n + a.inHeap n + countEvents .run n a.events + countEvents .cancel n a.events

/-- A `schedule` event with this number and label is among the events. -/
def Announced (events : List TraceEvent) (seq : Int) (label : String) : Prop :=
  ∃ e ∈ events, e.kind = .schedule ∧ e.seq = seq ∧ e.label = label

/-- Every `run` and every `cancel` event comes after the `schedule` event with its
number and label. -/
def Traced (events : List TraceEvent) : Prop :=
  ∀ pre e post, events = pre ++ e :: post → e.kind = .run ∨ e.kind = .cancel →
    Announced pre e.seq e.label

theorem Announced.append {events : List TraceEvent} {seq : Int} {label : String}
    (h : Announced events seq label) (more : List TraceEvent) :
    Announced (events ++ more) seq label := by
  obtain ⟨e, he, hrest⟩ := h
  exact ⟨e, List.mem_append_left _ he, hrest⟩

theorem traced_nil : Traced [] := by
  intro pre e post h
  simp at h

/-- One more event keeps the trace in order when the event, if it is about a drawn or
dropped entry, was announced before. -/
theorem Traced.append {events : List TraceEvent} (h : Traced events) {ev : TraceEvent}
    (hev : ev.kind = .run ∨ ev.kind = .cancel → Announced events ev.seq ev.label) :
    Traced (events ++ [ev]) := by
  intro pre e post heq hkind
  rcases List.eq_nil_or_concat post with rfl | ⟨post, last, rfl⟩
  · obtain ⟨rfl, hlast⟩ := List.append_inj' heq rfl
    obtain rfl : ev = e := by simpa using hlast
    exact hev hkind
  · rw [List.concat_eq_append, ← List.cons_append, ← List.append_assoc] at heq
    obtain ⟨rfl, -⟩ := List.append_inj' heq rfl
    exact h pre e post rfl hkind

/-! ## The invariant -/

/-- The accounting of the numbers given out. -/
structure Ledger (a : Agenda κ) : Prop where
  booked : a.bookings.map Booking.seq = List.range a.nextSeq
  once : ∀ n, a.places n = if n < a.nextSeq then 1 else 0
  ready_announced : ∀ e ∈ a.ready, Announced a.events e.seq e.label
  timers_announced : ∀ t ∈ a.timers, Announced a.events t.seq t.label
  traced : Traced a.events
  calledOff : ∀ n, 0 < countEvents .cancel n a.events → n ∈ a.cancelled

theorem perm_eraseIdx {α : Type} {l : List α} {i : Nat} {x : α} (h : l[i]? = some x) :
    l.Perm (x :: l.eraseIdx i) := by
  obtain ⟨hi, rfl⟩ := List.getElem?_eq_some_iff.mp h
  exact (List.getElem_cons_eraseIdx_perm hi).symm

theorem mem_heappush {t u : TimerEntry κ} {l : List (TimerEntry κ)} :
    u ∈ heappush t l ↔ u = t ∨ u ∈ l := List.mem_orderedInsert _

theorem countP_heappush (p : TimerEntry κ → Bool) (t : TimerEntry κ) (l : List (TimerEntry κ)) :
    (heappush t l).countP p = l.countP p + if p t then 1 else 0 := by
  rw [heappush, (List.perm_orderedInsert _ t l).countP_eq p, List.countP_cons]

theorem countEvents_append (kind : EventKind) (n : Nat) (events : List TraceEvent)
    (ev : TraceEvent) :
    countEvents kind n (events ++ [ev]) =
      countEvents kind n events + if ev.kind = kind ∧ ev.seq = (n : Int) then 1 else 0 := by
  simp [countEvents, List.countP_append, List.countP_cons]

/-- Taking an entry out of the ready list. -/
theorem countP_eraseIdx {l : List (ReadyEntry κ)} {i : Nat} {e : ReadyEntry κ}
    (h : l[i]? = some e) (n : Nat) :
    l.countP (fun x => x.seq = n) =
      (l.eraseIdx i).countP (fun x => x.seq = n) + if e.seq = n then 1 else 0 := by
  rw [(perm_eraseIdx h).countP_eq, List.countP_cons]
  simp

/-- Each move leaves every number in as many places as before, the number it books
excepted. -/
theorem places_step {a b : Agenda κ} (h : Step a b) (n : Nat) :
    b.places n = a.places n + if a.nextSeq ≤ n ∧ n < b.nextSeq then 1 else 0 := by
  cases h with
  | book e host he =>
      simp only [places, waiting, inHeap, countEvents_append, event, List.countP_append,
        List.countP_singleton, he]
      simp only [reduceCtorEq, false_and, if_false, decide_eq_true_eq]
      split <;> split <;> omega
  | bookTimer t host ht =>
      simp only [places, waiting, inHeap, countEvents_append, event, countP_heappush, ht]
      simp only [reduceCtorEq, false_and, if_false, decide_eq_true_eq]
      split <;> split <;> omega
  | cancel m hm =>
      simp only [places, waiting, inHeap]
      split <;> omega
  | note ev hev =>
      simp only [places, waiting, inHeap, countEvents_append, hev]
      simp only [reduceCtorEq, false_and, if_false]
      split <;> omega
  | dropTop t rest host ht hc =>
      simp only [places, waiting, inHeap, countEvents_append, event, ht, List.countP_cons]
      simp only [reduceCtorEq, false_and, true_and, if_false, decide_eq_true_eq,
        Nat.cast_inj]
      split <;> split <;> omega
  | advance t rest ev hr ht hc hev =>
      simp only [places, waiting, inHeap, countEvents_append, hev]
      simp only [reduceCtorEq, false_and, if_false]
      split <;> omega
  | due t rest ht hd hc =>
      simp only [places, waiting, inHeap, ht, List.countP_cons, List.countP_append,
        List.countP_nil, TimerEntry.due, decide_eq_true_eq]
      split <;> split <;> omega
  | run i e host hi hc =>
      simp only [places, waiting, inHeap, countEvents_append, event, countP_eraseIdx hi n]
      simp only [reduceCtorEq, false_and, true_and, if_false, Nat.cast_inj]
      split <;> split <;> omega
  | skip i e host hi hc =>
      simp only [places, waiting, inHeap, countEvents_append, event, countP_eraseIdx hi n]
      simp only [reduceCtorEq, false_and, true_and, if_false, Nat.cast_inj]
      split <;> split <;> omega

/-- The numbers given out never shrink, and only a booking takes the next one. -/
theorem nextSeq_step {a b : Agenda κ} (h : Step a b) :
    (b.nextSeq = a.nextSeq ∧ b.bookings = a.bookings) ∨
      (b.nextSeq = a.nextSeq + 1 ∧
        ∃ due, b.bookings = a.bookings ++ [⟨a.nextSeq, due, a.now⟩]) := by
  cases h with
  | book e host he => exact .inr ⟨rfl, none, by rw [he]⟩
  | bookTimer t host ht => exact .inr ⟨rfl, some t.when_, by rw [ht]⟩
  | _ => exact .inl ⟨rfl, rfl⟩

/-- Every move adds at most one event. -/
theorem events_step {a b : Agenda κ} (h : Step a b) :
    b.events = a.events ∨ ∃ ev, b.events = a.events ++ [ev] := by
  cases h with
  | cancel m hm => exact .inl rfl
  | due t rest ht hd hc => exact .inl rfl
  | _ => exact .inr ⟨_, rfl⟩

theorem Announced.step {a b : Agenda κ} (h : Step a b) {seq : Int} {label : String}
    (ha : Announced a.events seq label) : Announced b.events seq label := by
  obtain he | ⟨ev, he⟩ := events_step h
  · rwa [he]
  · rw [he]
    exact ha.append [ev]

/-- The accounting is an invariant of the moves. -/
theorem Ledger.step {a b : Agenda κ} (ha : Ledger a) (h : Step a b) : Ledger b where
  booked := by
    obtain ⟨hn, hb⟩ | ⟨hn, due, hb⟩ := nextSeq_step h
    · rw [hn, hb]
      exact ha.booked
    · rw [hn, hb, List.map_append, ha.booked, List.range_succ]
      rfl
  once := by
    intro n
    rw [places_step h n, ha.once n]
    obtain ⟨hn, -⟩ | ⟨hn, -⟩ := nextSeq_step h
    · rw [hn]
      split <;> split <;> omega
    · rw [hn]
      split <;> split <;> split <;> omega
  ready_announced := by
    intro x hx
    have old : x ∈ a.ready → Announced b.events x.seq x.label :=
      fun h' => (ha.ready_announced x h').step h
    cases h with
    | book e host he =>
        rcases List.mem_append.mp hx with hx | hx
        · exact old hx
        · obtain rfl : x = e := by simpa using hx
          exact ⟨_, List.mem_append_right _ (List.mem_singleton_self _), rfl, rfl, rfl⟩
    | due t rest ht hd hc =>
        rcases List.mem_append.mp hx with hx | hx
        · exact old hx
        · obtain rfl : x = t.due := by simpa using hx
          exact ha.timers_announced t (by rw [ht]; exact List.mem_cons_self)
    | run i e host hi hc => exact old (List.mem_of_mem_eraseIdx hx)
    | skip i e host hi hc => exact old (List.mem_of_mem_eraseIdx hx)
    | bookTimer | cancel | note | dropTop | advance => exact old hx
  timers_announced := by
    intro x hx
    have old : x ∈ a.timers → Announced b.events x.seq x.label :=
      fun h' => (ha.timers_announced x h').step h
    cases h with
    | bookTimer t host ht =>
        rcases mem_heappush.mp hx with rfl | hx
        · exact ⟨_, List.mem_append_right _ (List.mem_singleton_self _), rfl, rfl, rfl⟩
        · exact old hx
    | dropTop t rest host ht hc => exact old (ht ▸ List.mem_cons_of_mem _ hx)
    | due t rest ht hd hc => exact old (ht ▸ List.mem_cons_of_mem _ hx)
    | book | cancel | note | advance | run | skip => exact old hx
  traced := by
    cases h with
    | book e host he => exact ha.traced.append (by simp [event])
    | bookTimer t host ht => exact ha.traced.append (by simp [event])
    | cancel m hm => exact ha.traced
    | note ev hev => exact ha.traced.append (by simp [hev])
    | dropTop t rest host ht hc =>
        exact ha.traced.append fun _ =>
          ha.timers_announced t (by rw [ht]; exact List.mem_cons_self)
    | advance t rest ev hr ht hc hev => exact ha.traced.append (by simp [hev])
    | due t rest ht hd hc => exact ha.traced
    | run i e host hi hc =>
        exact ha.traced.append fun _ => ha.ready_announced e (List.mem_of_getElem? hi)
    | skip i e host hi hc =>
        exact ha.traced.append fun _ => ha.ready_announced e (List.mem_of_getElem? hi)
  calledOff := by
    intro n hn
    cases h with
    | dropTop t rest host ht hc =>
        rw [countEvents_append] at hn
        split at hn
        · rename_i h
          obtain rfl : t.seq = n := by simpa [event] using h.2
          exact hc
        · exact ha.calledOff n hn
    | skip i e host hi hc =>
        rw [countEvents_append] at hn
        split at hn
        · rename_i h
          obtain rfl : e.seq = n := by simpa [event] using h.2
          exact hc
        · exact ha.calledOff n hn
    | cancel m hm => exact List.mem_cons_of_mem _ (ha.calledOff n hn)
    | due t rest ht hd hc => exact ha.calledOff n hn
    | note ev hev => exact ha.calledOff n (by simpa [countEvents_append, hev] using hn)
    | advance t rest ev hr ht hc hev =>
        exact ha.calledOff n (by simpa [countEvents_append, hev] using hn)
    | book | bookTimer | run =>
        exact ha.calledOff n (by simpa [countEvents_append, event] using hn)

/-- A number that was called off and has not run stays so. -/
theorem notRun_step {n : Nat} {a b : Agenda κ}
    (ha : n ∈ a.cancelled ∧ countEvents .run n a.events = 0) (h : Step a b) :
    n ∈ b.cancelled ∧ countEvents .run n b.events = 0 := by
  obtain ⟨hc, hr⟩ := ha
  cases h with
  | run i e host hi hlive =>
      refine ⟨hc, ?_⟩
      have hne : e.seq ≠ n := fun h => hlive (h ▸ hc)
      simpa [countEvents_append, event, hr] using hne
  | cancel m hm => exact ⟨List.mem_cons_of_mem _ hc, hr⟩
  | due t rest ht hd hlive => exact ⟨hc, hr⟩
  | note ev hev => exact ⟨hc, by simpa [countEvents_append, hev] using hr⟩
  | advance t rest ev hr' ht hlive hev => exact ⟨hc, by simpa [countEvents_append, hev] using hr⟩
  | book | bookTimer | dropTop | skip =>
      exact ⟨hc, by simpa [countEvents_append, event] using hr⟩

end Agenda

/-! ## Runs -/

variable {π ε ρ : Type} {P : SchedulingPolicy π} {R : RandomSource ρ}

/-- The accounting holds of everything a program can do with a new loop. -/
theorem Watched.ledger {policy : π} {seed : Int} {ops : List (Op κ ε)} {w : Watched π κ ε ρ}
    (run : Run (Watched.step P R) (Watched.fresh R policy seed) ops w) :
    Agenda.Ledger w.agenda := by
  refine Watched.invariant (fun _ _ => Agenda.Ledger.step) ?_ run
  exact {
    booked := rfl
    once := fun n => (if_neg (Nat.not_lt_zero n)).symm
    ready_announced := fun e he => absurd he List.not_mem_nil
    timers_announced := fun t ht => absurd ht List.not_mem_nil
    traced := Agenda.traced_nil
    calledOff := fun n hn => absurd hn (Nat.not_lt_zero _) }

/-- **No callback is lost, duplicated or resurrected.**  After any calls on a new loop,
under any policy: the numbers below `nextSeq` are the ones its scheduling calls were
answered with, each once; each of them is in the ready list, in the heap, or in one
`run` or one `cancel` event, and nowhere twice; a number cancelled before it ran does
not run in any continuation; and every `run` and `cancel` event comes after the
`schedule` event with its number and label. -/
theorem callbacks_conserved {policy : π} {seed : Int} {ops : List (Op κ ε)}
    {w : Watched π κ ε ρ} (run : Run (Watched.step P R) (Watched.fresh R policy seed) ops w) :
    w.bookings.map Booking.seq = List.range w.loop.nextSeq ∧
      (∀ n, w.agenda.places n = if n < w.loop.nextSeq then 1 else 0) ∧
      (∀ n ∈ w.loop.cancelled, Agenda.countEvents .run n w.loop.recorder.events = 0 →
        ∀ ops' w', Run (Watched.step P R) w ops' w' →
          Agenda.countEvents .run n w'.loop.recorder.events = 0) ∧
      Agenda.Traced w.loop.recorder.events := by
  have hledger := Watched.ledger run
  refine ⟨hledger.booked, hledger.once, ?_, hledger.traced⟩
  intro n hn hrun ops' w' run'
  have hkept := Run.invariant
    (I := fun w : Watched π κ ε ρ =>
      n ∈ w.agenda.cancelled ∧ Agenda.countEvents .run n w.agenda.events = 0)
    (by
      rintro w op _ hw rfl
      exact Agenda.invariant (fun _ _ => Agenda.notRun_step)
        (perform_agenda P R w.loop op w.bookings) hw)
    run' ⟨hn, hrun⟩
  exact hkept.2

/-- Two callbacks and a timer, one of the callbacks called off before it is drawn. -/
def calledOffOps : List (Op Unit Unit) :=
  [.callSoon ⟨some "first", "function", none, ()⟩ none,
    .callSoon ⟨some "second", "function", none, ()⟩ none,
    .callLater 1 ⟨some "third", "function", none, ()⟩ none, .cancel 0, .step, .step, .step]

/-- Where those calls leave a new loop on seed 0. -/
def calledOffLoop : Watched (Shipped Unit) Unit Unit Unit :=
  Watched.exec (shipped .least) .least (Watched.fresh .least (.seeded (.init .least 0)) 0)
    calledOffOps

theorem callbacks_conserved_calledOff :
    (∀ n, calledOffLoop.agenda.places n = if n < calledOffLoop.loop.nextSeq then 1 else 0) ∧
      calledOffLoop.loop.nextSeq = 3 ∧
      calledOffLoop.loop.recorder.events.map (fun e => (e.kind, e.seq)) =
        [(.schedule, 0), (.schedule, 1), (.schedule, 2), (.cancel, 0), (.run, 1),
          (.advance, -1), (.run, 2)] :=
  ⟨(callbacks_conserved (Watched.run_exec (shipped .least) .least
    (Watched.fresh .least (.seeded (.init .least 0)) 0) calledOffOps)).2.1,
    by decide +kernel, by decide +kernel⟩

end SimLoop.Loop
