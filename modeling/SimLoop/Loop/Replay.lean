/-
  Loop/Replay.lean --- a recorded choice log replays the run it came from.

  Nothing but a step's draw looks at the policy or at the choice log: everything else
  a session does commutes with exchanging them (`turn_rebase`).  So a run and its
  replay stay in lock step as long as the scripted policy answers each draw with the
  index the original run logged there, which is what the log is.
-/
import SimLoop.Loop.Agenda
import SimLoop.Loop.Recasting

set_option autoImplicit false

namespace SimLoop.Loop

open SimLoop.Foundation SimLoop.Policy

variable {π ω κ ε υ ρ : Type}

/-! ## Exchanging the policy -/

namespace LoopState

/-- The same loop under another policy and another choice log. -/
def rebase (s : LoopState π κ ε ρ) (p : π) (log : List Nat) : LoopState π κ ε ρ :=
  { s with policy := p, choiceLog := log }

theorem rebase_self (s : LoopState π κ ε ρ) : s.rebase s.policy s.choiceLog = s := rfl

@[simp] theorem rebase_rebase (s : LoopState π κ ε ρ) (p q : π) (log log' : List Nat) :
    (s.rebase p log).rebase q log' = s.rebase q log' := rfl

theorem dropCancelled_rebase (l : List (TimerEntry κ)) (s : LoopState π κ ε ρ) (p : π)
    (log : List Nat) : dropCancelled l (s.rebase p log) = (dropCancelled l s).rebase p log := by
  induction l generalizing s with
  | nil => rfl
  | cons t rest ih =>
      unfold dropCancelled
      by_cases hc : s.isCancelled t.seq
      · rw [if_pos hc, if_pos (show (s.rebase p log).isCancelled t.seq from hc)]
        exact ih (s.record .cancel t.seq t.label (s.hostOf t.context))
      · rw [if_neg hc, if_neg (show ¬ (s.rebase p log).isCancelled t.seq from hc)]
        rfl

theorem collectDue_rebase (l : List (TimerEntry κ)) (s : LoopState π κ ε ρ) (p : π)
    (log : List Nat) : collectDue l (s.rebase p log) = (collectDue l s).rebase p log := by
  induction l generalizing s with
  | nil => rfl
  | cons t rest ih =>
      unfold collectDue
      by_cases hd : t.when_ ≤ s.now
      · rw [if_pos hd, if_pos (show t.when_ ≤ (s.rebase p log).now from hd)]
        by_cases hc : s.isCancelled t.seq
        · rw [if_pos hc, if_pos (show (s.rebase p log).isCancelled t.seq from hc)]
          exact ih (s.record .cancel t.seq t.label (s.hostOf t.context))
        · rw [if_neg hc, if_neg (show ¬ (s.rebase p log).isCancelled t.seq from hc)]
          exact ih { s with ready := s.ready ++ [t.due] }
      · rw [if_neg hd, if_neg (show ¬ t.when_ ≤ (s.rebase p log).now from hd)]
        rfl

theorem advanceClock_rebase (s : LoopState π κ ε ρ) (p : π) (log : List Nat) :
    (s.rebase p log).advanceClock = (s.advanceClock.1, s.advanceClock.2.rebase p log) := by
  cases hn : s.nextTimer with
  | none =>
      rw [advanceClock_none hn, advanceClock_none (s := s.rebase p log) hn]
      exact Prod.ext rfl (dropCancelled_rebase s.timers s p log)
  | some t =>
      obtain ⟨-, rest, hrest⟩ := nextTimer_eq_some hn
      have hrest' : (dropCancelled (s.rebase p log).timers (s.rebase p log)).timers = t :: rest := by
        rw [show (s.rebase p log).timers = s.timers from rfl, dropCancelled_rebase]
        exact hrest
      rw [advanceClock_eq hrest, advanceClock_eq hrest',
        show (s.rebase p log).timers = s.timers from rfl, dropCancelled_rebase]
      exact Prod.ext rfl (collectDue_rebase (t :: rest)
        ((dropCancelled s.timers s).moveTo (max (dropCancelled s.timers s).now t.when_)) p log)

theorem pop_rebase (s : LoopState π κ ε ρ) (p : π) (log : List Nat) (i : Nat) :
    (s.rebase p log).pop i = ((s.pop i).1, (s.pop i).2.rebase p (log ++ [i])) := by
  cases hi : s.ready[i]? with
  | none =>
      rw [pop_eq_of_none hi, pop_eq_of_none (s := s.rebase p log) hi]
      rfl
  | some e =>
      rw [pop_eq_of_some hi, pop_eq_of_some (s := s.rebase p log) hi]
      rfl

theorem callSoon_rebase (s : LoopState π κ ε ρ) (p : π) (log : List Nat) (cb : Callback κ)
    (context : Option ContextId) :
    (s.rebase p log).callSoon cb context =
      ((s.callSoon cb context).1, (s.callSoon cb context).2.rebase p log) := by
  unfold callSoon
  by_cases hc : s.closed
  · rw [if_pos hc, if_pos (show (s.rebase p log).closed from hc)]
  · rw [if_neg hc, if_neg (show ¬ (s.rebase p log).closed from hc)]
    cases context <;> rfl

theorem callAtTrue_rebase (s : LoopState π κ ε ρ) (p : π) (log : List Nat) (when_ shown : ℚ)
    (cb : Callback κ) (context : Option ContextId) :
    (s.rebase p log).callAtTrue when_ shown cb context =
      ((s.callAtTrue when_ shown cb context).1,
        (s.callAtTrue when_ shown cb context).2.rebase p log) := by
  unfold callAtTrue
  by_cases hc : s.closed
  · rw [if_pos hc, if_pos (show (s.rebase p log).closed from hc)]
  · rw [if_neg hc, if_neg (show ¬ (s.rebase p log).closed from hc)]
    cases context <;> rfl

theorem callLater_rebase (s : LoopState π κ ε ρ) (p : π) (log : List Nat) (delay : ℚ)
    (cb : Callback κ) (context : Option ContextId) :
    (s.rebase p log).callLater delay cb context =
      ((s.callLater delay cb context).1, (s.callLater delay cb context).2.rebase p log) :=
  callAtTrue_rebase s p log _ _ cb context

theorem callAt_rebase (s : LoopState π κ ε ρ) (p : π) (log : List Nat) (when_ : ℚ)
    (cb : Callback κ) (context : Option ContextId) :
    (s.rebase p log).callAt when_ cb context =
      ((s.callAt when_ cb context).1, (s.callAt when_ cb context).2.rebase p log) :=
  callAtTrue_rebase s p log _ _ cb context

theorem createTask_rebase (s : LoopState π κ ε ρ) (p : π) (log : List Nat) (task : TaskId)
    (cb : Callback κ) (context : Option ContextId) :
    (s.rebase p log).createTask task cb context =
      ((s.createTask task cb context).1, (s.createTask task cb context).2.rebase p log) := by
  simp only [createTask, callSoon_rebase]
  rcases s.callSoon cb context with ⟨_ | _, _⟩ <;> rfl

/-- Only a step looks at the policy or the choice log. -/
theorem perform_rebase (P : SchedulingPolicy π) (R : RandomSource ρ) (s : LoopState π κ ε ρ)
    (p : π) (log : List Nat) {op : Op κ ε} (h : op ≠ .step) :
    (s.rebase p log).perform P R op =
      ((s.perform P R op).1, (s.perform P R op).2.rebase p log) := by
  cases op with
  | step => exact absurd rfl h
  | callSoon cb context => simp only [perform, callSoon_rebase]
  | callLater delay cb context => simp only [perform, callLater_rebase]
  | callAt when_ cb context => simp only [perform, callAt_rebase]
  | createTask task cb context => simp only [perform, createTask_rebase]
  | cancel seq =>
      simp only [perform, cancel]
      by_cases hs : seq < s.nextSeq
      · rw [if_pos hs, if_pos (show seq < (s.rebase p log).nextSeq from hs)]
        rfl
      · rw [if_neg hs, if_neg (show ¬ seq < (s.rebase p log).nextSeq from hs)]
  | enterRun =>
      simp only [perform, enterRun]
      by_cases hc : s.closed
      · rw [if_pos hc, if_pos (show (s.rebase p log).closed from hc)]
      · rw [if_neg hc, if_neg (show ¬ (s.rebase p log).closed from hc)]
        by_cases hr : s.running
        · rw [if_pos hr, if_pos (show (s.rebase p log).running from hr)]
        · rw [if_neg hr, if_neg (show ¬ (s.rebase p log).running from hr)]
          rfl
  | close =>
      simp only [perform, close]
      by_cases hr : s.running
      · rw [if_pos hr, if_pos (show (s.rebase p log).running from hr)]
      · rw [if_neg hr, if_neg (show ¬ (s.rebase p log).running from hr)]
        rfl
  | draw st d => cases st <;> rfl
  | _ => rfl

end LoopState

/-! ## Sessions under another policy -/

namespace Session

/-- The same session under another policy and another choice log. -/
def rebase (s : Session π ω κ ε υ ρ) (p : π) (log : List Nat) : Session π ω κ ε υ ρ :=
  { s with loop := s.loop.rebase p log }

theorem rebase_self (s : Session π ω κ ε υ ρ) : s.rebase s.loop.policy s.loop.choiceLog = s := rfl

variable (P : SchedulingPolicy π) (R : RandomSource ρ) (W : Workload ω κ ε υ)
variable (s : Session π ω κ ε υ ρ) (p : π) (log : List Nat)

theorem unseen_rebase :
    Unseen P R (fun t : LoopState π (Body κ) ε ρ => t.rebase p log) (· ≠ .step) where
  perform t _ h := LoopState.perform_rebase P R t p log h
  internal o h := by
    rintro rfl
    cases h
  ready _ := rfl
  timers _ := rfl
  stopping _ := rfl
  unhandled _ := rfl
  exceptionHandler _ := rfl
  current _ := rfl

theorem unnoticed_id : Unnoticed W id := ⟨fun _ _ => rfl, fun _ _ _ => rfl⟩

theorem ne_step_of_isPublic {o : Op (Body κ) ε} (h : o.isPublic = true) : o ≠ .step := by
  rintro rfl
  cases h

theorem afterStep_rebase (outcome : LoopState.StepOutcome (Body κ)) :
    (s.rebase p log).afterStep P R W outcome = (s.afterStep P R W outcome).rebase p log :=
  afterStep_recast (unseen_rebase P R p log) (unnoticed_id W) s outcome

/-- A turn that is no step of the loop looks at neither the policy nor the log. -/
theorem turn_rebase : (s.rebase p log).turn P R W = (s.turn P R W).rebase p log :=
  turn_recast (unseen_rebase P R p log) (unnoticed_id W) s fun _ _ _ =>
    ⟨rfl, fun o _ => ne_step_of_isPublic o.2, fun _ _ _ => rfl⟩

end Session

/-! ## One step, recorded and replayed -/

namespace LoopState

/-- The first half of a step: something is made ready. -/
def readied (s : LoopState π κ ε ρ) : Option LoopError × LoopState π κ ε ρ :=
  if s.ready.isEmpty then s.advanceClock else (none, s)

theorem step_of_readied_error {P : SchedulingPolicy π} {s t : LoopState π κ ε ρ} {e : LoopError}
    (h : s.readied = (some e, t)) : s.step P = (.raised e, t) := by
  unfold readied at h
  unfold step
  split at h
  · rename_i hr
    rw [if_pos hr, h]
  · cases h

theorem step_of_readied {P : SchedulingPolicy π} {s t : LoopState π κ ε ρ}
    (h : s.readied = (none, t)) : s.step P = t.draw P := by
  unfold readied at h
  unfold step
  split at h
  · rename_i hr
    rw [if_pos hr, h]
  · rename_i hr
    rw [if_neg hr, (Prod.mk.inj h).2]

theorem readied_rebase (s : LoopState π κ ε ρ) (p : π) (log : List Nat) :
    (s.rebase p log).readied = (s.readied.1, s.readied.2.rebase p log) := by
  simp only [readied, show (s.rebase p log).ready = s.ready from rfl]
  split
  · exact advanceClock_rebase s p log
  · rfl

/-- When making something ready succeeds, something is ready. -/
theorem ready_ne_nil_of_readied {s t : LoopState π κ ε ρ} (h : s.readied = (none, t)) :
    t.ready ≠ [] := by
  unfold readied at h
  split at h
  · cases hn : s.nextTimer with
    | none =>
        rw [advanceClock_none hn] at h
        cases h
    | some timer =>
        have hmem := (advanceClock_some hn).2.2
        rw [h] at hmem
        exact List.ne_nil_of_mem hmem
  · rename_i hr
    rw [← (Prod.mk.inj h).2]
    exact fun hnil => hr (List.isEmpty_iff.mpr hnil)

/-- Making something ready touches neither the policy nor the log. -/
theorem readied_keeps (s : LoopState π κ ε ρ) :
    s.readied.2.policy = s.policy ∧ s.readied.2.choiceLog = s.choiceLog := by
  have h := readied_rebase s s.policy s.choiceLog
  rw [rebase_self] at h
  have h2 : s.readied.2 = s.readied.2.rebase s.policy s.choiceLog := congrArg Prod.snd h
  exact ⟨(congrArg LoopState.policy h2).trans rfl, (congrArg LoopState.choiceLog h2).trans rfl⟩

/-- A policy whose answers are in range is answered by the pop of the entry it names,
unless the queue outgrew the log. -/
theorem draw_of_inRange {P : SchedulingPolicy π} (hP : P.InRange) {s : LoopState π κ ε ρ}
    (hr : s.ready ≠ []) (hgrow : (s.draw P).2.ready.length ≤ maxChoice + 1) :
    ∃ (i : Nat) (p : π) (e : ReadyEntry κ), s.ready[i]? = some e ∧ P.choose s.policy s.readyViews = (.ok (i : Int), p) ∧
      i ≤ maxChoice ∧ s.draw P = (s.rebase p s.choiceLog).pop i := by
  have hviews : s.readyViews ≠ [] := by
    intro h
    exact hr (List.map_eq_nil_iff.mp h)
  obtain ⟨i, hi, hchoose⟩ := hP s.policy s.readyViews hviews
  rw [readyViews_length] at hi
  have hpair : P.choose s.policy s.readyViews =
      (.ok (i : Int), (P.choose s.policy s.readyViews).2) := Prod.ext hchoose rfl
  have hmax : i ≤ maxChoice := by
    by_contra hbig
    have hraise : (s.draw P).2.ready = s.ready := by
      unfold draw
      rw [hpair]
      dsimp only
      rw [if_pos (by omega)]
    rw [hraise] at hgrow
    omega
  refine ⟨i, _, _, List.getElem?_eq_getElem hi, hpair, hmax, ?_⟩
  unfold draw
  rw [hpair]
  dsimp only
  rw [if_neg (by omega), if_neg (by omega), Int.toNat_natCast]
  rfl

theorem choiceLog_pop (s : LoopState π κ ε ρ) (i : Nat) :
    (s.pop i).2.choiceLog = s.choiceLog ++ [i] := by
  cases hi : s.ready[i]? with
  | none => rw [pop_eq_of_none hi]
  | some e =>
      rw [pop_eq_of_some hi]
      rfl

/-! ## What a policy is asked -/

/-- Nothing is left to run: no callback is ready, every timer was cancelled, and the step
raises. -/
structure Stalls (P : SchedulingPolicy π) (s : LoopState π κ ε ρ) : Prop where
  idle : s.ready = []
  cancelled : ∀ t ∈ s.timers, s.isCancelled t.seq = true
  raises : (s.step P).1 = .raised noTimersError
  empty : (s.step P).2.ready = [] ∧ (s.step P).2.timers = []

/-- The step is the policy's draw from a queue with something in it, at the state `t`. -/
structure Consults (P : SchedulingPolicy π) (s t : LoopState π κ ε ρ) : Prop where
  readied : s.readied = (none, t)
  asked : t.readyViews ≠ []
  draws : s.step P = t.draw P

theorem stalls_or_consults (P : SchedulingPolicy π) (s : LoopState π κ ε ρ) :
    s.Stalls P ∨ ∃ t, s.Consults P t := by
  rcases hreadied : s.readied with ⟨_ | e, t⟩
  · refine Or.inr ⟨t, hreadied, fun hnil => ?_, step_of_readied hreadied⟩
    exact ready_ne_nil_of_readied hreadied (List.map_eq_nil_iff.mp hnil)
  · refine Or.inl ?_
    have hstep : s.step P = (.raised e, t) := step_of_readied_error hreadied
    unfold LoopState.readied at hreadied
    split at hreadied
    · rename_i hempty
      have hidle := List.isEmpty_iff.mp hempty
      cases hn : s.nextTimer with
      | none =>
        rw [advanceClock_none hn] at hreadied
        obtain ⟨he, rfl⟩ := Prod.mk.inj hreadied
        cases he
        refine ⟨hidle, ?_, by rw [hstep], ?_⟩
        · simpa using nextTimer_eq_none_iff.mp hn
        · rw [hstep, ready_dropCancelled, timers_dropCancelled]
          exact ⟨hidle, List.head?_eq_none_iff.mp hn⟩
      | some timer =>
        have hsome := (advanceClock_some hn).1
        rw [hreadied] at hsome
        cases hsome
    · cases hreadied

/-- **The scheduler is never asked to choose from nothing, and a shipped policy never steps
out of range.**  Either the step raises the deadlock, or the policy is asked about a queue
that is not empty; the index a shipped policy then answers is one of the queue's, so that
the entry there is popped unless its index is too large for the choice log. -/
theorem choice_defined (R : RandomSource ρ) :
    (∀ {π : Type} (P : SchedulingPolicy π) (s : LoopState π κ ε ρ),
      s.Stalls P ∨ ∃ t, s.Consults P t) ∧
    ∀ s t : LoopState (Shipped ρ) κ ε ρ, s.Consults (shipped R) t →
      ∃ (i : Nat) (entry : ReadyEntry κ),
        ((shipped R).choose t.policy t.readyViews).1 = .ok (i : Int) ∧
        i < t.ready.length ∧ t.ready[i]? = some entry ∧
          (s.step (shipped R)).1 =
            if maxChoice < i then .raised (.assertion "ready queue outgrew the choice log")
            else if t.isCancelled entry.seq then .skipped entry
            else .run entry := by
  refine ⟨fun P s => stalls_or_consults P s, fun s t h => ?_⟩
  obtain ⟨i, hi, hchoose⟩ := shipped_inRange R t.policy t.readyViews h.asked
  rw [readyViews_length] at hi
  have hentry := List.getElem?_eq_getElem hi
  refine ⟨i, t.ready[i], hchoose, hi, hentry, ?_⟩
  rw [h.draws, draw, show (shipped R).choose t.policy t.readyViews =
    (.ok (i : Int), ((shipped R).choose t.policy t.readyViews).2) from Prod.ext hchoose rfl]
  dsimp only
  split
  · rw [if_pos (by omega)]
  · rw [if_neg (by omega), if_neg (by omega), Int.toNat_natCast]
    refine (congrArg Prod.fst (pop_eq_of_some (e := t.ready[i]) ?_)).trans ?_
    · exact hentry
    · rfl

/-- A loop with one callback ready. -/
def oneReady : LoopState (Shipped Unit) Unit Unit Unit :=
  ((fresh .least (.seeded (.init .least 0)) 0).callSoon ⟨some "work", "function", none, ()⟩ none).2

theorem choice_defined_oneReady : ∃ (t : LoopState (Shipped Unit) Unit Unit Unit) (i : Nat)
    (entry : ReadyEntry Unit), oneReady.Consults (shipped .least) t ∧
      ((shipped .least).choose t.policy t.readyViews).1 = .ok (i : Int) ∧
      i < t.ready.length ∧ t.ready[i]? = some entry := by
  obtain ⟨hasked, hchosen⟩ :=
    (choice_defined .least : _ ∧ ∀ s t : LoopState (Shipped Unit) Unit Unit Unit, _)
  rcases hasked (shipped .least) oneReady with hstalls | ⟨t, hconsults⟩
  · cases hstalls.idle
  · obtain ⟨i, entry, hchoose, hi, hentry, -⟩ := hchosen _ t hconsults
    exact ⟨t, i, entry, hconsults, hchoose, hi, hentry⟩

end LoopState

/-! ## Replaying -/

/-- A list of choices that agrees with a log wherever the log has an entry, and has 0
where the list itself has none. -/
def Records (choices log : List Nat) : Prop :=
  ∀ j x, log[j]? = some x → choices.getD j 0 = x

theorem Records.of_prefix {choices log log' : List Nat} (h : Records choices log')
    (hpre : log <+: log') : Records choices log := by
  obtain ⟨more, rfl⟩ := hpre
  intro j x hj
  exact h j x (by rw [List.getElem?_append_left (List.getElem?_eq_some_iff.mp hj).1]; exact hj)

/-- How a scripted policy stands in for the policy that wrote a log: it is as far into
its recording as the log is long, and it has not left the recording while the log is
no longer than it. -/
structure Follows (q : ScriptedPolicy) (choices log : List Nat) : Prop where
  choices_eq : q.choices = choices
  step_eq : q.step = log.length
  faithful : log.length ≤ choices.length → q.divergedAt = none

/-- The scripted policy answers a draw with the index that was logged. -/
theorem Follows.choose {q : ScriptedPolicy} {choices log : List Nat} (hq : Follows q choices log)
    {i : Nat} (hrec : Records choices (log ++ [i])) {ready : List ReadyView}
    (hi : i < ready.length) :
    ∃ q', q.choose ready = (.ok (i : Int), q') ∧ Follows q' choices (log ++ [i]) := by
  have hget : choices.getD log.length 0 = i := hrec log.length i (by simp)
  by_cases hin : log.length < choices.length
  · have hsome : q.choices[q.step]? = some i := by
      rw [hq.choices_eq, hq.step_eq, List.getElem?_eq_getElem hin]
      rw [List.getD_eq_getElem?_getD, List.getElem?_eq_getElem hin] at hget
      exact congrArg some hget
    refine ⟨_, ScriptedPolicy.choose_recorded hsome hi, hq.choices_eq, ?_, ?_⟩
    · simp [hq.step_eq]
    · exact fun _ => hq.faithful hin.le
  · have hzero : i = 0 := by
      rw [List.getD_eq_getElem?_getD, List.getElem?_eq_none (by omega)] at hget
      exact hget.symm
    subst hzero
    refine ⟨_, ScriptedPolicy.choose_past_end ready ?_, ?_, ?_, ?_⟩
    · rw [hq.choices_eq, hq.step_eq]
      omega
    · simp [hq.choices_eq]
    · simp [hq.step_eq]
    · intro h
      rw [List.length_append, List.length_singleton] at h
      omega

section

variable {P : SchedulingPolicy (Shipped ρ)} {R : RandomSource ρ}

/-- A step logs at most one choice, one the log can hold. -/
theorem LoopState.choiceLog_step {s : LoopState (Shipped ρ) κ ε ρ}
    (hgrow : (s.step (shipped R)).2.ready.length ≤ maxChoice + 1) :
    (s.step (shipped R)).2.choiceLog = s.choiceLog ∨
      ∃ i ≤ maxChoice, (s.step (shipped R)).2.choiceLog = s.choiceLog ++ [i] := by
  obtain ⟨-, hlog⟩ := readied_keeps s
  rcases hreadied : s.readied with ⟨_ | e, t⟩
  · rw [hreadied] at hlog
    rw [step_of_readied hreadied] at hgrow ⊢
    obtain ⟨i, p, e, -, -, hmax, hdraw⟩ :=
      draw_of_inRange (shipped_inRange R) (ready_ne_nil_of_readied hreadied) hgrow
    refine .inr ⟨i, hmax, ?_⟩
    rw [hdraw, choiceLog_pop]
    exact congrArg (· ++ [i]) hlog
  · rw [hreadied] at hlog
    rw [step_of_readied_error hreadied]
    exact .inl hlog

/-- A step of the recorded run and the same step of its replay. -/
theorem LoopState.step_replay {s : LoopState (Shipped ρ) κ ε ρ} {q : ScriptedPolicy}
    {choices : List Nat} (hq : Follows q choices s.choiceLog)
    (hgrow : (s.step (shipped R)).2.ready.length ≤ maxChoice + 1)
    (hrec : Records choices (s.step (shipped R)).2.choiceLog) :
    ∃ q', Follows q' choices (s.step (shipped R)).2.choiceLog ∧
      (s.rebase (.scripted q) s.choiceLog).step (shipped R) =
        ((s.step (shipped R)).1,
          (s.step (shipped R)).2.rebase (.scripted q') (s.step (shipped R)).2.choiceLog) := by
  have hreadied' := readied_rebase s (.scripted q) s.choiceLog
  obtain ⟨-, hlog⟩ := readied_keeps s
  rcases hreadied : s.readied with ⟨_ | e, t⟩
  · rw [hreadied] at hreadied' hlog
    rw [step_of_readied hreadied] at hgrow hrec ⊢
    rw [step_of_readied hreadied']
    obtain ⟨i, p, e, hi, -, hmax, hdraw⟩ :=
      draw_of_inRange (shipped_inRange R) (ready_ne_nil_of_readied hreadied) hgrow
    have hlen : i < t.readyViews.length := by
      rw [readyViews_length]
      exact (List.getElem?_eq_some_iff.mp hi).1
    rw [hdraw] at hrec ⊢
    have hpop : ((t.rebase p t.choiceLog).pop i).2.choiceLog = s.choiceLog ++ [i] := by
      rw [choiceLog_pop]
      exact congrArg (· ++ [i]) hlog
    rw [hpop] at hrec ⊢
    obtain ⟨q', hchoose, hq'⟩ := hq.choose hrec hlen
    refine ⟨q', hq', ?_⟩
    have hshipped : (shipped R).choose (Shipped.scripted q) t.readyViews =
        (.ok (i : Int), .scripted q') := by
      simp only [shipped, hchoose]
    -- Both draws are the same pop, each under its own policy.
    have hreplayed : (t.rebase (Shipped.scripted q) s.choiceLog).draw (shipped R) =
        (t.rebase (.scripted q') s.choiceLog).pop i := by
      unfold draw
      rw [show (t.rebase (Shipped.scripted q) s.choiceLog).policy = .scripted q from rfl,
        show (t.rebase (Shipped.scripted q) s.choiceLog).readyViews = t.readyViews from rfl,
        hshipped]
      dsimp only
      rw [if_neg (by omega), if_neg (by omega), Int.toNat_natCast]
      rfl
    rw [hreplayed, pop_rebase, pop_rebase]
    rfl
  · rw [hreadied] at hreadied' hlog
    rw [step_of_readied_error hreadied] at hrec ⊢
    rw [step_of_readied_error hreadied']
    dsimp only at hlog ⊢
    rw [hlog]
    exact ⟨q, hq, rfl⟩

namespace Session

variable {W : Workload ω κ ε υ} {s : Session (Shipped ρ) ω κ ε υ ρ}

theorem choiceLog_turn (s : Session (Shipped ρ) ω κ ε υ ρ) :
    (s.turn (shipped R) R W).loop.choiceLog = s.loop.choiceLog := by
  have h := turn_rebase (shipped R) R W s s.loop.policy s.loop.choiceLog
  rw [rebase_self] at h
  exact (congrArg (fun t => t.loop.choiceLog) h).trans rfl

theorem choiceLog_afterStep (s : Session (Shipped ρ) ω κ ε υ ρ)
    (outcome : LoopState.StepOutcome (Body κ)) :
    (s.afterStep (shipped R) R W outcome).loop.choiceLog = s.loop.choiceLog := by
  have h := afterStep_rebase (shipped R) R W s s.loop.policy s.loop.choiceLog outcome
  rw [rebase_self] at h
  exact (congrArg (fun t => t.loop.choiceLog) h).trans rfl

theorem ready_afterStep (s : Session (Shipped ρ) ω κ ε υ ρ)
    (outcome : LoopState.StepOutcome (Body κ)) :
    (s.afterStep (shipped R) R W outcome).loop.ready = s.loop.ready := by
  cases outcome with
  | raised e => rfl
  | skipped e => rfl
  | run e =>
      simp only [afterStep, beginHandle]
      split <;> rfl

/-- A tick logs at most one choice, one the log can hold. -/
theorem choiceLog_tick (hgrow : (s.tick (shipped R) R W).loop.ready.length ≤ maxChoice + 1) :
    (s.tick (shipped R) R W).loop.choiceLog = s.loop.choiceLog ∨
      ∃ i ≤ maxChoice, (s.tick (shipped R) R W).loop.choiceLog = s.loop.choiceLog ++ [i] := by
  unfold tick at hgrow ⊢
  split
  · rename_i hw
    rw [if_pos hw] at hgrow
    dsimp only at hgrow ⊢
    rw [ready_afterStep] at hgrow
    rw [choiceLog_afterStep]
    exact LoopState.choiceLog_step hgrow
  · exact .inl (choiceLog_turn s)

/-- A tick of the recorded session and the same tick of its replay. -/
theorem tick_replay {q : ScriptedPolicy} {choices : List Nat}
    (hq : Follows q choices s.loop.choiceLog)
    (hgrow : (s.tick (shipped R) R W).loop.ready.length ≤ maxChoice + 1)
    (hrec : Records choices (s.tick (shipped R) R W).loop.choiceLog) :
    ∃ q', Follows q' choices (s.tick (shipped R) R W).loop.choiceLog ∧
      (s.rebase (.scripted q) s.loop.choiceLog).tick (shipped R) R W =
        (s.tick (shipped R) R W).rebase (.scripted q')
          (s.tick (shipped R) R W).loop.choiceLog := by
  have hwants : (s.rebase (.scripted q) s.loop.choiceLog).wantsStep = s.wantsStep := rfl
  by_cases hw : s.wantsStep
  · have htick : s.tick (shipped R) R W =
        ({ s with loop := (s.loop.step (shipped R)).2 } : Session _ _ _ _ _ _).afterStep
          (shipped R) R W (s.loop.step (shipped R)).1 := by
      unfold tick
      rw [if_pos hw]
    have htick' : (s.rebase (.scripted q) s.loop.choiceLog).tick (shipped R) R W =
        ({ s with
          loop := ((s.loop.rebase (.scripted q) s.loop.choiceLog).step (shipped R)).2 } :
            Session _ _ _ _ _ _).afterStep (shipped R) R W
          ((s.loop.rebase (.scripted q) s.loop.choiceLog).step (shipped R)).1 := by
      unfold tick
      rw [if_pos (hwants.trans hw)]
      rfl
    rw [htick, ready_afterStep] at hgrow
    rw [htick, choiceLog_afterStep] at hrec
    obtain ⟨q', hq', hstep⟩ := LoopState.step_replay hq hgrow hrec
    refine ⟨q', ?_, ?_⟩
    · rw [htick, choiceLog_afterStep]
      exact hq'
    · rw [htick', hstep, htick, choiceLog_afterStep]
      exact afterStep_rebase (shipped R) R W
        ({ s with loop := (s.loop.step (shipped R)).2 } : Session _ _ _ _ _ _) (.scripted q') _ _
  · have htick : s.tick (shipped R) R W = s.turn (shipped R) R W := by
      unfold tick
      rw [if_neg hw]
    have htick' : (s.rebase (.scripted q) s.loop.choiceLog).tick (shipped R) R W =
        (s.rebase (.scripted q) s.loop.choiceLog).turn (shipped R) R W := by
      unfold tick
      rw [if_neg (by rw [hwants]; exact hw)]
    rw [htick', htick, choiceLog_turn]
    exact ⟨q, hq, turn_rebase (shipped R) R W s (.scripted q) s.loop.choiceLog⟩

/-! ## Whole runs -/

/-- The same session under another policy. -/
def withPolicy (s : Session (Shipped ρ) ω κ ε υ ρ) (p : Shipped ρ) :
    Session (Shipped ρ) ω κ ε υ ρ :=
  { s with loop := { s.loop with policy := p } }

variable (R W)

/-- The `i`-th state of a program run on a loop. -/
def runOn (loop : LoopState (Shipped ρ) (Body κ) ε ρ) (world : ω) (i : Nat) :
    Session (Shipped ρ) ω κ ε υ ρ :=
  after (shipped R) R W (start loop world) i

end Session

open Session

variable {W : Workload ω κ ε υ} {world : ω} {loop : LoopState (Shipped ρ) (Body κ) ε ρ} {n : Nat}

/-- The log only grows, by choices it can hold. -/
theorem choiceLog_runOn (hgrow : ∀ i ≤ n, (runOn R W loop world i).loop.ready.length ≤ maxChoice + 1)
    {i : Nat} (hi : i ≤ n) :
    (runOn R W loop world i).loop.choiceLog <+: (runOn R W loop world n).loop.choiceLog := by
  induction n with
  | zero =>
      obtain rfl : i = 0 := by omega
      exact List.prefix_refl _
  | succ n ih =>
      rcases Nat.lt_or_ge i (n + 1) with hlt | hge
      · refine (ih (fun j hj => hgrow j (by omega)) (by omega)).trans ?_
        have htick := choiceLog_tick (R := R) (W := W) (s := runOn R W loop world n)
          (hgrow (n + 1) (le_refl _))
        rcases htick with h | ⟨c, -, h⟩
        · exact h ▸ List.prefix_refl _
        · exact h ▸ List.prefix_append _ _
      · obtain rfl : i = n + 1 := by omega
        exact List.prefix_refl _

theorem choiceLog_runOn_le (hlog : loop.choiceLog = [])
    (hgrow : ∀ i ≤ n, (runOn R W loop world i).loop.ready.length ≤ maxChoice + 1) :
    ∀ c ∈ (runOn R W loop world n).loop.choiceLog, c ≤ maxChoice := by
  induction n with
  | zero =>
      intro c hc
      rw [show (runOn R W loop world 0).loop.choiceLog = loop.choiceLog from rfl, hlog] at hc
      exact absurd hc List.not_mem_nil
  | succ n ih =>
      intro c hc
      have htick := choiceLog_tick (R := R) (W := W) (s := runOn R W loop world n)
        (hgrow (n + 1) (le_refl _))
      have hold := ih (fun j hj => hgrow j (by omega)) c
      rcases htick with h | ⟨d, hd, h⟩
      · exact hold (h ▸ hc)
      · have hc : c ∈ (runOn R W loop world n).loop.choiceLog ++ [d] := h ▸ hc
        rcases List.mem_append.mp hc with hc | hc
        · exact hold hc
        · rw [List.mem_singleton.mp hc]
          exact hd

/-- A list of choices that records the log of a run replays it, state by state. -/
theorem replay_of_records {seed : Int} {policy : Shipped ρ} {choices : List Nat}
    (hchoices : ∀ c ∈ choices, c ≤ maxChoice)
    (hgrow : ∀ i ≤ n, (runOn R W (LoopState.fresh R policy seed) world i).loop.ready.length ≤
      maxChoice + 1)
    (hrec : Records choices (runOn R W (LoopState.fresh R policy seed) world n).loop.choiceLog) :
    ∃ replay, LoopState.fromChoices R (choices.map Int.ofNat) seed = .ok replay ∧
      ∀ i ≤ n, ∃ q,
        runOn R W replay world i =
          (runOn R W (LoopState.fresh R policy seed) world i).withPolicy (.scripted q) ∧
        Follows q choices
          (runOn R W (LoopState.fresh R policy seed) world i).loop.choiceLog := by
  refine ⟨LoopState.fresh R (.scripted ⟨choices, 0, none, hchoices⟩) seed, ?_, ?_⟩
  · simp only [LoopState.fromChoices, ScriptedPolicy.init_natCast hchoices]
    rfl
  · intro i
    induction i with
    | zero =>
        intro _
        exact ⟨⟨choices, 0, none, hchoices⟩, rfl, ⟨rfl, rfl, fun _ => rfl⟩⟩
    | succ i ih =>
        intro hi
        obtain ⟨q, heq, hq⟩ := ih (by omega)
        have hpre := choiceLog_runOn hgrow hi
        obtain ⟨q', hq', htick⟩ := tick_replay (R := R) (W := W)
          (s := runOn R W (LoopState.fresh R policy seed) world i) hq (hgrow (i + 1) hi)
          (hrec.of_prefix hpre)
        refine ⟨q', ?_, hq'⟩
        rw [show runOn R W (LoopState.fresh R (.scripted ⟨choices, 0, none, hchoices⟩) seed) world
          (i + 1) = tick (shipped R) R W (runOn R W (LoopState.fresh R
            (.scripted ⟨choices, 0, none, hchoices⟩) seed) world i) from rfl, heq]
        exact htick

theorem records_append_zeros (c : List Nat) (k : Nat) : Records (c ++ List.replicate k 0) c := by
  intro j x hj
  rw [List.getD_eq_getElem?_getD,
    List.getElem?_append_left (List.getElem?_eq_some_iff.mp hj).1, hj]
  rfl

theorem records_drop_zeros (c : List Nat) (k : Nat) : Records c (c ++ List.replicate k 0) := by
  intro j x hj
  rw [List.getD_eq_getElem?_getD]
  by_cases hlt : j < c.length
  · rw [List.getElem?_append_left hlt] at hj
    rw [hj]
    rfl
  · rw [List.getElem?_append_right (by omega)] at hj
    rw [List.getElem?_eq_none (by omega)]
    exact (List.eq_of_mem_replicate (List.mem_of_getElem? hj)).symm

/-- **Faithful replay.**  Let a program run for `n` ticks on a loop of some seed under
any state of a seeded, scripted or PCT policy, and let `c` be the choice log it leaves
(no tick letting the ready list outgrow what the log can index, which the loop
asserts).  The loop `_from_choices(c, seed)` exists and goes through the same states,
its policy excepted: at every tick the scripted policy has consumed exactly what the
original logged, and `diverged_at` is still `None`.  With zeros appended to `c`, or
trailing zeros of `c` removed, it goes through the same states as well. -/
theorem faithful_replay (R : RandomSource ρ) (W : Workload ω κ ε υ) (world : ω) (seed : Int)
    (policy : Shipped ρ) (n : Nat)
    (hgrow : ∀ i ≤ n, (runOn R W (LoopState.fresh R policy seed) world i).loop.ready.length ≤
      maxChoice + 1) :
    let original := runOn R W (LoopState.fresh R policy seed) world
    let c := (original n).loop.choiceLog
    (∃ replay, LoopState.fromChoices R (c.map Int.ofNat) seed = .ok replay ∧
      ∀ i ≤ n, ∃ q : ScriptedPolicy,
        runOn R W replay world i = (original i).withPolicy (.scripted q) ∧
        q.choices = c ∧ q.step = (original i).loop.choiceLog.length ∧ q.divergedAt = none) ∧
    ∀ c', (∃ k, c' = c ++ List.replicate k 0 ∨ c = c' ++ List.replicate k 0) →
      ∃ replay, LoopState.fromChoices R (c'.map Int.ofNat) seed = .ok replay ∧
        ∀ i ≤ n, ∃ q : ScriptedPolicy,
          runOn R W replay world i = (original i).withPolicy (.scripted q) := by
  intro original c
  have hc : ∀ x ∈ c, x ≤ maxChoice := choiceLog_runOn_le rfl hgrow
  constructor
  · obtain ⟨replay, hreplay, hstates⟩ := replay_of_records hc hgrow
      (by simpa using records_append_zeros c 0)
    refine ⟨replay, hreplay, fun i hi => ?_⟩
    obtain ⟨q, heq, hq⟩ := hstates i hi
    exact ⟨q, heq, hq.choices_eq, hq.step_eq, hq.faithful (choiceLog_runOn hgrow hi).length_le⟩
  · rintro c' ⟨k, hk⟩
    have hrec : Records c' c := by
      rcases hk with rfl | hk
      · exact records_append_zeros c k
      · rw [hk]
        exact records_drop_zeros c' k
    have hc' : ∀ x ∈ c', x ≤ maxChoice := by
      rcases hk with rfl | hk
      · intro x hx
        rcases List.mem_append.mp hx with hx | hx
        · exact hc x hx
        · rw [List.eq_of_mem_replicate hx]
          exact Nat.zero_le _
      · exact fun x hx => hc x (hk ▸ List.mem_append_left _ hx)
    obtain ⟨replay, hreplay, hstates⟩ := replay_of_records hc' hgrow hrec
    exact ⟨replay, hreplay, fun i hi => (hstates i hi).imp fun q h => h.1⟩

end

/-- Two callbacks are queued and the loop is run until neither is left. -/
def twoCallbacks : Workload Nat Unit Unit Unit :=
  .scripted [.call ⟨.callSoon ⟨some "first", "function", none, .user ()⟩ none, rfl⟩,
    .call ⟨.callSoon ⟨some "second", "function", none, .user ()⟩ none, rfl⟩, .runForever]

/-- A policy that runs the second of two callbacks first. -/
def lastFirst : Shipped Unit := .scripted ⟨[1], 0, none, by decide⟩

theorem faithful_replay_twoCallbacks :
    let original := Session.runOn .least twoCallbacks (LoopState.fresh .least lastFirst 0) 0
    (original 12).loop.choiceLog = [1, 0] ∧
      ∃ replay, LoopState.fromChoices .least
          ((original 12).loop.choiceLog.map Int.ofNat) 0 = .ok replay ∧
        ∀ i ≤ 12, ∃ q : ScriptedPolicy,
          Session.runOn .least twoCallbacks replay 0 i = (original i).withPolicy (.scripted q) ∧
          q.choices = (original 12).loop.choiceLog ∧
          q.step = (original i).loop.choiceLog.length ∧ q.divergedAt = none :=
  ⟨by decide +kernel,
    (faithful_replay .least twoCallbacks 0 0 lastFirst 12 (by decide +kernel)).1⟩

end SimLoop.Loop
