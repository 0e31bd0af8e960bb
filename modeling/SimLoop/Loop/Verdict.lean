/-
  Loop/Verdict.lean --- what `run_until_complete` says about a run that stalls.

  A call of `run_until_complete` is followed through its frames: `run_forever`, the
  cancellation of the future, the drain, the garbage collection and the verdict.
-/
import SimLoop.Loop.Agenda
import SimLoop.Loop.Discipline
import Mathlib.Order.Basic

set_option autoImplicit false

namespace SimLoop.Loop

open SimLoop.Foundation SimLoop.Policy

variable {π ω κ ε υ ρ : Type}

/-! ## A stalled call -/

/-- A step raises a deadlock only with nothing ready and every timer cancelled. -/
theorem LoopState.step_deadlock {P : SchedulingPolicy π} {s t : LoopState π κ ε ρ}
    {e : LoopError} (h : s.step P = (.raised e, t)) (he : e.isDeadlock = true) :
    s.ready = [] ∧ ∀ timer ∈ s.timers, timer.seq ∈ s.cancelled := by
  have drawn : ∀ u : LoopState π κ ε ρ, u.draw P = (.raised e, t) → False := by
    intro u hu
    unfold draw at hu
    split at hu
    · obtain rfl := StepOutcome.raised.inj (Prod.mk.inj hu).1
      cases he
    · dsimp only at hu
      split at hu
      · obtain rfl := StepOutcome.raised.inj (Prod.mk.inj hu).1
        cases he
      · split at hu
        · obtain rfl := StepOutcome.raised.inj (Prod.mk.inj hu).1
          cases he
        · rename_i index p hchoose hmax hneg
          cases hi : u.ready[index.toNat]? with
          | none =>
              rw [pop_eq_of_none (s := { u with policy := p }) hi] at hu
              obtain rfl := StepOutcome.raised.inj (Prod.mk.inj hu).1
              cases he
          | some x =>
              rw [pop_eq_of_some (s := { u with policy := p }) hi] at hu
              have := (Prod.mk.inj hu).1
              split at this <;> cases this
  unfold step at h
  split at h
  · rename_i hr
    refine ⟨List.isEmpty_iff.mp hr, ?_⟩
    cases hn : s.nextTimer with
    | none => exact nextTimer_eq_none_iff.mp hn
    | some timer =>
        obtain ⟨hnone, -, -⟩ := advanceClock_some hn
        split at h
        · rename_i e' u hu
          rw [hu] at hnone
          cases hnone
        · exact (drawn _ h).elim
  · exact (drawn _ h).elim

namespace Session

/-- Nothing is left that could complete `f`: one of the two loops of the call is about
to test its condition, `f` is not done, nothing is ready, and no timer is live. -/
def Stalled (f : FutId) (B : List (Frame ε)) (s : Session π ω κ ε υ ρ) : Prop :=
  (s.stack = .forever :: .untilComplete f :: B ∨ s.stack = .drain f :: B) ∧
    s.signal = .run ∧ s.done f = false ∧ s.loop.ready = [] ∧
    ∀ t ∈ s.loop.timers, t.seq ∈ s.loop.cancelled

/-- The call is past `run_forever` with its future not done: it cancels the future,
drains the loop or collects garbage, whatever code runs above it. -/
def Unwinding (f : FutId) (B : List (Frame ε)) (s : Session π ω κ ε υ ρ) : Prop :=
  ∃ top fr, s.stack = top ++ fr :: B ∧
    (fr = .cancelling f ∨ fr = .drain f ∨ fr = .collecting f false)

/-- `fut.cancel()` is entered. -/
def AskedToCancel (f : FutId) (B : List (Frame ε)) (s : Session π ω κ ε υ ρ) : Prop :=
  s.stack = .code :: .cancelling f :: B

/-- What is asked of a step of the call:

* `live`, `live_drain`: the loop does not take a step to which only cancelled timers are
  left (in the drain: unless nothing was collected);
* `not_stopped`: `run_forever` is not left through `stop()` before the future is done;
* `quiet`: no exception is collected while the call unwinds;
* `contained`: no exception escapes from `fut.cancel()` or from a step of the drain. -/
structure Undisturbed (f : FutId) (B : List (Frame ε)) (s s' : Session π ω κ ε υ ρ) : Prop where
  live : s.stack = .forever :: .untilComplete f :: B → s.signal = .run →
    s.loop.stopping = false → s.loop.ready = [] → s.loop.timers ≠ [] →
    ∃ t ∈ s.loop.timers, t.seq ∉ s.loop.cancelled
  live_drain : s.stack = .drain f :: B → s.signal = .run → s.done f = false →
    s.loop.ready = [] → s.loop.timers ≠ [] → s.loop.unhandled ≠ [] →
    ∃ t ∈ s.loop.timers, t.seq ∉ s.loop.cancelled
  not_stopped : s.stack = .forever :: .untilComplete f :: B → s.signal = .run →
    s.loop.stopping = true → s.done f = true
  quiet : Unwinding f B s → s'.loop.unhandled = s.loop.unhandled
  contained : s.stack = .cancelling f :: B ∨ s.stack = .drain f :: B →
    ∀ e, s.signal = .raised e → e = .loop LoopState.noTimersError

/-- The verdict on a call that ran from state `m` to state `N` of a session: it raises
`SimulationDeadlockError` exactly when it stalled with nothing collected; when it stalled
with collected exceptions it raises the first of them; and when it stalled, the future
was asked to cancel. -/
def VerdictExact (σ : Nat → Session π ω κ ε υ ρ) (m N : Nat) (f : FutId)
    (B : List (Frame ε)) : Prop :=
  ((∃ e : LoopError, (σ N).signal = .raised (.loop e) ∧ e.isDeadlock = true) ↔
    ∃ j, m ≤ j ∧ j < N ∧ Stalled f B (σ j) ∧ (σ j).loop.unhandled = []) ∧
  (∀ j, m ≤ j → j < N → Stalled f B (σ j) → ∀ e es, (σ j).loop.unhandled = e :: es →
    (σ N).signal = .raised (.user e)) ∧
  (∀ j, m ≤ j → j < N → Stalled f B (σ j) → ∃ k, m ≤ k ∧ k ≤ N ∧ AskedToCancel f B (σ k))

/-! ## The phases of a call -/

section

variable (σ : Nat → Session π ω κ ε υ ρ) (m : Nat) (f : FutId) (B : List (Frame ε))

/-- The call has not stalled before state `i`. -/
def NotYet (i : Nat) : Prop := ∀ j, m ≤ j → j < i → ¬ Stalled f B (σ j)

/-- The call stalled before state `i`, always with `u` collected, which still is. -/
structure Stuck (i : Nat) (u : List ε) : Prop where
  seen : ∃ j, m ≤ j ∧ j < i ∧ Stalled f B (σ j)
  same : ∀ j, m ≤ j → j < i → Stalled f B (σ j) → (σ j).loop.unhandled = u
  now : (σ i).loop.unhandled = u

/-- The future was asked to cancel at or before state `i`. -/
def Asked (i : Nat) : Prop := ∃ k, m ≤ k ∧ k ≤ i ∧ AskedToCancel f B (σ k)

/-- A signal that carries no deadlock. -/
def NoDeadlock (signal : Signal ε υ) : Prop :=
  ∀ e : LoopError, signal = .raised (.loop e) → e.isDeadlock = false

/-- Where a call is, and what it has been through. -/
inductive Phase (i : Nat) : Prop
  | running (top : List (Frame ε)) (hs : (σ i).stack = top ++ .forever :: .untilComplete f :: B)
      (hsig : top = [] → NoDeadlock (σ i).signal) (hno : NotYet σ m f B i)
  | failed (e : Failure ε) (hs : (σ i).stack = .untilComplete f :: B)
      (hraised : (σ i).signal = .raised e) (hsig : NoDeadlock (σ i).signal)
      (hno : NotYet σ m f B i)
  | finished (v : Option υ) (hs : (σ i).stack = .untilComplete f :: B)
      (hsig : (σ i).signal = .returned v) (hdone : (σ i).done f = true) (hno : NotYet σ m f B i)
  | stalled (v : Option υ) (u : List ε) (hs : (σ i).stack = .untilComplete f :: B)
      (hsig : (σ i).signal = .returned v) (hdone : (σ i).done f = false)
      (hstuck : Stuck σ m f B i u)
  | judged (top : List (Frame ε)) (hs : (σ i).stack = top ++ .collecting f true :: B)
      (hno : NotYet σ m f B i)
  | cancelling (top : List (Frame ε)) (u : List ε)
      (hs : (σ i).stack = top ++ .cancelling f :: B) (hstuck : Stuck σ m f B i u)
      (hasked : Asked σ m f B i)
  | draining (top : List (Frame ε)) (u : List ε) (hs : (σ i).stack = top ++ .drain f :: B)
      (hsig : top = [] → u ≠ [] → NoDeadlock (σ i).signal) (hstuck : Stuck σ m f B i u)
      (hasked : Asked σ m f B i)
  | condemned (top : List (Frame ε)) (u : List ε)
      (hs : (σ i).stack = top ++ .collecting f false :: B) (hstuck : Stuck σ m f B i u)
      (hasked : Asked σ m f B i)
  | clear (hs : (σ i).stack = B) (hsig : NoDeadlock (σ i).signal) (hno : NotYet σ m f B i)
  | stuck (u : List ε) (hs : (σ i).stack = B) (hstuck : Stuck σ m f B i u)
      (hasked : Asked σ m f B i)
      (hnil : u = [] → ∃ e : LoopError, (σ i).signal = .raised (.loop e) ∧ e.isDeadlock = true)
      (hcons : ∀ e es, u = e :: es → (σ i).signal = .raised (.user e))

end

section

variable {P : SchedulingPolicy π} {R : RandomSource ρ} {W : Workload ω κ ε υ}
variable {σ : Nat → Session π ω κ ε υ ρ} {m : Nat} {f : FutId} {B : List (Frame ε)} {i : Nat}

theorem NotYet.succ (h : NotYet σ m f B i) (hi : ¬ Stalled f B (σ i)) :
    NotYet σ m f B (i + 1) := by
  intro j hm hj
  rcases Nat.lt_succ_iff_lt_or_eq.mp hj with hj | rfl
  · exact h j hm hj
  · exact hi

theorem Stuck.succ {u : List ε} (h : Stuck σ m f B i u)
    (hsame : (σ (i + 1)).loop.unhandled = (σ i).loop.unhandled) :
    Stuck σ m f B (i + 1) u where
  seen := h.seen.imp fun j hj => ⟨hj.1, by omega, hj.2.2⟩
  same := by
    intro j hm hj hst
    rcases Nat.lt_succ_iff_lt_or_eq.mp hj with hj | rfl
    · exact h.same j hm hj hst
    · exact h.now
  now := hsame.trans h.now

theorem Asked.succ (h : Asked σ m f B i) : Asked σ m f B (i + 1) :=
  h.imp fun _ hk => ⟨hk.1, by omega, hk.2.2⟩

/-- A stalled call has only its own frames above the frame it returns to. -/
theorem Stalled.stack_eq {s : Session π ω κ ε υ ρ} (h : Stalled f B s) {T : List (Frame ε)}
    {fr : Frame ε} (hs : s.stack = T ++ fr :: B) :
    (T = [.forever] ∧ fr = .untilComplete f) ∨ (T = [] ∧ fr = .drain f) := by
  rcases h.1 with hst | hst
  · obtain ⟨htop, hfr⟩ := List.append_inj' (hs.symm.trans
      (show s.stack = [.forever] ++ .untilComplete f :: B from hst)) rfl
    exact .inl ⟨htop, (List.cons.inj hfr).1⟩
  · obtain ⟨htop, hfr⟩ := List.append_inj' (hs.symm.trans
      (show s.stack = [] ++ .drain f :: B from hst)) rfl
    exact .inr ⟨htop, (List.cons.inj hfr).1⟩

theorem Stuck.succ_of_unwinding {u : List ε} (h : Stuck σ m f B i u)
    (hu : Undisturbed f B (σ i) (σ (i + 1))) {T : List (Frame ε)} {fr : Frame ε}
    (hs : (σ i).stack = T ++ fr :: B)
    (hfr : fr = .cancelling f ∨ fr = .drain f ∨ fr = .collecting f false) :
    Stuck σ m f B (i + 1) u :=
  h.succ (hu.quiet ⟨T, fr, hs, hfr⟩)

/-- A tick with frames above the frame `fr` of the call leaves `fr` where it is. -/
theorem stack_above (hd : (σ i).Disciplined) (hσ : σ (i + 1) = (σ i).tick P R W)
    {x : Frame ε} {top rest : List (Frame ε)} (hs : (σ i).stack = (x :: top) ++ rest) :
    ∃ top', (σ (i + 1)).stack = top' ++ top ++ rest := by
  obtain ⟨⟨top', h⟩, -⟩ := leads_tick (P := P) (R := R) (W := W) hd
    (show (σ i).stack = x :: (top ++ rest) from hs)
  exact ⟨top', by rw [hσ, h, List.append_assoc]⟩

/-- What comes back to one of the two loops from the callback it runs is no exception of
a loop. -/
theorem noDeadlock_above (hd : (σ i).Disciplined) (hσ : σ (i + 1) = (σ i).tick P R W)
    {x fr : Frame ε} {rest : List (Frame ε)} (hs : (σ i).stack = x :: fr :: rest)
    (hfr : fr = .forever ∨ ∃ g, fr = .drain g) : NoDeadlock (σ (i + 1)).signal := by
  have hwait : x.waitsOn fr := (List.isChain_cons.mp (hs ▸ hd.1)).1 fr (by simp)
  have hx : x = .code ∨ (∃ c, x = .handle c) ∨ ∃ e, x = .handler e := by
    rcases hfr with rfl | ⟨g, rfl⟩ <;> cases x <;> simp_all [Frame.waitsOn]
  intro e he
  exact absurd he (hσ ▸ tick_raises_user hd hs hx e)

/-- What follows a step of the loop frame `fr`: the step raised, or the frame goes on,
or a callback runs above it. -/
theorem afterStep_stack (s : Session π ω κ ε υ ρ) (outcome : LoopState.StepOutcome (Body κ)) :
    (∃ e, outcome = .raised e ∧ (s.afterStep P R W outcome).stack = s.stack ∧
      (s.afterStep P R W outcome).signal = .raised (.loop e)) ∨
    ((s.afterStep P R W outcome).stack = s.stack ∧
      ((s.afterStep P R W outcome).signal = s.signal ∨
        ∃ v, (s.afterStep P R W outcome).signal = .returned v)) ∨
    ∃ c, (s.afterStep P R W outcome).stack = [.code, .handle c] ++ s.stack := by
  cases outcome with
  | raised e => exact .inl ⟨e, rfl, rfl, rfl⟩
  | skipped x => exact .inr (.inl ⟨rfl, .inl rfl⟩)
  | run x =>
      simp only [afterStep, beginHandle]
      split
      · exact .inr (.inl ⟨rfl, .inr ⟨none, rfl⟩⟩)
      · exact .inr (.inr ⟨_, rfl⟩)

/-- A tick of a session that asks for no step. -/
theorem tick_eq_turn (hσ : σ (i + 1) = (σ i).tick P R W) (hw : (σ i).wantsStep ≠ true) :
    σ (i + 1) = (σ i).turn P R W := by
  rw [hσ, tick, if_neg hw]

/-- Only a frame given control asks for a step. -/
theorem wantsStep_ne_of_signal {s : Session π ω κ ε υ ρ} (h : s.signal ≠ .run) :
    s.wantsStep ≠ true :=
  fun hw => h (wantsStep_iff.mp hw).1

/-- Only the two loops ask for a step. -/
theorem wantsStep_ne_of_stack {s : Session π ω κ ε υ ρ} {fr : Frame ε} {rest : List (Frame ε)}
    (h : s.stack = fr :: rest) (hforever : fr ≠ .forever) (hdrain : ∀ g, fr ≠ .drain g) :
    s.wantsStep ≠ true := by
  intro hw
  obtain ⟨-, -, ⟨_, hs, -⟩ | ⟨g, _, hs, -⟩⟩ := wantsStep_iff.mp hw
  · exact hforever (List.cons.inj (h.symm.trans hs)).1
  · exact hdrain g (List.cons.inj (h.symm.trans hs)).1

/-- From the loop of `run_forever`. -/
theorem Phase.succ_running (hm : m ≤ i) (hσ : σ (i + 1) = (σ i).tick P R W)
    (hu : Undisturbed f B (σ i) (σ (i + 1)))
    (hs : (σ i).stack = .forever :: .untilComplete f :: B)
    (hsig : NoDeadlock (σ i).signal) (hno : NotYet σ m f B i) : Phase σ m f B (i + 1) := by
  cases hrun : (σ i).signal with
  | run =>
      by_cases hw : (σ i).wantsStep = true
      · obtain ⟨-, hwork, hloop⟩ := wantsStep_iff.mp hw
        have hstop : (σ i).loop.stopping = false := by
          rcases hloop with ⟨_, _, h⟩ | ⟨_, _, h, _⟩
          · exact h
          · rw [hs] at h
            cases h
        have hlive : (σ i).loop.ready = [] →
            ¬ ∀ t ∈ (σ i).loop.timers, t.seq ∈ (σ i).loop.cancelled := by
          intro hr hall
          obtain ⟨t, ht, hlive⟩ := hu.live hs hrun hstop hr
            (hwork.resolve_left (fun h => h hr))
          exact hlive (hall t ht)
        have hnot : ¬ Stalled f B (σ i) := fun h => hlive h.2.2.2.1 h.2.2.2.2
        have htick : σ (i + 1) = ({ σ i with loop := ((σ i).loop.step P).2 } :
            Session π ω κ ε υ ρ).afterStep P R W ((σ i).loop.step P).1 := by
          rw [hσ, tick, if_pos hw]
        have hcases := afterStep_stack (P := P) (R := R) (W := W)
          ({ σ i with loop := ((σ i).loop.step P).2 }) ((σ i).loop.step P).1
        rw [← htick] at hcases
        rcases hcases with ⟨e, he, hst, hsg⟩ | ⟨hst, hsg⟩ | ⟨c, hst⟩
        · refine .running [] (hst.trans hs) (fun _ e' he' => ?_) (hno.succ hnot)
          obtain rfl : e = e' := by
            rw [hsg] at he'
            simpa using he'
          by_contra hdead
          obtain ⟨hr, hall⟩ := LoopState.step_deadlock (P := P) (s := (σ i).loop)
            (Prod.ext he rfl) (by simpa using hdead)
          exact hlive hr hall
        · refine .running [] (hst.trans hs) (fun _ e' he' => ?_) (hno.succ hnot)
          rcases hsg with hsg | ⟨v, hsg⟩
          · rw [hsg] at he'
            exact hsig e' he'
          · rw [hsg] at he'
            cases he'
        · exact .running [.code, .handle c] (by rw [hst]; exact congrArg _ hs)
            (fun h => by simp at h) (hno.succ hnot)
      · have htick : σ (i + 1) =
            ((σ i).op P R .leaveRun).2.returnTo (.untilComplete f :: B) none := by
          rw [tick_eq_turn hσ hw]
          simp only [turn, hs, hrun]
        by_cases hdone : (σ i).done f = true
        · refine .finished none (by rw [htick]; rfl) (by rw [htick]; rfl) (by rw [htick]; exact hdone)
            (hno.succ fun h => ?_)
          rw [h.2.2.1] at hdone
          cases hdone
        · have hdone : (σ i).done f = false := by simpa using hdone
          have hstop : (σ i).loop.stopping = false := by
            by_contra h
            rw [hu.not_stopped hs hrun (by simpa using h)] at hdone
            cases hdone
          have hidle : (σ i).loop.ready = [] ∧ (σ i).loop.timers = [] := by
            by_contra h
            refine hw (wantsStep_iff.mpr ⟨hrun, ?_, .inl ⟨_, hs, hstop⟩⟩)
            rw [not_and_or] at h
            exact h
          have hstalled : Stalled f B (σ i) :=
            ⟨.inl hs, hrun, hdone, hidle.1, by rw [hidle.2]; simp⟩
          refine .stalled none (σ i).loop.unhandled (by rw [htick]; rfl) (by rw [htick]; rfl)
            (by rw [htick]; exact hdone) ⟨⟨i, hm, by omega, hstalled⟩, ?_, by rw [htick]; rfl⟩
          intro j hmj hj hst
          rcases Nat.lt_succ_iff_lt_or_eq.mp hj with hj | rfl
          · exact absurd hst (hno j hmj hj)
          · rfl
  | returned v =>
      have hne : (σ i).signal ≠ .run := by simp [hrun]
      have htick := tick_eq_turn hσ (wantsStep_ne_of_signal hne)
      simp only [turn, hs, hrun] at htick
      refine .running [] (by rw [htick]; rfl) (fun _ e he => ?_) (hno.succ fun h => hne h.2.1)
      rw [htick] at he
      cases he
  | raised e =>
      have hne : (σ i).signal ≠ .run := by simp [hrun]
      have htick := tick_eq_turn hσ (wantsStep_ne_of_signal hne)
      simp only [turn, hs, hrun] at htick
      refine .failed e (by rw [htick]; rfl) (by rw [htick]; rfl) (fun e' he' => ?_)
        (hno.succ fun h => hne h.2.1)
      rw [htick] at he'
      exact hsig e' (by rw [hrun]; exact he')

/-- From `run_until_complete`, back from `run_forever`. -/
theorem Phase.succ_leaving (hm : m ≤ i) (hσ : σ (i + 1) = (σ i).tick P R W)
    (hs : (σ i).stack = .untilComplete f :: B) :
    (∀ e, (σ i).signal = .raised e → NoDeadlock (σ i).signal → NotYet σ m f B i →
      Phase σ m f B (i + 1)) ∧
    (∀ v, (σ i).signal = .returned v → (σ i).done f = true → NotYet σ m f B i →
      Phase σ m f B (i + 1)) ∧
    (∀ v u, (σ i).signal = .returned v → (σ i).done f = false → Stuck σ m f B i u →
      Phase σ m f B (i + 1)) := by
  have htick := tick_eq_turn hσ (wantsStep_ne_of_stack hs (by simp) (by simp))
  have hnot : ¬ Stalled f B (σ i) := by
    intro h
    rcases h.stack_eq (T := []) hs with ⟨h, -⟩ | ⟨-, h⟩ <;> cases h
  refine ⟨?_, ?_, ?_⟩
  · intro e hraised hsig hno
    simp only [turn, hs, hraised] at htick
    refine .clear (by rw [htick]; rfl) (fun e' he' => hsig e' ?_) (hno.succ hnot)
    rw [htick] at he'
    rw [hraised]
    exact he'
  · intro v hret hdone hno
    simp only [turn, hs, hret, done_removeStopCallback, hdone, if_true] at htick
    exact .judged [.code] (by rw [htick]; rfl) (hno.succ hnot)
  · intro v u hret hdone hstuck
    simp only [turn, hs, hret, done_removeStopCallback, hdone, Bool.false_eq_true, if_false]
      at htick
    have hstack : (σ (i + 1)).stack = .code :: .cancelling f :: B := by
      rw [htick]
      rfl
    refine .cancelling [.code] u hstack (hstuck.succ ?_) ⟨i + 1, by omega, le_refl _, hstack⟩
    rw [htick]
    simp only [enterCode, removeStopCallback]
    split <;> rfl

/-- From `run_until_complete`, back from `fut.cancel()`. -/
theorem Phase.succ_cancelling (hd : (σ i).Disciplined) (hσ : σ (i + 1) = (σ i).tick P R W)
    (hu : Undisturbed f B (σ i) (σ (i + 1))) (hs : (σ i).stack = .cancelling f :: B)
    {u : List ε} (hstuck : Stuck σ m f B i u) (hasked : Asked σ m f B i) :
    Phase σ m f B (i + 1) := by
  have hacc : (Frame.cancelling f : Frame ε).accepts (σ i).signal := hd.2 _ (by simp [hs])
  have hstuck' := hstuck.succ_of_unwinding hu (T := []) hs (.inl rfl)
  have htick := tick_eq_turn hσ (wantsStep_ne_of_stack hs (by simp) (by simp))
  cases hsig : (σ i).signal with
  | run =>
      rw [hsig] at hacc
      exact hacc.elim
  | returned v =>
      simp only [turn, hs, hsig] at htick
      refine .draining [] u (by rw [htick]; rfl) (fun _ _ e he => ?_) hstuck' hasked.succ
      rw [htick] at he
      cases he
  | raised e =>
      obtain rfl := hu.contained (.inl hs) e hsig
      rw [hsig] at hacc
      exact hacc.elim

/-- From the drain. -/
theorem Phase.succ_draining (hσ : σ (i + 1) = (σ i).tick P R W)
    (hu : Undisturbed f B (σ i) (σ (i + 1))) (hs : (σ i).stack = .drain f :: B)
    {u : List ε} (hsig : u ≠ [] → NoDeadlock (σ i).signal) (hstuck : Stuck σ m f B i u)
    (hasked : Asked σ m f B i) : Phase σ m f B (i + 1) := by
  have hstuck' := hstuck.succ_of_unwinding hu (T := []) hs (.inr (.inl rfl))
  cases hrun : (σ i).signal with
  | run =>
      by_cases hw : (σ i).wantsStep = true
      · obtain ⟨-, hwork, hloop⟩ := wantsStep_iff.mp hw
        have hdone : (σ i).done f = false := by
          rcases hloop with ⟨_, h, _⟩ | ⟨g, _, h, hdone⟩
          · rw [hs] at h
            cases h
          · obtain ⟨hfg, -⟩ := List.cons.inj (hs.symm.trans h)
            cases hfg
            exact hdone
        have htick : σ (i + 1) = ({ σ i with loop := ((σ i).loop.step P).2 } :
            Session π ω κ ε υ ρ).afterStep P R W ((σ i).loop.step P).1 := by
          rw [hσ, tick, if_pos hw]
        have hcases := afterStep_stack (P := P) (R := R) (W := W)
          ({ σ i with loop := ((σ i).loop.step P).2 }) ((σ i).loop.step P).1
        rw [← htick] at hcases
        rcases hcases with ⟨e, he, hst, hsg⟩ | ⟨hst, hsg⟩ | ⟨c, hst⟩
        · refine .draining [] u (hst.trans hs) (fun _ hne e' he' => ?_) hstuck' hasked.succ
          obtain rfl : e = e' := by
            rw [hsg] at he'
            simpa using he'
          by_contra hdead
          obtain ⟨hr, hall⟩ := LoopState.step_deadlock (P := P) (s := (σ i).loop)
            (Prod.ext he rfl) (by simpa using hdead)
          obtain ⟨t, ht, hlive⟩ := hu.live_drain hs hrun hdone hr
            (hwork.resolve_left (fun h => h hr)) (by rw [hstuck.now]; exact hne)
          exact hlive (hall t ht)
        · refine .draining [] u (hst.trans hs) (fun _ hne e' he' => ?_) hstuck' hasked.succ
          rcases hsg with hsg | ⟨v, hsg⟩
          · rw [hsg] at he'
            exact hsig hne e' he'
          · rw [hsg] at he'
            cases he'
        · exact .draining [.code, .handle c] u (by rw [hst]; exact congrArg _ hs)
            (fun h => by simp at h) hstuck' hasked.succ
      · have htick := tick_eq_turn hσ hw
        simp only [turn, hs, hrun] at htick
        exact .condemned [.code] u (by rw [htick]; rfl) hstuck' hasked.succ
  | returned v =>
      have htick := tick_eq_turn hσ (wantsStep_ne_of_signal (by simp [hrun]))
      simp only [turn, hs, hrun] at htick
      refine .draining [] u (by rw [htick]; rfl) (fun _ _ e he => ?_) hstuck' hasked.succ
      rw [htick] at he
      cases he
  | raised e =>
      have htick := tick_eq_turn hσ (wantsStep_ne_of_signal (by simp [hrun]))
      simp only [turn, hs, hrun] at htick
      obtain rfl := hu.contained (.inr hs) e hrun
      have hnil : u = [] := by
        by_contra hne
        have := hsig hne _ hrun
        cases this
      refine .stuck u (by rw [htick]; rfl) hstuck' hasked.succ ?_ ?_
      · exact fun _ => ⟨_, by rw [htick]; rfl, rfl⟩
      · rintro e es rfl
        cases hnil

/-- The verdict on a completed future. -/
theorem Phase.succ_judged (hσ : σ (i + 1) = (σ i).tick P R W)
    (hs : (σ i).stack = .collecting f true :: B) (hno : NotYet σ m f B i) :
    Phase σ m f B (i + 1) := by
  have htick := tick_eq_turn hσ (wantsStep_ne_of_stack hs (by simp) (by simp))
  simp only [turn, hs, verdict, if_true] at htick
  have hnot : ¬ Stalled f B (σ i) := by
    intro h
    rcases h.stack_eq (T := []) hs with ⟨h, -⟩ | ⟨-, h⟩ <;> cases h
  split at htick
  · exact .clear (by rw [htick]; rfl) (fun e he => by rw [htick] at he; cases he) (hno.succ hnot)
  · split at htick
    · exact .clear (by rw [htick]; rfl) (fun e he => by rw [htick] at he; cases he)
        (hno.succ hnot)
    · exact .clear (by rw [htick]; rfl) (fun e he => by rw [htick] at he; cases he)
        (hno.succ hnot)
  · refine .clear (by rw [htick]; rfl) (fun e he => ?_) (hno.succ hnot)
    rw [htick] at he
    cases he
    rfl

/-- The verdict on a future that never completed. -/
theorem Phase.succ_condemned (hσ : σ (i + 1) = (σ i).tick P R W)
    (hu : Undisturbed f B (σ i) (σ (i + 1))) (hs : (σ i).stack = .collecting f false :: B)
    {u : List ε} (hstuck : Stuck σ m f B i u) (hasked : Asked σ m f B i) :
    Phase σ m f B (i + 1) := by
  have hstuck' := hstuck.succ_of_unwinding hu (T := []) hs (.inr (.inr rfl))
  have htick := tick_eq_turn hσ (wantsStep_ne_of_stack hs (by simp) (by simp))
  simp only [turn, hs, verdict, Bool.false_eq_true, if_false] at htick
  have hnow := hstuck.now
  split at htick
  · rename_i e es hunhandled
    rw [hunhandled] at hnow
    refine .stuck u (by rw [htick]; rfl) hstuck' hasked.succ ?_ ?_
    · rintro rfl
      cases hnow
    · rintro e' es' rfl
      cases hnow
      rw [htick]
      rfl
  · rename_i hunhandled
    rw [hunhandled] at hnow
    refine .stuck u (by rw [htick]; rfl) hstuck' hasked.succ ?_ ?_
    · exact fun _ => ⟨_, by rw [htick]; rfl, rfl⟩
    · rintro e es rfl
      cases hnow

/-- One tick of an undisturbed call moves it to its next phase. -/
theorem Phase.succ (hm : m ≤ i) (hd : (σ i).Disciplined) (hσ : σ (i + 1) = (σ i).tick P R W)
    (hu : Undisturbed f B (σ i) (σ (i + 1))) (hB : (σ i).stack ≠ B) (h : Phase σ m f B i) :
    Phase σ m f B (i + 1) := by
  cases h with
  | running top hs hsig hno =>
      cases top with
      | nil => exact Phase.succ_running hm hσ hu hs (hsig rfl) hno
      | cons x top =>
          obtain ⟨top', hs'⟩ := stack_above hd hσ hs
          refine .running (top' ++ top) hs' (fun hnil => ?_) (hno.succ fun h => ?_)
          · obtain ⟨-, rfl⟩ := List.append_eq_nil_iff.mp hnil
            exact noDeadlock_above hd hσ hs (.inl rfl)
          · have hs' : (σ i).stack = (x :: top ++ [.forever]) ++ .untilComplete f :: B := by
              rw [hs]
              simp
            rcases h.stack_eq hs' with ⟨h, -⟩ | ⟨h, -⟩ <;> simp at h
  | failed e hs hraised hsig hno => exact (Phase.succ_leaving hm hσ hs).1 e hraised hsig hno
  | finished v hs hsig hdone hno => exact (Phase.succ_leaving hm hσ hs).2.1 v hsig hdone hno
  | stalled v u hs hsig hdone hstuck =>
      exact (Phase.succ_leaving hm hσ hs).2.2 v u hsig hdone hstuck
  | judged top hs hno =>
      cases top with
      | nil => exact Phase.succ_judged hσ hs hno
      | cons x top =>
          obtain ⟨top', hs'⟩ := stack_above hd hσ hs
          refine .judged (top' ++ top) hs' (hno.succ fun h => ?_)
          rcases h.stack_eq hs with ⟨-, h⟩ | ⟨-, h⟩ <;> cases h
  | cancelling top u hs hstuck hasked =>
      cases top with
      | nil => exact Phase.succ_cancelling hd hσ hu hs hstuck hasked
      | cons x top =>
          obtain ⟨top', hs'⟩ := stack_above hd hσ hs
          exact .cancelling (top' ++ top) u hs' (hstuck.succ_of_unwinding hu hs (.inl rfl))
            hasked.succ
  | draining top u hs hsig hstuck hasked =>
      cases top with
      | nil => exact Phase.succ_draining hσ hu hs (hsig rfl) hstuck hasked
      | cons x top =>
          obtain ⟨top', hs'⟩ := stack_above hd hσ hs
          refine .draining (top' ++ top) u hs' (fun hnil _ => ?_)
            (hstuck.succ_of_unwinding hu hs (.inr (.inl rfl))) hasked.succ
          obtain ⟨-, rfl⟩ := List.append_eq_nil_iff.mp hnil
          exact noDeadlock_above hd hσ hs (.inr ⟨f, rfl⟩)
  | condemned top u hs hstuck hasked =>
      cases top with
      | nil => exact Phase.succ_condemned hσ hu hs hstuck hasked
      | cons x top =>
          obtain ⟨top', hs'⟩ := stack_above hd hσ hs
          exact .condemned (top' ++ top) u hs'
            (hstuck.succ_of_unwinding hu hs (.inr (.inr rfl))) hasked.succ
  | clear hs hsig hno => exact absurd hs hB
  | stuck u hs hstuck hasked hnil hcons => exact absurd hs hB

/-- A call that is undisturbed at every step is in one of its phases at every state. -/
theorem Phase.at {n : Nat} (hd : ∀ j, (σ j).Disciplined)
    (hσ : ∀ j, σ (j + 1) = (σ j).tick P R W)
    (hbegin : (σ m).stack = .forever :: .untilComplete f :: B) (hrun : (σ m).signal = .run)
    (hm : m ≤ n) (hu : ∀ j, m ≤ j → j < n → Undisturbed f B (σ j) (σ (j + 1)))
    (hB : ∀ j, m ≤ j → j < n → (σ j).stack ≠ B) : Phase σ m f B n := by
  induction n, hm using Nat.le_induction with
  | base =>
      refine .running [] hbegin (fun _ e he => ?_) (fun j hj hj' => by omega)
      rw [hrun] at he
      cases he
  | succ n hmn ih =>
      exact Phase.succ hmn (hd n) (hσ n) (hu n hmn (by omega)) (hB n hmn (by omega))
        (ih (fun j hj hj' => hu j hj (by omega)) (fun j hj hj' => hB j hj (by omega)))

/-- What the last phase says of the verdict. -/
theorem Phase.verdict {N : Nat} (h : Phase σ m f B N) (hend : (σ N).stack = B) :
    VerdictExact σ m N f B := by
  have hlen : ∀ (top : List (Frame ε)) (fr : Frame ε), (σ N).stack ≠ top ++ fr :: B := by
    intro top fr hs
    have := congrArg List.length (hend.symm.trans hs)
    simp at this
    omega
  cases h with
  | running top hs hsig hno =>
      have hne := hlen (top ++ [.forever]) (.untilComplete f)
      rw [List.append_assoc] at hne
      exact absurd hs hne
  | failed e hs hraised hsig hno => exact absurd hs (hlen [] _)
  | finished v hs hsig hdone hno => exact absurd hs (hlen [] _)
  | stalled v u hs hsig hdone hstuck => exact absurd hs (hlen [] _)
  | judged top hs hno => exact absurd hs (hlen top _)
  | cancelling top u hs hstuck hasked => exact absurd hs (hlen top _)
  | draining top u hs hsig hstuck hasked => exact absurd hs (hlen top _)
  | condemned top u hs hstuck hasked => exact absurd hs (hlen top _)
  | clear hs hsig hno =>
      refine ⟨⟨?_, ?_⟩, ?_, ?_⟩
      · rintro ⟨e, he, hdead⟩
        rw [hsig e he] at hdead
        cases hdead
      · rintro ⟨j, hm, hj, hst, -⟩
        exact absurd hst (hno j hm hj)
      · exact fun j hm hj hst => absurd hst (hno j hm hj)
      · exact fun j hm hj hst => absurd hst (hno j hm hj)
  | stuck u hs hstuck hasked hnil hcons =>
      refine ⟨⟨?_, ?_⟩, ?_, fun _ _ _ _ => hasked⟩
      · rintro ⟨e, he, hdead⟩
        obtain ⟨j, hm, hj, hst⟩ := hstuck.seen
        refine ⟨j, hm, hj, hst, ?_⟩
        rw [hstuck.same j hm hj hst]
        cases u with
        | nil => rfl
        | cons x xs =>
            have := hcons x xs rfl
            rw [he] at this
            cases this
      · rintro ⟨j, hm, hj, hst, hu⟩
        exact hnil ((hstuck.same j hm hj hst).symm.trans hu)
      · intro j hm hj hst e es hu
        exact hcons e es ((hstuck.same j hm hj hst).symm.trans hu)

/-- Every state of a session is in order. -/
theorem disciplined_after (s : Session π ω κ ε υ ρ) (hs : s.Disciplined) (n : Nat) :
    (after P R W s n).Disciplined := by
  induction n with
  | zero => exact hs
  | succ n ih =>
      rcases hst : (after P R W s n).stack with _ | ⟨fr, rest⟩
      · have hw : (after P R W s n).wantsStep ≠ true := by
          intro hw
          obtain ⟨-, -, ⟨_, h, -⟩ | ⟨_, _, h, -⟩⟩ := wantsStep_iff.mp hw
          all_goals
            rw [hst] at h
            cases h
        have hsame : after P R W s (n + 1) = after P R W s n := by
          simp only [after, tick]
          rw [if_neg hw]
          simp only [turn, hst]
        rw [hsame]
        exact ih
      · exact (leads_tick (P := P) (R := R) (W := W) ih hst).2

theorem disciplined_start (loop : LoopState π (Body κ) ε ρ) (world : ω) :
    (start loop world : Session π ω κ ε υ ρ).Disciplined :=
  ⟨List.isChain_singleton _, fun x hx => by
    obtain rfl : Frame.code = x := by simpa [start] using hx
    trivial⟩

end

end Session

/-- **When the deadlock verdict is exact.**  A program runs on a loop; at state `m` it
has called `run_until_complete(f)`, which at state `N` hands control back to it.  If no
step of the call is disturbed (the loop never takes a step to which only cancelled
timers are left; `stop()` does not end it before `f` is done; while the stalled call
unwinds nothing is collected and nothing escapes), the verdict of the call is exact. -/
theorem verdict_exact_of_undisturbed (P : SchedulingPolicy π) (R : RandomSource ρ)
    (W : Workload ω κ ε υ) (loop : LoopState π (Body κ) ε ρ) (world : ω) {m N : Nat} {f : FutId}
    {B : List (Frame ε)} (hmN : m ≤ N) :
    let σ := Session.after P R W (Session.start loop world)
    (σ m).stack = .forever :: .untilComplete f :: B → (σ m).signal = .run →
    (σ N).stack = B → (∀ i, m ≤ i → i < N → (σ i).stack ≠ B) →
    (∀ i, m ≤ i → i < N → Session.Undisturbed f B (σ i) (σ (i + 1))) →
    Session.VerdictExact σ m N f B := by
  intro σ hbegin hrun hend hB hu
  exact Session.Phase.verdict
    (Session.Phase.at (P := P) (R := R) (W := W)
      (Session.disciplined_after _ (Session.disciplined_start loop world)) (fun _ => rfl)
      hbegin hrun hmN hu hB) hend

/-- With no timer, no `stop()`, nothing collected and nothing raised, a step is not
disturbed. -/
theorem Session.Undisturbed.of_plain {f : FutId} {B : List (Frame ε)}
    {s s' : Session π ω κ ε υ ρ} (htimers : s.loop.timers.isEmpty = true)
    (hstop : s.loop.stopping = false) (hunhandled : s.loop.unhandled = [])
    (hunhandled' : s'.loop.unhandled = []) (hsig : ∀ e, s.signal ≠ .raised e) :
    Session.Undisturbed f B s s' where
  live _ _ _ _ h := absurd (List.isEmpty_iff.mp htimers) h
  live_drain _ _ _ _ h := absurd (List.isEmpty_iff.mp htimers) h
  not_stopped _ _ h := by
    rw [hstop] at h
    cases h
  quiet _ := hunhandled'.trans hunhandled.symm
  contained _ e h := absurd h (hsig e)

/-- A future nobody completes is awaited; cancelling it completes it. -/
def neverCompleted : Workload Nat Unit Unit Unit :=
  .scripted [.newFuture, .runUntilComplete 0, .complete 0 (.error ())]

/-- The states of that program on a new loop. -/
def neverCompletedRun : Nat → Session (Shipped Unit) Nat Unit Unit Unit Unit :=
  Session.after (shipped .least) .least neverCompleted
    (Session.start (LoopState.fresh .least (.seeded (.init .least 0)) 0) 0)

theorem verdict_exact_neverCompleted :
    Session.VerdictExact neverCompletedRun 2 10 0 [.code] ∧
      (neverCompletedRun 10).signal = .raised (.loop
        (.deadlock "the awaited future never completed: all tasks are blocked")) := by
  refine ⟨verdict_exact_of_undisturbed (shipped .least) .least neverCompleted
    (LoopState.fresh .least (.seeded (.init .least 0)) 0) 0 (m := 2) (N := 10) (by decide)
    (by decide +kernel) (by decide +kernel) (by decide +kernel) ?_ ?_, by decide +kernel⟩
  · have h : ∀ i, i < 10 → 2 ≤ i → (neverCompletedRun i).stack ≠ [.code] := by decide +kernel
    exact fun i hm hN => h i hN hm
  · have h : ∀ i, i < 10 → 2 ≤ i → (neverCompletedRun i).loop.timers.isEmpty = true ∧
        (neverCompletedRun i).loop.stopping = false ∧
        (neverCompletedRun i).loop.unhandled = [] ∧
        (neverCompletedRun (i + 1)).loop.unhandled = [] ∧
        ((neverCompletedRun i).signal = .run ∨ (neverCompletedRun i).signal = .returned none) := by
      decide +kernel
    intro i hm hN
    obtain ⟨htimers, hstop, hun, hun', hsig⟩ := h i hN hm
    refine .of_plain htimers hstop hun hun' (fun e he => ?_)
    rcases hsig with hsig | hsig <;> exact absurd (hsig.symm.trans he) (by simp)

/-- A timer that was cancelled, a callback that raises, and a future nobody completes. -/
def leftoverTimer : Workload Nat Unit Unit Unit :=
  .scripted [.newFuture,
    .call ⟨.callLater 5 ⟨some "timeout", "function", none, .user ()⟩ none, rfl⟩,
    .call ⟨.cancel 0, rfl⟩,
    .call ⟨.callSoon ⟨some "failing", "function", none, .user ()⟩ none, rfl⟩,
    .runUntilComplete 0, .raise ()]

/-- The states of that program on a new loop. -/
def leftoverTimerRun : Nat → Session (Shipped Unit) Nat Unit Unit Unit Unit :=
  Session.after (shipped .least) .least leftoverTimer
    (Session.start (LoopState.fresh .least (.seeded (.init .least 0)) 0) 0)

/-- With the cancelled timer still in the heap the call stalls with the exception of the
callback collected, raises `SimulationDeadlockError` all the same, and never asks the
future to cancel. -/
theorem not_verdictExact_leftoverTimer :
    (leftoverTimerRun 5).stack = [.forever, .untilComplete 0, .code] ∧
      (leftoverTimerRun 12).stack = [.code] ∧
      (leftoverTimerRun 12).signal = .raised (.loop LoopState.noTimersError) ∧
      ¬ Session.VerdictExact leftoverTimerRun 5 12 0 [.code] := by
  have hsig : (leftoverTimerRun 12).signal = .raised (.loop LoopState.noTimersError) := by
    decide +kernel
  refine ⟨by decide +kernel, by decide +kernel, hsig, fun h => ?_⟩
  have hstalled : Session.Stalled 0 [.code] (leftoverTimerRun 9) :=
    ⟨.inl (by decide +kernel), by decide +kernel, by decide +kernel,
      List.isEmpty_iff.mp (by decide +kernel), by decide +kernel⟩
  have hraised := h.2.1 9 (by decide) (by decide) hstalled () [] (by decide +kernel)
  rw [hsig] at hraised
  cases hraised

end SimLoop.Loop
