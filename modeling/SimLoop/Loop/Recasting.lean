/-
  Loop/Recasting.lean --- changes of a session that its turns commute with.

  A run is compared with another one by a map of loops that no call answers
  differently on, together with a map of the program's states that the program does
  not notice.  Whatever a session does between two steps of its loop then commutes
  with the pair (`turn_recast`), and a step does where the loop's own step does.
-/
import SimLoop.Loop.Session

set_option autoImplicit false

namespace SimLoop.Loop

open SimLoop.Foundation SimLoop.Policy

variable {π ω κ ε υ ρ : Type}

/-! ## What does not show -/

/-- The calls the loop's own code makes between two steps. -/
def Op.isInternal : Op (Body κ) ε → Bool
  | .callSoon _ _ | .copyContext | .enterRun | .leaveRun | .enter _ | .stop | .collect _ => true
  | _ => false

/-- No call in `allowed` tells a loop from its image, nor does code that reads what the
loop's own code reads. -/
structure Unseen (P : SchedulingPolicy π) (R : RandomSource ρ)
    (f : LoopState π (Body κ) ε ρ → LoopState π (Body κ) ε ρ)
    (allowed : Op (Body κ) ε → Prop) : Prop where
  perform : ∀ s o, allowed o → (f s).perform P R o = ((s.perform P R o).1, f (s.perform P R o).2)
  internal : ∀ o : Op (Body κ) ε, o.isInternal = true → allowed o
  ready : ∀ s, (f s).ready = s.ready
  timers : ∀ s, (f s).timers.isEmpty = s.timers.isEmpty
  stopping : ∀ s, (f s).stopping = s.stopping
  unhandled : ∀ s, (f s).unhandled = s.unhandled
  exceptionHandler : ∀ s, (f s).exceptionHandler = s.exceptionHandler
  current : ∀ s, (f s).current = s.current

/-- The answer is not that of a call. -/
def Answer.isDirect : Answer κ ε υ → Bool
  | .reply _ => false
  | _ => true

/-- A program takes no notice of a map of its states, the answers to its calls aside. -/
structure Unnoticed (W : Workload ω κ ε υ) (g : ω → ω) : Prop where
  enter : ∀ w entry, W.enter (g w) entry = g (W.enter w entry)
  resume : ∀ w a, Answer.isDirect a = true → W.resume (g w) a = g (W.resume w a)

/-- The program does the same in a state and its image, it is a call in `allowed` if it is a
call, and the program takes no notice of the answer's state either. -/
structure Alike (W : Workload ω κ ε υ) (g : ω → ω) (allowed : Op (Body κ) ε → Prop) (w : ω) :
    Prop where
  act : W.act (g w) = W.act w
  allowed : ∀ o, W.act w = .call o → allowed o.1
  resume : ∀ o r, W.act w = .call o → W.resume (g w) (.reply r) = g (W.resume w (.reply r))

namespace Session

/-- A session with its loop and the state of its program exchanged. -/
def recast (f : LoopState π (Body κ) ε ρ → LoopState π (Body κ) ε ρ) (g : ω → ω)
    (s : Session π ω κ ε υ ρ) : Session π ω κ ε υ ρ :=
  { s with loop := f s.loop, world := g s.world }

variable {P : SchedulingPolicy π} {R : RandomSource ρ} {W : Workload ω κ ε υ}
variable {f : LoopState π (Body κ) ε ρ → LoopState π (Body κ) ε ρ} {g : ω → ω}
variable {allowed : Op (Body κ) ε → Prop}

/-- At the program's turn a tick is its next act. -/
theorem tick_of_code {s : Session π ω κ ε υ ρ} {rest : List (Frame ε)}
    (hstack : s.stack = .code :: rest) (hsignal : s.signal = .run) :
    s.tick P R W = s.doAct P R W rest := by
  have hwants : s.wantsStep = false := by
    unfold wantsStep
    rw [hstack]
  unfold tick
  rw [hwants, if_neg Bool.false_ne_true]
  unfold turn
  rw [hstack, hsignal]

/-! ## Futures -/

section

variable (g) (hf : Unseen P R f allowed) (s : Session π ω κ ε υ ρ)
include hf

theorem op_recast {o : Op (Body κ) ε} (h : allowed o) :
    (s.recast f g).op P R o = ((s.op P R o).1, (s.op P R o).2.recast f g) := by
  simp only [op, recast, hf.perform s.loop o h]

theorem op_recast_snd {o : Op (Body κ) ε} (h : o.isInternal = true) :
    ((s.recast f g).op P R o).2 = (s.op P R o).2.recast f g := by
  rw [op_recast g hf s (hf.internal o h)]

theorem scheduleCallbacks_recast (callbacks : List (Callback (Body κ) × ContextId)) :
    (s.recast f g).scheduleCallbacks P R callbacks =
      ((s.scheduleCallbacks P R callbacks).1,
        (s.scheduleCallbacks P R callbacks).2.recast f g) := by
  induction callbacks generalizing s with
  | nil => rfl
  | cons c rest ih =>
      unfold scheduleCallbacks
      rw [op_recast g hf s (hf.internal _ rfl)]
      rcases s.op P R (.callSoon c.1 (some c.2)) with ⟨r, t⟩
      cases r with
      | raised e => rfl
      | _ => exact ih t

theorem complete_recast (i : FutId) (outcome : Except ε υ) :
    (s.recast f g).complete P R i outcome =
      ((s.complete P R i outcome).1, (s.complete P R i outcome).2.recast f g) := by
  simp only [complete, show (s.recast f g).futures = s.futures from rfl]
  cases s.futures.get? i with
  | none => rfl
  | some fut =>
      dsimp only
      split
      · rfl
      · exact scheduleCallbacks_recast g hf
          { s with futures := s.futures.insert i ⟨some outcome, []⟩ } fut.callbacks

theorem addDoneCallback_recast (i : FutId) (cb : Callback (Body κ))
    (context : Option ContextId) :
    (s.recast f g).addDoneCallback P R i cb context =
      ((s.addDoneCallback P R i cb context).1,
        (s.addDoneCallback P R i cb context).2.recast f g) := by
  simp only [addDoneCallback, show (s.recast f g).futures = s.futures from rfl]
  cases s.futures.get? i with
  | none => rfl
  | some fut =>
      dsimp only
      split
      · rw [op_recast g hf s (hf.internal _ rfl)]
        rcases s.op P R (.callSoon cb context) with ⟨r, t⟩
        cases r <;> rfl
      · cases context with
        | some c => rfl
        | none =>
            dsimp only
            rw [op_recast g hf s (hf.internal _ rfl)]
            rcases s.op P R .copyContext with ⟨r, t⟩
            cases r <;> rfl

end

theorem removeStopCallback_recast (s : Session π ω κ ε υ ρ) (i : FutId) :
    (s.recast f g).removeStopCallback i = (s.removeStopCallback i).recast f g := by
  simp only [removeStopCallback, show (s.recast f g).futures = s.futures from rfl]
  cases s.futures.get? i <;> rfl

/-! ## Control -/

section

variable (hf : Unseen P R f allowed) (hg : Unnoticed W g) (s : Session π ω κ ε υ ρ)
include hg

theorem enterCode_recast (entry : Entry κ ε) (stack : List (Frame ε)) :
    (s.recast f g).enterCode W entry stack = (s.enterCode W entry stack).recast f g := by
  simp only [enterCode, recast, hg.enter]

theorem answer_recast {a : Answer κ ε υ} (ha : a.isDirect = true) :
    (s.recast f g).answer W a = (s.answer W a).recast f g := by
  simp only [answer, recast, hg.resume s.world a ha]

theorem answerError_recast (e : Option LoopError) :
    (s.recast f g).answerError W e = (s.answerError W e).recast f g := by
  cases e <;> exact answer_recast hg s rfl

include hf

theorem callExceptionHandler_recast (e : Option ε) (stack : List (Frame ε)) :
    (s.recast f g).callExceptionHandler P R W e stack =
      (s.callExceptionHandler P R W e stack).recast f g := by
  simp only [callExceptionHandler,
    show (s.recast f g).loop.exceptionHandler = s.loop.exceptionHandler from
      hf.exceptionHandler s.loop]
  cases s.loop.exceptionHandler with
  | some h => exact enterCode_recast hg s _ _
  | none =>
      cases e with
      | none => rfl
      | some e =>
          dsimp only
          rw [op_recast_snd g hf s rfl]
          rfl

theorem beginHandle_recast (entry : ReadyEntry (Body κ)) (stack : List (Frame ε)) :
    (s.recast f g).beginHandle P R W entry stack =
      (s.beginHandle P R W entry stack).recast f g := by
  unfold beginHandle
  cases entry.callback.body with
  | stopWhenDone =>
      dsimp only
      rw [op_recast_snd g hf s rfl]
      rfl
  | user k =>
      dsimp only
      rw [op_recast_snd g hf s rfl, show (s.recast f g).loop.current = s.loop.current from
        hf.current s.loop]
      exact enterCode_recast hg _ _ _

theorem afterStep_recast (outcome : LoopState.StepOutcome (Body κ)) :
    (s.recast f g).afterStep P R W outcome = (s.afterStep P R W outcome).recast f g := by
  cases outcome with
  | raised e => rfl
  | skipped e => rfl
  | run e => exact beginHandle_recast hf hg s e s.stack

theorem doAct_recast (hact : Alike W g allowed s.world) (rest : List (Frame ε)) :
    (s.recast f g).doAct P R W rest = (s.doAct P R W rest).recast f g := by
  unfold doAct
  rw [show W.act (s.recast f g).world = W.act s.world from hact.act]
  cases h : W.act s.world with
  | call o =>
      dsimp only
      rw [op_recast g hf s (hact.allowed o h)]
      simp only [answer, recast]
      exact congrArg (fun w => ({ (s.op P R o.1).2 with
        loop := f (s.op P R o.1).2.loop, world := w, signal := .run } : Session π ω κ ε υ ρ))
        (hact.resume o _ h)
  | newFuture =>
      let t : Session π ω κ ε υ ρ :=
        { s with
          futures := s.futures.insert s.nextFuture ⟨none, []⟩
          nextFuture := s.nextFuture + 1 }
      exact answer_recast hg t (a := .future s.nextFuture) rfl
  | complete i outcome =>
      dsimp only
      rw [complete_recast g hf]
      exact answerError_recast hg _ _
  | addDoneCallback i cb context =>
      dsimp only
      rw [addDoneCallback_recast g hf]
      exact answerError_recast hg _ _
  | outcome i => exact answer_recast hg s rfl
  | callExceptionHandler e => exact callExceptionHandler_recast hf hg s e _
  | runForever =>
      dsimp only
      rw [op_recast g hf s (hf.internal _ rfl)]
      rcases s.op P R .enterRun with ⟨r, t⟩
      cases r with
      | raised e => exact answer_recast hg t rfl
      | _ => rfl
  | runUntilComplete i =>
      dsimp only
      rw [addDoneCallback_recast g hf]
      rcases s.addDoneCallback P R i stopWhenDone none with ⟨e, t⟩
      cases e with
      | some e => exact answer_recast hg t rfl
      | none =>
          dsimp only
          rw [op_recast g hf t (hf.internal _ rfl)]
          rcases t.op P R .enterRun with ⟨r, u⟩
          cases r with
          | raised e =>
              dsimp only
              rw [removeStopCallback_recast]
              exact answer_recast hg _ rfl
          | _ => rfl
  | ret => rfl
  | raise e => rfl

omit hg in
theorem verdict_recast (i : FutId) (completed : Bool) (rest : List (Frame ε)) :
    (s.recast f g).verdict i completed rest = (s.verdict i completed rest).recast f g := by
  simp only [verdict, show (s.recast f g).futures = s.futures from rfl,
    show (s.recast f g).loop.unhandled = s.loop.unhandled from hf.unhandled s.loop]
  cases completed with
  | false => cases s.loop.unhandled <;> rfl
  | true =>
      rcases (s.futures.get? i).bind Future.outcome with _ | _ | v
      · rfl
      · rfl
      · cases s.loop.unhandled <;> rfl

/-- **A turn that is no step of the loop commutes with the change**, where the program's act
does. -/
theorem turn_recast
    (hact : ∀ rest, s.stack = .code :: rest → s.signal = .run → Alike W g allowed s.world) :
    (s.recast f g).turn P R W = (s.turn P R W).recast f g := by
  have hstack : (s.recast f g).stack = s.stack := rfl
  have hsignal : (s.recast f g).signal = s.signal := rfl
  cases hs : s.stack with
  | nil => simp only [turn, hstack, hs]
  | cons frame rest =>
      cases frame with
      | code =>
          cases hsig : s.signal <;> simp only [turn, hstack, hsignal, hs, hsig]
          · exact doAct_recast hf hg s (hact rest hs hsig) rest
          · exact answer_recast hg s rfl
          · exact answer_recast hg s rfl
      | forever =>
          cases hsig : s.signal <;> simp only [turn, hstack, hsignal, hs, hsig]
          · rw [op_recast_snd g hf s rfl]
            rfl
          · rfl
          · rw [op_recast_snd g hf s rfl]
            rfl
      | handle saved =>
          cases hsig : s.signal with
          | run =>
              simp only [turn, hstack, hsignal, hs, hsig]
              rfl
          | returned v =>
              simp only [turn, hstack, hsignal, hs, hsig]
              rw [op_recast_snd g hf s rfl]
              rfl
          | raised failure =>
              cases failure <;> simp only [turn, hstack, hsignal, hs, hsig]
              · rfl
              · rw [op_recast_snd g hf s rfl]
                split
                · rfl
                · exact callExceptionHandler_recast hf hg _ (some _) rest
      | handler e =>
          cases hsig : s.signal with
          | run =>
              simp only [turn, hstack, hsignal, hs, hsig]
              rfl
          | returned v =>
              simp only [turn, hstack, hsignal, hs, hsig]
              rfl
          | raised failure =>
              cases failure <;> simp only [turn, hstack, hsignal, hs, hsig]
              · rfl
              · split
                · rfl
                · rw [op_recast_snd g hf s rfl]
                  cases e with
                  | none => rfl
                  | some e =>
                      dsimp only
                      rw [op_recast_snd g hf _ rfl]
                      rfl
      | untilComplete i =>
          cases hsig : s.signal with
          | run =>
              simp only [turn, hstack, hsignal, hs, hsig]
              rfl
          | returned v =>
              simp only [turn, hstack, hsignal, hs, hsig]
              rw [removeStopCallback_recast]
              rw [show ((s.removeStopCallback i).recast f g).done i =
                (s.removeStopCallback i).done i from rfl]
              split <;> exact enterCode_recast hg _ _ _
          | raised e =>
              simp only [turn, hstack, hsignal, hs, hsig]
              rw [removeStopCallback_recast]
              rfl
      | cancelling i =>
          cases hsig : s.signal <;> simp only [turn, hstack, hsignal, hs, hsig] <;> rfl
      | drain i =>
          cases hsig : s.signal <;> simp only [turn, hstack, hsignal, hs, hsig]
          · exact enterCode_recast hg s _ _
          · rfl
          · rfl
      | collecting i completed =>
          simp only [turn, hstack, hsignal, hs]
          exact verdict_recast hf s i completed rest

omit hg in
theorem wantsStep_recast : (s.recast f g).wantsStep = s.wantsStep := by
  unfold wantsStep
  rw [show (s.recast f g).loop.ready = s.loop.ready from hf.ready s.loop,
    show (s.recast f g).loop.timers.isEmpty = s.loop.timers.isEmpty from hf.timers s.loop,
    show (s.recast f g).loop.stopping = s.loop.stopping from hf.stopping s.loop]
  rfl

/-- **A tick commutes with the change** where the loop's step and the program's act do. -/
theorem tick_recast
    (hstep : (f s.loop).step P = ((s.loop.step P).1, f (s.loop.step P).2))
    (hact : ∀ rest, s.stack = .code :: rest → s.signal = .run → Alike W g allowed s.world) :
    (s.recast f g).tick P R W = (s.tick P R W).recast f g := by
  unfold tick
  rw [wantsStep_recast hf s]
  split
  · dsimp only
    rw [show (s.recast f g).loop.step P = ((s.loop.step P).1, f (s.loop.step P).2) from hstep]
    exact afterStep_recast hf hg { s with loop := (s.loop.step P).2 } (s.loop.step P).1
  · exact turn_recast hf hg s hact

end

end Session

end SimLoop.Loop
