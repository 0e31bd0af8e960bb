/-
  Loop/Session.lean --- a program running on a loop.

  A `Workload` is a deterministic program: asked what it does next, it answers with
  an `Act`, and it is told what the act returned or raised.  `Session.tick` carries
  out one act of the program or one turn of the loop code that is waiting for it:
  `run_forever`, `run_until_complete` with its drain, `Handle._run` and
  `call_exception_handler`, each a frame on a stack.  What asyncio's futures do when
  they are completed is part of the session; what a task does when it is cancelled is
  code of the program.
-/
import SimLoop.Loop.Machine

set_option autoImplicit false

namespace SimLoop.Loop

open SimLoop.Foundation SimLoop.Policy

/-! ## Programs -/

/-- An `asyncio.Future` or task, by creation order. -/
abbrev FutId := Nat

/-- What a callable does: the loop's own `_stop_when_done`, or code of the program. -/
inductive Body (κ : Type) where
  | stopWhenDone
  | user (k : κ)
  deriving DecidableEq

/-- The state of a future. -/
structure Future (κ ε υ : Type) where
  outcome : Option (Except ε υ)
  callbacks : List (Callback (Body κ) × ContextId)

/-- The calls a program makes itself; the others are made by the loop's own code. -/
def Op.isPublic {κ ε : Type} : Op κ ε → Bool
  | .step | .enterRun | .leaveRun => false
  | _ => true

/-- What a program does next. -/
inductive Act (κ ε υ : Type) where
  | call (op : { op : Op (Body κ) ε // op.isPublic = true })
  | newFuture
  /-- `set_result`, `set_exception`, or the cancellation of a plain future. -/
  | complete (f : FutId) (outcome : Except ε υ)
  | addDoneCallback (f : FutId) (cb : Callback (Body κ)) (context : Option ContextId)
  | outcome (f : FutId)
  | callExceptionHandler (e : Option ε)
  | runForever
  | runUntilComplete (f : FutId)
  | ret
  | raise (e : ε)

/-- What an act returned or raised. -/
inductive Answer (κ ε υ : Type) where
  | reply (r : Reply (Body κ))
  | future (f : FutId)
  | outcome (o : Option (Except ε υ))
  | value (v : Option υ)
  | raised (e : Failure ε)

/-- The code of the program that is entered. -/
inductive Entry (κ ε : Type) where
  | callback (k : κ)
  | handler (h : Body κ) (e : Option ε)
  /-- `fut.cancel()`. -/
  | cancel (f : FutId)
  /-- The finalizers `gc.collect()` runs. -/
  | garbage

/-- The classes of exceptions that `except` clauses tell apart. -/
inductive ExcClass where
  /-- `SystemExit` and `KeyboardInterrupt`. -/
  | exit
  /-- Any other `BaseException` that is no `Exception`, such as `CancelledError`. -/
  | base
  /-- `Exception`. -/
  | exception
  deriving DecidableEq

/-- A deterministic program over the loop, with states `ω`. -/
structure Workload (ω κ ε υ : Type) where
  act : ω → Act κ ε υ
  resume : ω → Answer κ ε υ → ω
  enter : ω → Entry κ ε → ω
  classOf : ε → ExcClass

/-- `isinstance(e, (SystemExit, KeyboardInterrupt))`. -/
def Workload.isExit {ω κ ε υ : Type} (W : Workload ω κ ε υ) (e : ε) : Bool :=
  W.classOf e = .exit

/-- `isinstance(e, Exception)`. -/
def Workload.isException {ω κ ε υ : Type} (W : Workload ω κ ε υ) (e : ε) : Bool :=
  W.classOf e = .exception

/-- The program that performs the listed acts one after the other, whatever they
return: its state is how many answers and entries it has seen. -/
def Workload.scripted {κ ε υ : Type} (acts : List (Act κ ε υ)) : Workload Nat κ ε υ where
  act n := acts[n]?.getD .ret
  resume n _ := n + 1
  enter n _ := n + 1
  classOf _ := .exception

/-! ## Sessions -/

/-- Code that is running or waiting. -/
inductive Frame (ε : Type) where
  /-- Code of the program. -/
  | code
  /-- The `while` of `run_forever`. -/
  | forever
  /-- `Handle._run`, with the context to go back to. -/
  | handle (saved : ContextId)
  /-- `call_exception_handler` around the program's handler. -/
  | handler (e : Option ε)
  /-- `run_until_complete` around `run_forever`. -/
  | untilComplete (f : FutId)
  /-- `run_until_complete` around `fut.cancel()`. -/
  | cancelling (f : FutId)
  /-- The drain of `run_until_complete`. -/
  | drain (f : FutId)
  /-- `run_until_complete` around `gc.collect()`. -/
  | collecting (f : FutId) (completed : Bool)
  deriving DecidableEq

/-- How control reached the top frame. -/
inductive Signal (ε υ : Type) where
  | run
  | returned (v : Option υ)
  | raised (e : Failure ε)
  deriving DecidableEq

/-- A program running on a loop. -/
structure Session (π ω κ ε υ ρ : Type) where
  loop : LoopState π (Body κ) ε ρ
  futures : Dict FutId (Future κ ε υ)
  nextFuture : FutId
  world : ω
  stack : List (Frame ε)
  signal : Signal ε υ

variable {π ω κ ε υ ρ : Type}

namespace Session

/-- The program about to start on a loop. -/
def start (loop : LoopState π (Body κ) ε ρ) (world : ω) : Session π ω κ ε υ ρ :=
  ⟨loop, Dict.empty, 0, world, [.code], .run⟩

/-- `fut.done()`. -/
def done (s : Session π ω κ ε υ ρ) (f : FutId) : Bool :=
  match s.futures.get? f with
  | some fut => fut.outcome.isSome
  | none => false

/-- `self._stop_when_done`, as the callable it is. -/
def stopWhenDone : Callback (Body κ) := ⟨some "SimLoop._stop_when_done", "method", none, .stopWhenDone⟩

section

variable (P : SchedulingPolicy π) (R : RandomSource ρ)

/-- A call on the session's loop. -/
def op (s : Session π ω κ ε υ ρ) (o : Op (Body κ) ε) :
    Reply (Body κ) × Session π ω κ ε υ ρ :=
  let (r, loop) := s.loop.perform P R o
  (r, { s with loop := loop })

/-! ## Futures -/

/-- `Future.__schedule_callbacks`. -/
def scheduleCallbacks (s : Session π ω κ ε υ ρ) :
    List (Callback (Body κ) × ContextId) → Option LoopError × Session π ω κ ε υ ρ
  | [] => (none, s)
  | (cb, context) :: rest =>
    match s.op P R (.callSoon cb (some context)) with
    | (.raised e, s) => (some e, s)
    | (_, s) => scheduleCallbacks s rest

/-- `set_result` and its kin. -/
def complete (s : Session π ω κ ε υ ρ) (f : FutId) (outcome : Except ε υ) :
    Option LoopError × Session π ω κ ε υ ρ :=
  match s.futures.get? f with
  | none => (some (.invalidState "no such future"), s)
  | some fut =>
    if fut.outcome.isSome then (some (.invalidState "invalid state"), s)
    else
      scheduleCallbacks P R
        { s with futures := s.futures.insert f ⟨some outcome, []⟩ } fut.callbacks

/-- `fut.add_done_callback`. -/
def addDoneCallback (s : Session π ω κ ε υ ρ) (f : FutId) (cb : Callback (Body κ))
    (context : Option ContextId) : Option LoopError × Session π ω κ ε υ ρ :=
  match s.futures.get? f with
  | none => (some (.invalidState "no such future"), s)
  | some fut =>
    if fut.outcome.isSome then
      match s.op P R (.callSoon cb context) with
      | (.raised e, s) => (some e, s)
      | (_, s) => (none, s)
    else
      match context with
      | some c =>
        (none, { s with futures := s.futures.insert f ⟨fut.outcome, fut.callbacks ++ [(cb, c)]⟩ })
      | none =>
        match s.op P R .copyContext with
        | (.context c, s) =>
          (none,
            { s with futures := s.futures.insert f ⟨fut.outcome, fut.callbacks ++ [(cb, c)]⟩ })
        | (_, s) => (none, s)

/-- `fut.remove_done_callback(self._stop_when_done)`. -/
def removeStopCallback (s : Session π ω κ ε υ ρ) (f : FutId) : Session π ω κ ε υ ρ :=
  match s.futures.get? f with
  | none => s
  | some fut =>
    { s with
      futures := s.futures.insert f
        ⟨fut.outcome, fut.callbacks.filter fun c =>
          match c.1.body with
          | .stopWhenDone => false
          | .user _ => true⟩ }

/-! ## Control -/

/-- Control returns to the frame below. -/
def returnTo (s : Session π ω κ ε υ ρ) (stack : List (Frame ε)) (v : Option υ) :
    Session π ω κ ε υ ρ :=
  { s with stack := stack, signal := .returned v }

/-- An exception propagates to the frame below. -/
def raiseTo (s : Session π ω κ ε υ ρ) (stack : List (Frame ε)) (e : Failure ε) :
    Session π ω κ ε υ ρ :=
  { s with stack := stack, signal := .raised e }

variable (W : Workload ω κ ε υ)

/-- Code of the program is entered over a stack of waiting frames. -/
def enterCode (s : Session π ω κ ε υ ρ) (entry : Entry κ ε) (stack : List (Frame ε)) :
    Session π ω κ ε υ ρ :=
  { s with world := W.enter s.world entry, stack := .code :: stack, signal := .run }

/-- The program is told what its act came to. -/
def answer (s : Session π ω κ ε υ ρ) (a : Answer κ ε υ) : Session π ω κ ε υ ρ :=
  { s with world := W.resume s.world a, signal := .run }

/-- The answer to an act that returns nothing or raises. -/
def answerError (s : Session π ω κ ε υ ρ) : Option LoopError → Session π ω κ ε υ ρ
  | none => s.answer W (.value none)
  | some e => s.answer W (.raised (.loop e))

/-- `call_exception_handler`, for a context with or without an exception, over the
stack it returns to. -/
def callExceptionHandler (s : Session π ω κ ε υ ρ) (e : Option ε)
    (stack : List (Frame ε)) : Session π ω κ ε υ ρ :=
  match s.loop.exceptionHandler with
  | some h => s.enterCode W (.handler h e) (.handler e :: stack)
  | none =>
    match e with
    | some e => ((s.op P R (.collect e)).2).returnTo stack none
    | none => s.returnTo stack none

/-- The callback of a drawn handle is entered, over the frame whose step drew it. -/
def beginHandle (s : Session π ω κ ε υ ρ) (entry : ReadyEntry (Body κ))
    (stack : List (Frame ε)) : Session π ω κ ε υ ρ :=
  match entry.callback.body with
  | .stopWhenDone => ((s.op P R .stop).2).returnTo stack none
  | .user k =>
    let saved := s.loop.current
    ((s.op P R (.enter entry.context)).2).enterCode W (.callback k) (.handle saved :: stack)

/-- Whether the frame on top is a loop whose condition asks for another step. -/
def wantsStep (s : Session π ω κ ε υ ρ) : Bool :=
  let work := !s.loop.ready.isEmpty || !s.loop.timers.isEmpty
  match s.stack, s.signal with
  | .forever :: _, .run => !s.loop.stopping && work
  | .drain f :: _, .run => work && !s.done f
  | _, _ => false

/-- What follows a `_step` that got as far as `outcome`. -/
def afterStep (s : Session π ω κ ε υ ρ) (outcome : LoopState.StepOutcome (Body κ)) :
    Session π ω κ ε υ ρ :=
  match outcome with
  | .skipped _ => s
  | .run entry => s.beginHandle P R W entry s.stack
  | .raised e => { s with signal := .raised (.loop e) }

/-- One act of the program. -/
def doAct (s : Session π ω κ ε υ ρ) (rest : List (Frame ε)) : Session π ω κ ε υ ρ :=
  match W.act s.world with
  | .call o => let (r, s) := s.op P R o.1; s.answer W (.reply r)
  | .newFuture =>
    ({ s with
      futures := s.futures.insert s.nextFuture ⟨none, []⟩
      nextFuture := s.nextFuture + 1 } : Session π ω κ ε υ ρ).answer W (.future s.nextFuture)
  | .complete f outcome => let (e, s) := s.complete P R f outcome; s.answerError W e
  | .addDoneCallback f cb context =>
    let (e, s) := s.addDoneCallback P R f cb context; s.answerError W e
  | .outcome f => s.answer W (.outcome ((s.futures.get? f).bind Future.outcome))
  | .callExceptionHandler e => s.callExceptionHandler P R W e (.code :: rest)
  | .runForever =>
    match s.op P R .enterRun with
    | (.raised e, s) => s.answer W (.raised (.loop e))
    | (_, s) => { s with stack := .forever :: .code :: rest, signal := .run }
  | .runUntilComplete f =>
    match s.addDoneCallback P R f stopWhenDone none with
    | (some e, s) => s.answer W (.raised (.loop e))
    | (none, s) =>
      match s.op P R .enterRun with
      | (.raised e, s) => (s.removeStopCallback f).answer W (.raised (.loop e))
      | (_, s) =>
        { s with stack := .forever :: .untilComplete f :: .code :: rest, signal := .run }
  | .ret => s.returnTo rest none
  | .raise e => s.raiseTo rest (.user e)

/-- `run_until_complete` once the run has ended and garbage was collected. -/
def verdict (s : Session π ω κ ε υ ρ) (f : FutId) (completed : Bool) (rest : List (Frame ε)) :
    Session π ω κ ε υ ρ :=
  if completed then
    match (s.futures.get? f).bind Future.outcome with
    | some (.error e) => s.raiseTo rest (.user e)
    | some (.ok v) =>
      match s.loop.unhandled with
      | e :: _ => s.raiseTo rest (.user e)
      | [] => s.returnTo rest (some v)
    | none => s.raiseTo rest (.loop (.invalidState "Result is not set."))
  else
    match s.loop.unhandled with
    | e :: _ => s.raiseTo rest (.user e)
    | [] =>
      s.raiseTo rest
        (.loop (.deadlock "the awaited future never completed: all tasks are blocked"))

/-- One turn of whatever is on top of the stack, other than a step of the loop. -/
def turn (s : Session π ω κ ε υ ρ) : Session π ω κ ε υ ρ :=
  match s.stack, s.signal with
  | [], _ => s
  | .code :: rest, .run => s.doAct P R W rest
  | .code :: _, .returned v => s.answer W (.value v)
  | .code :: _, .raised e => s.answer W (.raised e)
  | .forever :: rest, .run => ((s.op P R .leaveRun).2).returnTo rest none
  | .forever :: _, .returned _ => { s with signal := .run }
  | .forever :: rest, .raised e => ((s.op P R .leaveRun).2).raiseTo rest e
  | .handle _ :: rest, .run => s.returnTo rest none
  | .handle saved :: rest, .returned _ => ((s.op P R (.enter saved)).2).returnTo rest none
  | .handle saved :: rest, .raised (.user e) =>
    let s := (s.op P R (.enter saved)).2
    if W.isExit e then s.raiseTo rest (.user e)
    else s.callExceptionHandler P R W (some e) rest
  | .handler _ :: rest, .run => s.returnTo rest none
  | .handler _ :: rest, .returned _ => s.returnTo rest none
  | .handler e :: rest, .raised (.user e') =>
    if W.isExit e' then s.raiseTo rest (.user e')
    else
      let s := (s.op P R (.collect e')).2
      match e with
      | some e => ((s.op P R (.collect e)).2).returnTo rest none
      | none => s.returnTo rest none
  -- Code of the program raises exceptions of the program only.
  | .handle _ :: rest, .raised (.loop e) => s.raiseTo rest (.loop e)
  | .handler _ :: rest, .raised (.loop e) => s.raiseTo rest (.loop e)
  | .untilComplete _ :: rest, .run => s.returnTo rest none
  | .untilComplete f :: rest, .returned _ =>
    let s := s.removeStopCallback f
    if s.done f then s.enterCode W .garbage (.collecting f true :: rest)
    else s.enterCode W (.cancel f) (.cancelling f :: rest)
  | .untilComplete f :: rest, .raised e => (s.removeStopCallback f).raiseTo rest e
  | .cancelling _ :: rest, .run => s.returnTo rest none
  | .cancelling f :: rest, .returned _ => { s with stack := .drain f :: rest, signal := .run }
  | .cancelling _ :: rest, .raised e => s.raiseTo rest e
  | .drain f :: rest, .run => s.enterCode W .garbage (.collecting f false :: rest)
  | .drain _ :: _, .returned _ => { s with signal := .run }
  | .drain _ :: rest, .raised e => s.raiseTo rest e
  | .collecting f completed :: rest, _ => s.verdict f completed rest

/-- The next state of a session. -/
def tick (s : Session π ω κ ε υ ρ) : Session π ω κ ε υ ρ :=
  if s.wantsStep then
    let (outcome, loop) := s.loop.step P
    ({ s with loop := loop } : Session π ω κ ε υ ρ).afterStep P R W outcome
  else s.turn P R W

/-- The state after `n` ticks. -/
def after (s : Session π ω κ ε υ ρ) : Nat → Session π ω κ ε υ ρ
  | 0 => s
  | n + 1 => tick P R W (after s n)

end

end Session

end SimLoop.Loop
