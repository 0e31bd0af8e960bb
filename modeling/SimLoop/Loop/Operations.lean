/-
  Loop/Operations.lean --- scheduling, the clock and the step (`_loop.py`).

  Each operation returns what Python returns or raises together with the state it
  leaves, also when it raises.
-/
import SimLoop.Loop.State

set_option autoImplicit false

namespace SimLoop.Loop

open SimLoop.Foundation SimLoop.Policy

namespace LoopState

variable {π κ ε ρ : Type}

/-! ## Contexts -/

/-- `contextvars.copy_context()`. -/
def copyContext (s : LoopState π κ ε ρ) : ContextId × LoopState π κ ε ρ :=
  let c := s.nextContext
  let contexts :=
    match s.contexts.get? s.current with
    | some h => s.contexts.insert c h
    | none => s.contexts
  (c, { s with contexts := contexts, nextContext := c + 1 })

/-- The context a new handle carries: the one passed in, else a copy of the caller's. -/
def handleContext (s : LoopState π κ ε ρ) (context : Option ContextId) :
    ContextId × LoopState π κ ε ρ :=
  match context with
  | some c => (c, s)
  | none => s.copyContext

/-! ## Scheduling -/

/-- The message of `_check_closed`. -/
def closedError : LoopError := .runtime "event loop is closed"

/-- `SimLoop.call_soon`: the handle, by its sequence number. -/
def callSoon (s : LoopState π κ ε ρ) (cb : Callback κ) (context : Option ContextId) :
    Except LoopError Nat × LoopState π κ ε ρ :=
  if s.closed then (.error closedError, s)
  else
    let (c, s) := s.handleContext context
    let seq := s.nextSeq
    let s := { s with nextSeq := seq + 1, ready := s.ready ++ [ReadyEntry.mk seq cb.label c cb] }
    (.ok seq, s.record .schedule seq cb.label s.currentHost)

/-- `SimLoop._call_at_true`. -/
def callAtTrue (s : LoopState π κ ε ρ) (when_ shown : ℚ) (cb : Callback κ)
    (context : Option ContextId) : Except LoopError Nat × LoopState π κ ε ρ :=
  if s.closed then (.error closedError, s)
  else
    let (c, s) := s.handleContext context
    let seq := s.nextSeq
    let s := { s with
      nextSeq := seq + 1, timers := heappush (TimerEntry.mk when_ seq cb.label c shown cb) s.timers }
    (.ok seq, s.record .schedule seq cb.label s.currentHost)

/-- `SimLoop.call_later`. -/
def callLater (s : LoopState π κ ε ρ) (delay : ℚ) (cb : Callback κ)
    (context : Option ContextId) : Except LoopError Nat × LoopState π κ ε ρ :=
  s.callAtTrue (s.now + delay) (s.now + delay + s.offsetNow) cb context

/-- `SimLoop.call_at`. -/
def callAt (s : LoopState π κ ε ρ) (when_ : ℚ) (cb : Callback κ)
    (context : Option ContextId) : Except LoopError Nat × LoopState π κ ε ρ :=
  s.callAtTrue (when_ - s.offsetNow) when_ cb context

/-- `handle.cancel()`, on a handle the loop has given out. -/
def cancel (s : LoopState π κ ε ρ) (seq : Nat) : LoopState π κ ε ρ :=
  if seq < s.nextSeq then { s with cancelled := seq :: s.cancelled } else s

/-- The bookkeeping of `SimLoop.create_task`, once the task exists. -/
def ownTask (s : LoopState π κ ε ρ) (task : TaskId) : LoopState π κ ε ρ :=
  { s with taskOwners := s.taskOwners.insert task s.nextOwner, nextOwner := s.nextOwner + 1 }

/-! ## The clock -/

/-- The first `while` of `_advance_clock`: cancelled timers leave the top of the heap. -/
def dropCancelled : List (TimerEntry κ) → LoopState π κ ε ρ → LoopState π κ ε ρ
  | [], s => { s with timers := [] }
  | t :: rest, s =>
    if s.isCancelled t.seq then
      dropCancelled rest (s.record .cancel t.seq t.label (s.hostOf t.context))
    else { s with timers := t :: rest }

/-- The second `while` of `_advance_clock`: timers that are due become ready, unless
they were cancelled. -/
def collectDue : List (TimerEntry κ) → LoopState π κ ε ρ → LoopState π κ ε ρ
  | [], s => { s with timers := [] }
  | t :: rest, s =>
    if t.when_ ≤ s.now then
      if s.isCancelled t.seq then
        collectDue rest (s.record .cancel t.seq t.label (s.hostOf t.context))
      else collectDue rest { s with ready := s.ready ++ [t.due] }
    else { s with timers := t :: rest }

/-- What `_advance_clock` raises. -/
def noTimersError : LoopError :=
  .deadlock "nothing left to run: no ready callbacks and no pending timers"

/-- `SimLoop._advance_clock`: what it raises, if anything, and the state it leaves. -/
def advanceClock (s : LoopState π κ ε ρ) : Option LoopError × LoopState π κ ε ρ :=
  let s := dropCancelled s.timers s
  match s.timers with
  | [] => (some noTimersError, s)
  | t :: _ =>
    let s := { s with now := max s.now t.when_ }
    let s := s.record .advance (-1) "" ""
    (none, collectDue s.timers s)

/-! ## The step -/

/-- How `_step` ends before the callback runs: it raised, it skipped a cancelled
handle, or it is about to run one. -/
inductive StepOutcome (κ : Type) where
  | raised (e : LoopError)
  | skipped (entry : ReadyEntry κ)
  | run (entry : ReadyEntry κ)
  deriving DecidableEq

/-- `_step` once the policy's index is accepted: it is logged, the entry it names leaves
the ready list and its event is recorded. -/
def pop (s : LoopState π κ ε ρ) (index : Nat) : StepOutcome κ × LoopState π κ ε ρ :=
  let s := { s with choiceLog := s.choiceLog ++ [index] }
  match s.ready[index]? with
  | none => (.raised (.index "pop index out of range"), s)
  | some entry =>
    let s := { s with ready := s.ready.eraseIdx index }
    if s.isCancelled entry.seq then
      (.skipped entry, s.record .cancel entry.seq entry.label (s.hostOf entry.context))
    else (.run entry, s.record .run entry.seq entry.label (s.hostOf entry.context))

/-- `_step` from the policy's choice on, up to `handle._run()`. -/
def draw (P : SchedulingPolicy π) (s : LoopState π κ ε ρ) :
    StepOutcome κ × LoopState π κ ε ρ :=
  match P.choose s.policy s.readyViews with
  | (.error e, p) => (.raised (.value e), { s with policy := p })
  | (.ok index, p) =>
    let s := { s with policy := p }
    if index > maxChoice then
      (.raised (.assertion "ready queue outgrew the choice log"), s)
    else if index < 0 then
      (.raised (.overflow "can't convert negative value to unsigned int"), s)
    else s.pop index.toNat

/-- `SimLoop._step`, up to `handle._run()`. -/
def step (P : SchedulingPolicy π) (s : LoopState π κ ε ρ) :
    StepOutcome κ × LoopState π κ ε ρ :=
  if s.ready.isEmpty then
    match s.advanceClock with
    | (some e, s) => (.raised e, s)
    | (none, s) => s.draw P
  else s.draw P

/-! ## Running and closing -/

/-- The entry of `run_forever`. -/
def enterRun (s : LoopState π κ ε ρ) : Option LoopError × LoopState π κ ε ρ :=
  if s.closed then (some closedError, s)
  else if s.running then (some (.runtime "this event loop is already running"), s)
  else (none, { s with running := true })

/-- The `finally` of `run_forever`. -/
def leaveRun (s : LoopState π κ ε ρ) : LoopState π κ ε ρ :=
  { s with stopping := false, running := false }

/-- `SimLoop.stop`. -/
def stop (s : LoopState π κ ε ρ) : LoopState π κ ε ρ := { s with stopping := true }

/-- `SimLoop.close`. -/
def close (s : LoopState π κ ε ρ) : Option LoopError × LoopState π κ ε ρ :=
  if s.running then (some (.runtime "cannot close a running event loop"), s)
  else (none, { s with closed := true })

/-- `default_exception_handler`, for a context that holds an exception. -/
def collect (s : LoopState π κ ε ρ) (e : ε) : LoopState π κ ε ρ :=
  { s with unhandled := s.unhandled ++ [e] }

end LoopState

end SimLoop.Loop
