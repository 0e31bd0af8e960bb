/-
  Loop/Machine.lean --- every call a program can make on a loop, and their runs.

  Code that runs on the loop, between steps or inside a callback, is a sequence of
  `Op`s; `step` is the loop's own `_step` up to the callback it enters.  A run of
  `Op`s in any order is a superset of what any program does under any policy, so
  what holds of all of them holds of all programs.  `Watched` adds the one thing
  the loop itself forgets: with what deadline, and at what time, each handle was
  booked.
-/
import SimLoop.Foundation.Machine
import SimLoop.Loop.Operations

set_option autoImplicit false

namespace SimLoop.Loop

open SimLoop.Foundation SimLoop.Policy

/-! ## Draws of the program and the network -/

/-- The seeded streams a run draws from besides the policy's. -/
inductive Stream where
  | user
  | uuid
  | net
  | disk
  deriving DecidableEq, Repr

/-- A draw, with its arguments. -/
inductive Draw where
  | random
  | uniform (lo hi : ℚ)
  | randint (lo hi : Nat)
  | randrange (n : Nat)
  | getrandbits (k : Nat)

/-- Make a draw. -/
def Draw.from {ρ : Type} (R : RandomSource ρ) (r : ρ) : Draw → ℚ × ρ
  | .random => R.random r
  | .uniform lo hi => R.uniform r lo hi
  | .randint lo hi => let (n, r) := R.randint r lo hi; (n, r)
  | .randrange n => let (n, r) := R.randrange r n; (n, r)
  | .getrandbits k => let (n, r) := R.getrandbits r k; (n, r)

/-! ## Calls and answers -/

/-- A call on the loop. -/
inductive Op (κ ε : Type) where
  | callSoon (cb : Callback κ) (context : Option ContextId)
  | callLater (delay : ℚ) (cb : Callback κ) (context : Option ContextId)
  | callAt (when_ : ℚ) (cb : Callback κ) (context : Option ContextId)
  /-- `create_task`: the task, and the first step its constructor queues. -/
  | createTask (task : TaskId) (cb : Callback κ) (context : Option ContextId)
  | cancel (seq : Nat)
  | time
  | step
  | stop
  | enterRun
  | leaveRun
  | close
  | copyContext
  /-- `_current_host.set(host)`. -/
  | setHost (host : HostName)
  /-- `context.run` begins or ends. -/
  | enter (context : ContextId)
  | setClock (host : HostName) (offset : ℚ)
  /-- `SimNetwork._trace`. -/
  | trace (uid : Nat) (label : String)
  | draw (stream : Stream) (d : Draw)
  | setExceptionHandler (handler : Option κ)
  | collect (e : ε)
  /-- The loop's public attributes are read. -/
  | inspect

/-- What a program can read off a loop: `seed`, `trace`, `is_running()`, `is_closed()`,
`get_exception_handler()`, and the host it runs under. -/
structure LoopView (κ : Type) where
  seed : Int
  trace : List TraceEvent
  running : Bool
  closed : Bool
  exceptionHandler : Option κ
  host : HostName

/-- What a call answers. -/
inductive Reply (κ : Type) where
  | unit
  | handle (seq : Nat)
  | number (q : ℚ)
  | context (c : ContextId)
  | outcome (o : LoopState.StepOutcome κ)
  | view (v : LoopView κ)
  | raised (e : LoopError)

/-- The answer to a scheduling call. -/
def Reply.ofHandle {κ : Type} : Except LoopError Nat → Reply κ
  | .ok seq => .handle seq
  | .error e => .raised e

/-- The answer to a call that returns nothing. -/
def Reply.ofError {κ : Type} : Option LoopError → Reply κ
  | none => .unit
  | some e => .raised e

variable {π κ ε ρ : Type}

namespace LoopState

/-- The stream a draw is made from. -/
def stream (s : LoopState π κ ε ρ) : Stream → ρ
  | .user => s.userRandom
  | .uuid => s.uuidRandom
  | .net => s.netRng
  | .disk => s.diskRng

/-- The stream after a draw. -/
def setStream (s : LoopState π κ ε ρ) (r : ρ) : Stream → LoopState π κ ε ρ
  | .user => { s with userRandom := r }
  | .uuid => { s with uuidRandom := r }
  | .net => { s with netRng := r }
  | .disk => { s with diskRng := r }

/-- `SimLoop.create_task` with no task factory. -/
def createTask (s : LoopState π κ ε ρ) (task : TaskId) (cb : Callback κ)
    (context : Option ContextId) : Except LoopError Nat × LoopState π κ ε ρ :=
  match s.callSoon cb context with
  | (.error e, s) => (.error e, s)
  | (.ok seq, s) => (.ok seq, s.ownTask task)

/-- Make a call. -/
def perform (P : SchedulingPolicy π) (R : RandomSource ρ) (s : LoopState π κ ε ρ) :
    Op κ ε → Reply κ × LoopState π κ ε ρ
  | .callSoon cb context => let (r, s) := s.callSoon cb context; (.ofHandle r, s)
  | .callLater delay cb context => let (r, s) := s.callLater delay cb context; (.ofHandle r, s)
  | .callAt when_ cb context => let (r, s) := s.callAt when_ cb context; (.ofHandle r, s)
  | .createTask task cb context =>
    let (r, s) := s.createTask task cb context; (.ofHandle r, s)
  | .cancel seq => (.unit, s.cancel seq)
  | .time => (.number s.time, s)
  | .step => let (o, s) := s.step P; (.outcome o, s)
  | .stop => (.unit, s.stop)
  | .enterRun => let (e, s) := s.enterRun; (.ofError e, s)
  | .leaveRun => (.unit, s.leaveRun)
  | .close => let (e, s) := s.close; (.ofError e, s)
  | .copyContext => let (c, s) := s.copyContext; (.context c, s)
  | .setHost host => (.unit, { s with contexts := s.contexts.insert s.current host })
  | .enter context => (.unit, { s with current := context })
  | .setClock host offset => (.unit, { s with clockOffsets := s.clockOffsets.insert host offset })
  | .trace uid label => (.unit, s.record .net uid label "")
  | .draw st d =>
    let (q, r) := d.from R (s.stream st)
    (.number q, s.setStream r st)
  | .setExceptionHandler handler => (.unit, { s with exceptionHandler := handler })
  | .collect e => (.unit, s.collect e)
  | .inspect =>
    (.view ⟨s.seed, s.recorder.events, s.running, s.closed, s.exceptionHandler, s.currentHost⟩, s)

end LoopState

/-! ## Watched runs -/

/-- A handle as it was booked: its deadline on the true clock, when it has one, and
the true time at that moment. -/
structure Booking where
  seq : Nat
  due : Option ℚ
  clock : ℚ
  deriving DecidableEq

/-- The true deadline a call books its handle for. -/
def Op.due (s : LoopState π κ ε ρ) : Op κ ε → Option ℚ
  | .callLater delay _ _ => some (s.now + delay)
  | .callAt when_ _ _ => some (when_ - s.offsetNow)
  | _ => none

/-- A loop and the handles booked on it so far, oldest first. -/
structure Watched (π κ ε ρ : Type) where
  loop : LoopState π κ ε ρ
  bookings : List Booking

/-- The booking a call makes, when it is answered with a handle. -/
def booked (s : LoopState π κ ε ρ) (op : Op κ ε) : Reply κ → List Booking
  | .handle seq => [⟨seq, op.due s, s.now⟩]
  | _ => []

namespace Watched

/-- A loop nobody has used. -/
def fresh (R : RandomSource ρ) (policy : π) (seed : Int) : Watched π κ ε ρ :=
  ⟨LoopState.fresh R policy seed, []⟩

/-- One call, watched. -/
def step (P : SchedulingPolicy π) (R : RandomSource ρ) (w : Watched π κ ε ρ) (op : Op κ ε)
    (w' : Watched π κ ε ρ) : Prop :=
  w' = ⟨(w.loop.perform P R op).2,
    w.bookings ++ booked w.loop op (w.loop.perform P R op).1⟩

/-- The calls one after the other. -/
def exec (P : SchedulingPolicy π) (R : RandomSource ρ) (w : Watched π κ ε ρ) :
    List (Op κ ε) → Watched π κ ε ρ
  | [] => w
  | op :: ops =>
    exec P R ⟨(w.loop.perform P R op).2,
      w.bookings ++ booked w.loop op (w.loop.perform P R op).1⟩ ops

theorem run_exec (P : SchedulingPolicy π) (R : RandomSource ρ) (w : Watched π κ ε ρ)
    (ops : List (Op κ ε)) : Run (step P R) w ops (exec P R w ops) := by
  induction ops generalizing w with
  | nil => exact .nil w
  | cons op ops ih => exact Run.append (.snoc (.nil w) rfl) (ih _)

end Watched

end SimLoop.Loop
