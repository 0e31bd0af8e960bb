/-
  Loop/State.lean --- the state of a `SimLoop` (`_loop.py`).

  A handle is named by the sequence number of its entry, a context by a number
  whose pinned host is looked up in `contexts`, so that a context shared by
  several handles is one cell.  The timer heap is the list of its entries in the
  order `heapq` pops them.  Exceptions of the program are an arbitrary type `ε`.
-/
import SimLoop.Loop.Trace
import SimLoop.Policy.Pct
import Mathlib.Data.List.Sort

set_option autoImplicit false

namespace SimLoop.Loop

open SimLoop.Foundation SimLoop.Policy

/-! ## Exceptions -/

/-- The exceptions the loop's own code raises. -/
inductive LoopError where
  /-- `SimulationDeadlockError`. -/
  | deadlock (message : String)
  /-- `RuntimeError`. -/
  | runtime (message : String)
  /-- `AssertionError`. -/
  | assertion (message : String)
  /-- `OverflowError`. -/
  | overflow (message : String)
  /-- `IndexError`. -/
  | index (message : String)
  /-- `asyncio.InvalidStateError`. -/
  | invalidState (message : String)
  /-- `ValueError` out of a policy. -/
  | value (e : ValueError)
  deriving DecidableEq, Repr

/-- `isinstance(e, SimulationDeadlockError)`. -/
def LoopError.isDeadlock : LoopError → Bool
  | .deadlock _ => true
  | _ => false

/-- An exception in flight: one the loop's own code raised, or one of the program's.  What
the program passes on of the loop's exceptions counts as the program's. -/
inductive Failure (ε : Type) where
  | loop (e : LoopError)
  | user (e : ε)
  deriving DecidableEq

/-! ## Handles and queue entries -/

/-- An `asyncio.Task`, by creation order. -/
abbrev TaskId := Nat

/-- A `contextvars.Context`, by creation order. -/
abbrev ContextId := Nat

/-- A callable handed to the loop: the two names `_label` looks at, the task it is
bound to (`__self__`, when that is a task), and what it does. -/
structure Callback (κ : Type) where
  qualname : Option String
  typeName : String
  task : Option TaskId
  body : κ
  deriving DecidableEq

/-- `_label`. -/
def Callback.label {κ : Type} (cb : Callback κ) : String := cb.qualname.getD cb.typeName

/-- `_ReadyEntry`. -/
structure ReadyEntry (κ : Type) where
  seq : Nat
  label : String
  context : ContextId
  callback : Callback κ
  deriving DecidableEq

/-- An entry of the timer heap.  `shown` is what the handle's `when()` returns. -/
structure TimerEntry (κ : Type) where
  when_ : ℚ
  seq : Nat
  label : String
  context : ContextId
  shown : ℚ
  callback : Callback κ

/-- The ready entry a timer becomes when it is due. -/
def TimerEntry.due {κ : Type} (t : TimerEntry κ) : ReadyEntry κ :=
  ⟨t.seq, t.label, t.context, t.callback⟩

/-- The order of the timer heap: deadline first, then sequence number. -/
def TimerEntry.before {κ : Type} (a b : TimerEntry κ) : Prop :=
  a.when_ < b.when_ ∨ (a.when_ = b.when_ ∧ a.seq ≤ b.seq)

instance {κ : Type} (a b : TimerEntry κ) : Decidable (a.before b) := by
  unfold TimerEntry.before
  infer_instance

/-- `heapq.heappush`, on the list of entries in pop order. -/
def heappush {κ : Type} (t : TimerEntry κ) (timers : List (TimerEntry κ)) :
    List (TimerEntry κ) :=
  timers.orderedInsert TimerEntry.before t

/-! ## The loop -/

/-- `SimLoop`, over policy states `π`, callables `κ`, the program's exceptions `ε` and
random streams `ρ`. -/
structure LoopState (π κ ε ρ : Type) where
  seed : Int
  policy : π
  choiceLog : List Nat
  userRandom : ρ
  uuidRandom : ρ
  netRng : ρ
  diskRng : ρ
  now : ℚ
  ready : List (ReadyEntry κ)
  timers : List (TimerEntry κ)
  /-- The handles whose `cancel()` was called. -/
  cancelled : List Nat
  nextSeq : Nat
  taskOwners : Dict TaskId Nat
  nextOwner : Nat
  recorder : TraceRecorder
  running : Bool
  closed : Bool
  stopping : Bool
  unhandled : List ε
  exceptionHandler : Option κ
  /-- What `_current_host` is set to in each context that sets it. -/
  contexts : Dict ContextId HostName
  /-- The context the running code is in. -/
  current : ContextId
  nextContext : ContextId
  /-- `SimNetwork._clock_offsets`. -/
  clockOffsets : Dict HostName ℚ

namespace LoopState

variable {π κ ε ρ : Type}

/-- The fields of a fresh loop that do not depend on its policy. -/
def fresh (R : RandomSource ρ) (policy : π) (seed : Int) : LoopState π κ ε ρ where
  seed := seed
  policy := policy
  choiceLog := []
  userRandom := R.seeded s!"{seed}:random"
  uuidRandom := R.seeded s!"{seed}:uuid"
  netRng := R.seeded s!"{seed}:net"
  diskRng := R.seeded s!"{seed}:disk"
  now := 0
  ready := []
  timers := []
  cancelled := []
  nextSeq := 0
  taskOwners := Dict.empty
  nextOwner := 0
  recorder := ⟨[]⟩
  running := false
  closed := false
  stopping := false
  unhandled := []
  exceptionHandler := none
  contexts := Dict.empty
  current := 0
  nextContext := 1
  clockOffsets := Dict.empty

/-- `SimLoop.__init__`. -/
def init (R : RandomSource ρ) (seed : Int) : LoopState (Shipped ρ) κ ε ρ :=
  fresh R (.seeded (SeededPolicy.init R seed)) seed

/-- `SimLoop._from_choices`: a plain loop on the seed's streams, its policy replaced. -/
def fromChoices (R : RandomSource ρ) (choices : List Int) (faultSeed : Int) :
    Except ValueError (LoopState (Shipped ρ) κ ε ρ) :=
  match ScriptedPolicy.init choices with
  | .error e => .error e
  | .ok p => .ok { (init R faultSeed : LoopState (Shipped ρ) κ ε ρ) with policy := .scripted p }

/-! ## Contexts and views -/

/-- `_host_of`: what a context pins, or the driver. -/
def hostOf (s : LoopState π κ ε ρ) (c : ContextId) : HostName := (s.contexts.get? c).getD driver

/-- `_current_host.get()`. -/
def currentHost (s : LoopState π κ ε ρ) : HostName := s.hostOf s.current

/-- `SimNetwork._offset_now`. -/
def offsetNow (s : LoopState π κ ε ρ) : ℚ := (s.clockOffsets.get? s.currentHost).getD 0

/-- `SimLoop.time`. -/
def time (s : LoopState π κ ε ρ) : ℚ := s.now + s.offsetNow

/-- `_ReadyViews.__getitem__` of one entry. -/
def readyView (s : LoopState π κ ε ρ) (e : ReadyEntry κ) : ReadyView :=
  match e.callback.task.bind s.taskOwners.get? with
  | some owner => (owner, e.label)
  | none => (-1 - (e.seq : Int), e.label)

/-- `_ReadyViews`. -/
def readyViews (s : LoopState π κ ε ρ) : List ReadyView := s.ready.map s.readyView

/-- `handle.cancelled()`. -/
def isCancelled (s : LoopState π κ ε ρ) (seq : Nat) : Bool := decide (seq ∈ s.cancelled)

/-- `self._recorder.record(kind, self._now, seq, label, host)`. -/
def record (s : LoopState π κ ε ρ) (kind : EventKind) (seq : Int) (label : String)
    (host : HostName) : LoopState π κ ε ρ :=
  { s with recorder := s.recorder.record ⟨kind, s.now, seq, label, host⟩ }

@[simp] theorem readyViews_length (s : LoopState π κ ε ρ) :
    s.readyViews.length = s.ready.length := List.length_map _

@[simp] theorem isCancelled_iff (s : LoopState π κ ε ρ) (seq : Nat) :
    s.isCancelled seq = true ↔ seq ∈ s.cancelled := decide_eq_true_iff

@[simp] theorem isCancelled_eq_false_iff (s : LoopState π κ ε ρ) (seq : Nat) :
    s.isCancelled seq = false ↔ seq ∉ s.cancelled := decide_eq_false_iff_not

end LoopState

end SimLoop.Loop
