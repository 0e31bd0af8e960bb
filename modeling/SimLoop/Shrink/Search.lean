/-
  Shrink/Search.lean --- replaying candidates and `shrink_schedule` (`_shrink.py`).

  A workload that is deterministic given its seed and the choices its policy returns
  is a function of the choices returned so far: either the run is over, or its loop
  asks about a ready queue.  Replaying drives it with the scripted policy.  Nothing
  bounds the steps of a run, so a replay takes `fuel`, the choices it may make; a run
  may also end by an exception that `run_once` lets out, and that leaves the search.

  `Search.probed` is kept for the reader and read by no function of the source.
-/
import SimLoop.Loop.Trace
import SimLoop.Policy.Scheduling
import SimLoop.Shrink.Passes
import Mathlib.Data.Prod.Lex
import Mathlib.Data.Nat.Find

set_option autoImplicit false

namespace SimLoop.Shrink

open SimLoop.Foundation SimLoop.Policy SimLoop.Loop

variable {τ : Type}

/-! ## Workloads -/

/-- An exception: `type(exc)` and `str(exc)`. -/
structure Raised (τ : Type) where
  type : τ
  message : String
  deriving DecidableEq

/-- How a run and its teardown end: without an exception, by the `Exception` that
`run_once` reports, by an exception that it lets out (a cancellation, an exit), or in a
teardown that goes on for ever. -/
inductive Ending (τ : Type) where
  | passed
  | failed (e : Raised τ)
  | exited (e : Raised τ)
  | hangs
  deriving DecidableEq

/-- What comes once the policy has returned some choices. -/
inductive Next (τ : Type) where
  | over (ending : Ending τ)
  /-- The loop asks, about a queue that is not empty. -/
  | choose (ready : List ReadyView) (waiting : ready ≠ [])

/-- The run under a scripted policy, for at most `fuel` more choices: what the policy
returned, oldest first, and how the run ended. -/
def drive (next : List Int → Next τ) :
    Nat → ScriptedPolicy → List Int → Option (List Int × Ending τ)
  | 0, _, taken =>
    match next taken with
    | .over ending => some (taken, ending)
    | .choose _ _ => none
  | fuel + 1, p, taken =>
    match next taken with
    | .over ending => some (taken, ending)
    | .choose ready _ =>
      match p.choose ready with
      | (.ok choice, p) => drive next fuel p (taken ++ [choice])
      | (.error _, _) => none

/-- What a search leaves by. -/
inductive Stop (τ : Type) where
  /-- `_OutOfBudget`. -/
  | outOfBudget
  | value (e : ValueError)
  /-- A run let an exception out. -/
  | exited (e : Raised τ)
  /-- A run did not end. -/
  | outOfFuel
  deriving DecidableEq

/-- A workload on one seed: what the loop asks next and which events it has recorded by
then. -/
structure Workload (τ : Type) where
  next : List Int → Next τ
  events : List Int → List TraceEvent

namespace Workload

/-- `run_once` and `finish`: the choices of the whole run and the exception that ended
it. -/
def runOnce (w : Workload τ) (fuel : Nat) (p : ScriptedPolicy) :
    Except (Stop τ) (List Int × Option (Raised τ)) :=
  match drive w.next fuel p [] with
  | none => .error .outOfFuel
  | some (taken, .passed) => .ok (taken, none)
  | some (taken, .failed e) => .ok (taken, some e)
  | some (_, .exited e) => .error (.exited e)
  | some (_, .hangs) => .error .outOfFuel

/-- `_replay`. -/
def replay (w : Workload τ) (fuel : Nat) (choices : List Int) :
    Except (Stop τ) (Option (Raised τ)) :=
  match ScriptedPolicy.init choices with
  | .error e => .error (.value e)
  | .ok p =>
    match w.runOnce fuel p with
    | .error stop => .error stop
    | .ok (_, failure) => .ok failure

end Workload

/-! ## The oracle -/

/-- `_MESSAGE_PREFIX`. -/
def messagePrefix : Nat := 80

/-- `_same_failure`. -/
def sameFailure [DecidableEq τ] (original : Raised τ) (candidate : Option (Raised τ)) : Bool :=
  match candidate with
  | none => false
  | some candidate =>
    if candidate.type ≠ original.type then false
    else candidate.message.toList.take messagePrefix = original.message.toList.take messagePrefix

/-- `_rank`: tuples compare lexicographically. -/
def rank (choices : List Int) : Nat ×ₗ Nat :=
  toLex (choices.countP fun choice => choice ≠ 0, choices.length)

/-! ## The search -/

/-- `_Search`. -/
structure Search where
  runs : Nat := 0
  best : Option (List Int) := none
  probed : List (List Int) := []

namespace Search

/-- One more candidate has been run. -/
def count (s : Search) (c : List Int) : Search :=
  { s with runs := s.runs + 1, probed := s.probed ++ [c] }

/-- A failing candidate: kept when it beats the best so far. -/
def offer (s : Search) (c : List Int) : Search :=
  if s.best.all fun best => rank c < rank best then { s with best := some c } else s

/-- `probe`. -/
def probe [DecidableEq τ] (w : Workload τ) (failure : Raised τ) (budget : Int) (fuel : Nat)
    (c : List Int) (s : Search) : Except (Stop τ) Bool × Search :=
  if budget ≤ s.runs then (.error .outOfBudget, s)
  else
    match w.replay fuel c with
    | .error stop => (.error stop, s.count c)
    | .ok outcome =>
      if sameFailure failure outcome then (.ok true, (s.count c).offer c)
      else (.ok false, s.count c)

end Search

/-- The three passes, one inside what the last one left. -/
def reduction (recorded : List Int) : Probing (List Int) Bool :=
  (shortestPrefix recorded).bind fun length =>
    (fifoPrefix recorded length).bind fun start =>
      (ddmin recorded length (steps start length)).map fun _ => true

/-- The `try` block of `shrink_schedule`: whether the recording failed again. -/
def passes (recorded : List Int) : Probing (List Int) Bool :=
  .ask recorded fun reproduced => if !reproduced then .done false else reduction recorded

/-- `_Search` and the `try` block: how it ended and the search it leaves. -/
def search [DecidableEq τ] (w : Workload τ) (failure : Raised τ) (recorded : List Int)
    (budget : Int) (fuel : Nat) : Except (Stop τ) Bool × Search :=
  (passes recorded).run (Search.probe w failure budget fuel) {}

/-! ## The result -/

/-- `ShrinkResult`. -/
structure ShrinkResult where
  originalLen : Nat
  choices : List Int
  fifoPrefix : Nat
  kept : List Nat
  labels : List String
  oracleRuns : Nat

/-- Where `shrink_schedule` does not return. -/
inductive ShrinkError (τ : Type) where
  | stopped (stop : Stop τ)
  | assertion (message : String)
  deriving DecidableEq

/-- `tuple(step for step, choice in enumerate(best) if choice)`. -/
def keptSteps (best : List Int) : List Nat :=
  (best.zipIdx.filter fun e => e.1 ≠ 0).map Prod.snd

/-- `best[: kept[-1] + 1] if kept else ()`. -/
def trim (best : List Int) : List Int :=
  match (keptSteps best).getLast? with
  | none => []
  | some last => best.take (last + 1)

/-- `_labels_at`.  `marks` are the lengths of the trace at the policy's choices; the choices
made while the loop is torn down would only add marks past the end of `events`. -/
def labelsAt (w : Workload τ) (fuel : Nat) (choices : List Int) (kept : List Nat) :
    Except (Stop τ) (List String) :=
  if kept = [] then .ok []
  else
    match ScriptedPolicy.init choices with
    | .error e => .error (.value e)
    | .ok p =>
      match w.runOnce fuel p with
      | .error stop => .error stop
      | .ok (taken, _) =>
        let marks := (List.range taken.length).map fun n => (w.events (taken.take n)).length
        let events := w.events taken
        .ok (kept.map fun step =>
          match events[marks.getD step events.length]? with
          | some event => event.label
          | none => "?")

/-- `shrink_schedule`. -/
def shrinkSchedule [DecidableEq τ] (w : Workload τ) (failure : Raised τ) (recorded : List Int)
    (budget : Int) (fuel : Nat) : Except (ShrinkError τ) (Option ShrinkResult) :=
  if budget < 1 then .error (.stopped (.value ⟨"shrink budget must be at least 1"⟩))
  else
    let (ended, s) := search w failure recorded budget fuel
    let minimized : Except (ShrinkError τ) (Option ShrinkResult) :=
      match s.best with
      | none => .error (.assertion "the recording probed as a failure")
      | some best =>
        let kept := keptSteps best
        match labelsAt w fuel (trim best) kept with
        | .error stop => .error (.stopped stop)
        | .ok labels =>
          .ok (some
            { originalLen := recorded.length
              choices := trim best
              fifoPrefix := kept.headD 0
              kept := kept
              labels := labels
              oracleRuns := s.runs })
    match ended with
    | .ok false => .ok none
    | .ok true => minimized
    | .error .outOfBudget => minimized
    | .error stop => .error (.stopped stop)

/-! ## Candidates -/

/-- Replaying the candidate fails the same way. -/
def Reproduces [DecidableEq τ] (w : Workload τ) (failure : Raised τ) (c : List Int) : Prop :=
  ∃ fuel outcome, w.replay fuel c = .ok outcome ∧ sameFailure failure outcome = true

/-- What a loop's choice log can hold. -/
def Recordable (recorded : List Int) : Prop := ∀ c ∈ recorded, 0 ≤ c ∧ c ≤ maxChoice

end SimLoop.Shrink
