/-
  Explore/Frontier.lean --- the parallel seed search of `_parallel.py`.

  Workers are handed batches of seed positions and answer with the first failure
  of their batch.  Which submitted batches finish together and in which order
  their answers are recorded is up to the pool: `Round` takes one pass of the
  `while` loop of `find_lowest_failure` for every choice of a nonempty group of
  running batches, in every order.

  A seed's run is a function of the seed, as in a workload that replays.  It need
  not come to a verdict: `run_once` lets a `BaseException` out that is not a test
  failure (a cancellation, an exit), and nothing bounds its steps.  Either takes the
  rest of its batch along, and `future.result()` raises the one or waits for the
  other for ever.
-/
import Mathlib.Data.List.Basic
import Mathlib.Data.List.Nodup
import Mathlib.Data.List.Perm.Basic
import Mathlib.Data.List.Perm.Subperm
import Mathlib.Tactic.Common
import SimLoop.Foundation.Machine

set_option autoImplicit false

namespace SimLoop.Explore

open SimLoop.Foundation

/-! ## How a call ends -/

/-- An exception: `type(exc).__name__` and `str(exc)`. -/
structure Raised where
  excType : String
  message : String
  deriving DecidableEq, Repr

/-- A call returns, an exception leaves it, or it does neither. -/
inductive Call (α : Type) where
  | returned (value : α)
  | raised (e : Raised)
  | endless
  deriving DecidableEq, Repr

namespace Call

variable {α β : Type}

instance : Monad Call where
  pure := .returned
  bind c f :=
    match c with
    | .returned value => f value
    | .raised e => .raised e
    | .endless => .endless

@[simp] theorem pure_eq (value : α) : (pure value : Call α) = .returned value := rfl

@[simp] theorem returned_bind (value : α) (f : α → Call β) :
    (.returned value >>= f) = f value := rfl

@[simp] theorem raised_bind (e : Raised) (f : α → Call β) :
    ((.raised e : Call α) >>= f) = .raised e := rfl

@[simp] theorem endless_bind (f : α → Call β) : ((.endless : Call α) >>= f) = .endless := rfl

@[simp] theorem map_returned (f : α → β) (value : α) :
    f <$> (.returned value : Call α) = .returned (f value) := rfl

/-- The call does not return. -/
def broken : Call α → Bool
  | .returned _ => false
  | _ => true

/-- The call returns something. -/
def found : Call (Option α) → Bool
  | .returned (some _) => true
  | _ => false

end Call

/-! ## Batches and the frontier -/

/-- `BATCH_SIZE`. -/
def batchLimit : Nat := 16

/-- `Failure`: a position in the seed list and what is kept of the exception. -/
structure Failure where
  at_ : Nat
  excType : String
  message : String
  deriving DecidableEq, Repr

/-- `range(start, stop)`, the positions of one batch. -/
structure Batch where
  start : Nat
  stop : Nat
  deriving DecidableEq, Repr

/-- `_batch_size`. -/
def batchSize (total jobs : Nat) : Nat := max 1 (min batchLimit (total / (jobs * 4)))

/-- `_batches`: one batch for each `start` in `range(0, total, size)`. -/
def batches (total size : Nat) : List Batch :=
  (List.range ((total + size - 1) / size)).map fun i =>
    ⟨i * size, min (i * size + size) total⟩

/-- `_Frontier`. -/
structure Frontier where
  batches : List Batch
  next : Nat
  failure : Option Failure

namespace Frontier

/-- `_Frontier.take`. -/
def take (f : Frontier) : Option (Batch × Frontier) :=
  match f.batches[f.next]? with
  | none => none
  | some batch =>
      if f.failure.any (fun failure => failure.at_ < batch.start) then none
      else some (batch, { f with next := f.next + 1 })

/-- `_Frontier.record`. -/
def record (f : Frontier) (failure : Option Failure) : Frontier :=
  match failure with
  | none => f
  | some new =>
      match f.failure with
      | none => { f with failure := some new }
      | some old => if new.at_ < old.at_ then { f with failure := some new } else f

end Frontier

/-! ## One batch in a worker -/

/-- How a seed's run ends: it passes, it reports the exception that ended it, an
exception that is no test failure leaves it, or it goes on for ever. -/
abbrev Outcome := Int → Call (Option Raised)

/-- `_run_batch`: run the seeds in order and report the first that failed. -/
def runBatch (outcome : Outcome) : Nat → List Int → Call (Option Failure)
  | _, [] => .returned none
  | at_, seed :: rest => do
      match ← outcome seed with
      | some failure => return some ⟨at_, failure.excType, failure.message⟩
      | none => runBatch outcome (at_ + 1) rest

/-- The seeds at a batch's positions. -/
def block (seeds : List Int) (batch : Batch) : List Int :=
  (seeds.drop batch.start).take (batch.stop - batch.start)

/-- What comes of the future of `batch`. -/
def answer (outcome : Outcome) (seeds : List Int) (batch : Batch) : Call (Option Failure) :=
  runBatch outcome batch.start (block seeds batch)

/-! ## The search loop -/

/-- The frontier and the batches whose futures are running. -/
structure Search where
  frontier : Frontier
  running : List Batch

namespace Search

/-- `find_lowest_failure` before its loop. -/
def start (seeds : List Int) (jobs : Nat) (size : Option Nat) : Search :=
  ⟨⟨batches seeds.length (size.getD (batchSize seeds.length jobs)), 0, none⟩, []⟩

/-- The inner loop: hand out batches while there are free workers. -/
def fill : Nat → Search → Search
  | 0, s => s
  | free + 1, s =>
      match s.frontier.take with
      | none => s
      | some (batch, frontier) => fill free ⟨frontier, s.running ++ [batch]⟩

/-- The search once every free worker has been offered a batch. -/
def submitted (jobs : Nat) (s : Search) : Search := fill (jobs - s.running.length) s

/-- `if not running: return frontier.failure`. -/
def Finished (jobs : Nat) (s : Search) : Prop := (s.submitted jobs).running = []

/-- What a finished search returns. -/
def result (jobs : Nat) (s : Search) : Option Failure := (s.submitted jobs).frontier.failure

/-- `frontier.record(future.result())` for futures that return. -/
def recorded (outcome : Outcome) (seeds : List Int) (f : Frontier) (done : List Batch) :
    Frontier :=
  done.foldl
    (fun f batch =>
      match answer outcome seeds batch with
      | .returned failure => f.record failure
      | _ => f)
    f

/-- One pass of the loop that goes on: the batches `done` finish together, each with
an answer, and are recorded in this order; the others keep running. -/
inductive Round (outcome : Outcome) (seeds : List Int) (jobs : Nat) :
    Search → List Batch → Search → Prop
  | mk {s : Search} {done rest : List Batch} (some_done : done ≠ [])
      (split : (s.submitted jobs).running.Perm (done ++ rest))
      (answered : ∀ batch ∈ done, (answer outcome seeds batch).broken = false) :
      Round outcome seeds jobs s done
        ⟨recorded outcome seeds (s.submitted jobs).frontier done, rest⟩

/-- One pass that an exception leaves: the batches `before`, `batch` and `after`
finish together, and the result of `batch` raises once those before it are recorded.
`rest` keeps running. -/
inductive Raises (outcome : Outcome) (seeds : List Int) (jobs : Nat) :
    Search → List Batch → Raised → Prop
  | mk {s : Search} {before after rest : List Batch} {batch : Batch} {e : Raised}
      (split : (s.submitted jobs).running.Perm (before ++ batch :: after ++ rest))
      (answered : ∀ b ∈ before, (answer outcome seeds b).broken = false)
      (raised : answer outcome seeds batch = .raised e)
      (ended : ∀ b ∈ after, answer outcome seeds b ≠ .endless) :
      Raises outcome seeds jobs s rest e

end Search

/-! ## A call of the search -/

/-- `require_picklable`, given what pickling the workload raises. -/
def requirePicklable (pickling : Option Raised) : Call Unit :=
  match pickling with
  | none => .returned ()
  | some exc =>
      .raised ⟨"TypeError",
        "exploring with jobs>1 sends the workload to worker processes, " ++
        "so it must be picklable: a module-level function, or a " ++
        "functools.partial of one. Lambdas, closures and functions " ++
        "defined inside another function are sequential-only " ++
        s!"(pickling raised {exc.excType}: {exc.message})"⟩

/-- How `find_lowest_failure` can end.  Leaving the pool waits for the workers that
are still running. -/
inductive FindLowestFailure (pickling : Option Raised) (outcome : Outcome) (seeds : List Int)
    (jobs : Nat) (size : Option Nat) : Call (Option Failure) → Prop
  | refused {e : Raised} (refused : requirePicklable pickling = .raised e) :
      FindLowestFailure pickling outcome seeds jobs size (.raised e)
  | finished {finishing : List (List Batch)} {s : Search}
      (picklable : requirePicklable pickling = .returned ())
      (run : Run (Search.Round outcome seeds jobs) (.start seeds jobs size) finishing s)
      (finished : s.Finished jobs) :
      FindLowestFailure pickling outcome seeds jobs size (.returned (s.result jobs))
  | raised {finishing : List (List Batch)} {s : Search} {rest : List Batch} {e : Raised}
      (picklable : requirePicklable pickling = .returned ())
      (run : Run (Search.Round outcome seeds jobs) (.start seeds jobs size) finishing s)
      (raises : Search.Raises outcome seeds jobs s rest e)
      (ended : ∀ b ∈ rest, answer outcome seeds b ≠ .endless) :
      FindLowestFailure pickling outcome seeds jobs size (.raised e)
  | leaving {finishing : List (List Batch)} {s : Search} {rest : List Batch} {e : Raised}
      {batch : Batch} (picklable : requirePicklable pickling = .returned ())
      (run : Run (Search.Round outcome seeds jobs) (.start seeds jobs size) finishing s)
      (raises : Search.Raises outcome seeds jobs s rest e) (running : batch ∈ rest)
      (silent : answer outcome seeds batch = .endless) :
      FindLowestFailure pickling outcome seeds jobs size .endless
  | waiting {finishing : List (List Batch)} {s : Search}
      (picklable : requirePicklable pickling = .returned ())
      (run : Run (Search.Round outcome seeds jobs) (.start seeds jobs size) finishing s)
      (unfinished : ¬ s.Finished jobs)
      (silent : ∀ b ∈ (s.submitted jobs).running, answer outcome seeds b = .endless) :
      FindLowestFailure pickling outcome seeds jobs size .endless

/-! ## The answer asked for -/

/-- The run of the seed reports an exception. -/
def Fails (outcome : Outcome) (seed : Int) : Prop := ∃ e, outcome seed = .returned (some e)

/-- `r` is the failure at the least failing position, or `none` when no seed
fails. -/
def IsLeastFailure (outcome : Outcome) (seeds : List Int) : Option Failure → Prop
  | none => ∀ seed ∈ seeds, ¬ Fails outcome seed
  | some f =>
      (∃ seed, seeds[f.at_]? = some seed ∧
        outcome seed = .returned (some ⟨f.excType, f.message⟩)) ∧
        ∀ j < f.at_, ∀ seed, seeds[j]? = some seed → ¬ Fails outcome seed

/-- `r` is where running the seeds one after the other stops: every seed before it
passes. -/
def IsFirstStop (outcome : Outcome) (seeds : List Int) : Option Failure → Prop
  | none => ∀ seed ∈ seeds, outcome seed = .returned none
  | some f =>
      (∃ seed, seeds[f.at_]? = some seed ∧
        outcome seed = .returned (some ⟨f.excType, f.message⟩)) ∧
        ∀ j < f.at_, ∀ seed, seeds[j]? = some seed → outcome seed = .returned none

theorem IsFirstStop.isLeastFailure {outcome : Outcome} {seeds : List Int} {r : Option Failure}
    (h : IsFirstStop outcome seeds r) : IsLeastFailure outcome seeds r := by
  have hpass : ∀ seed, outcome seed = .returned none → ¬ Fails outcome seed := by
    rintro seed hseed ⟨e, he⟩
    rw [hseed] at he
    cases he
  cases r with
  | none => exact fun seed hmem => hpass seed (h seed hmem)
  | some f => exact ⟨h.1, fun j hj seed hseed => hpass seed (h.2 j hj seed hseed)⟩

/-! ## Where the search is safe -/

/-- How the first seed of the batch that does not pass ends. -/
def firstEnding (outcome : Outcome) (seeds : List Int) (batch : Batch) :
    Call (Option Raised) :=
  (((block seeds batch).map outcome).find? (· ≠ .returned none)).getD (.returned none)

/-- Every batch that breaks off comes after as many failing batches as there are
workers. -/
def Sheltered (outcome : Outcome) (seeds : List Int) (jobs : Nat) (bs : List Batch) : Prop :=
  ∀ i batch, bs[i]? = some batch → (firstEnding outcome seeds batch).broken = true →
    jobs ≤ (bs.take i).countP fun b => (firstEnding outcome seeds b).found

end SimLoop.Explore
