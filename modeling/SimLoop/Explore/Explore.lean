/-
  Explore/Explore.lean --- `explore`, sequential and parallel (`_explore.py`).

  A workload that replays is a function of the seed: `SeedRun` is everything one
  run leaves behind that a report is made of.  The parallel path hands the seeds
  to the search of `Explore/Frontier.lean` and rebuilds the report in this process
  from the position the search names; `explore` takes how the search ended as an
  argument and uses it only on that path.
-/
import SimLoop.Explore.Divergence
import SimLoop.Explore.Shelter

set_option autoImplicit false

namespace SimLoop.Explore

open SimLoop.Foundation SimLoop.Loop

/-! ## Runs and reports -/

/-- `PendingTask`. -/
structure PendingTask where
  host : HostName
  name : String
  awaiting : String
  where_ : String

/-- What one run of the workload and its teardown leave behind.  `shrunk` is what
comes of calling `shrink_schedule` on the run's choices. -/
structure SeedRun (σ : Type) where
  ending : Call (Option Raised)
  trace : List TraceEvent
  traceHash : String
  pending : List PendingTask
  shrunk : Call (Option σ)

/-- A workload: what pickling it raises, and its run under every seed. -/
structure SeedWorkload (σ : Type) where
  pickling : Option Raised
  run : Int → SeedRun σ

/-- `SeedReport`, for the default policy. -/
structure SeedReport (σ : Type) where
  seed : Int
  seedsPassed : Nat
  exception : Raised
  traceEvents : List TraceEvent
  traceHash : String
  pending : List PendingTask
  divergence : Option Divergence
  shrunk : Option σ
  trace : List TraceEvent

/-- The options of `explore` that reach a report. -/
structure Options where
  traceTail : Nat := 20
  shrink : Bool := false

variable {σ : Type}

/-- `_run_seed`. -/
def runSeed (w : SeedWorkload σ) (o : Options) (seed : Int) (seedsPassed : Nat)
    (lastPass : List TraceEvent) : Call (Option (SeedReport σ) × List TraceEvent) := do
  let run := w.run seed
  match ← run.ending with
  | none => return (none, run.trace)
  | some exception =>
      let shrunk ← (if o.shrink then run.shrunk else pure none)
      return (some
        { seed := seed, seedsPassed := seedsPassed, exception := exception
          traceEvents :=
            if o.traceTail = 0 then [] else run.trace.drop (run.trace.length - o.traceTail)
          traceHash := run.traceHash, pending := run.pending
          divergence := diffTraces lastPass run.trace
          shrunk := shrunk
          trace := run.trace },
       run.trace)

/-! ## Sequential exploration -/

/-- The loop of `explore` over the seeds. -/
def exploreSeeds (w : SeedWorkload σ) (o : Options) :
    List Int → Nat → List TraceEvent → Call (Option (SeedReport σ))
  | [], _, _ => return none
  | seed :: rest, passed, lastPass => do
      match ← runSeed w o seed passed lastPass with
      | (some report, _) => return some report
      | (none, events) => exploreSeeds w o rest (passed + 1) events

/-! ## Parallel exploration -/

/-- `_outcome`. -/
def describeOutcome (excType : Option String) (message : String) : String :=
  match excType with
  | none => "passed"
  | some t => if message.isEmpty then s!"raised {t}" else s!"raised {t}: {message}"

/-- `check_reproduced`: compared by exception type. -/
def checkReproduced (seed : Int) (worker : Option Failure) (parent : Option Raised) :
    Call Unit :=
  let workerType := worker.map Failure.excType
  let parentType := parent.map Raised.excType
  if workerType = parentType then return ()
  else
    let there := describeOutcome workerType ((worker.map Failure.message).getD "")
    let here := describeOutcome parentType ((parent.map Raised.message).getD "")
    .raised ⟨"ParallelDeterminismError",
      s!"seed {seed} {there} in a worker process but {here} when re-run in " ++
        "this one: replay did not hold across processes for this workload. " ++
        "Re-run the same seeds with jobs=1; until this is explained, no " ++
        "parallel result from this workload means anything."⟩

/-- The seed below the failing one, run here for the schedule diff. -/
def lastPassBelow (w : SeedWorkload σ) (o : Options) (seeds : List Int) (at_ : Nat) :
    Call (List TraceEvent) :=
  match at_ with
  | 0 => return []
  | below + 1 => do
      let seed := seeds.getD below 0
      let (passing, lastPass) ← runSeed w { o with shrink := false } seed below []
      checkReproduced seed none (passing.map SeedReport.exception)
      return lastPass

/-- `_explore_parallel`, where the call of `find_lowest_failure` ends as `search`. -/
def exploreParallel (w : SeedWorkload σ) (o : Options) (seeds : List Int)
    (search : Call (Option Failure)) : Call (Option (SeedReport σ)) := do
  match ← search with
  | none => return none
  | some failure =>
      let lastPass ← lastPassBelow w o seeds failure.at_
      let seed := seeds.getD failure.at_ 0
      let (report, _) ← runSeed w o seed failure.at_ lastPass
      checkReproduced seed (some failure) (report.map SeedReport.exception)
      match report with
      | none => .raised ⟨"AssertionError", "the parent reproduced the worker's failure"⟩
      | some report => return some report

/-- `explore(fn, seeds, jobs=jobs)` under the default policy, where
`find_lowest_failure` ends as `search` when it is called. -/
def explore (w : SeedWorkload σ) (o : Options) (seeds : List Int) (jobs : Nat)
    (search : Call (Option Failure)) : Call (Option (SeedReport σ)) :=
  if jobs < 1 then .raised ⟨"ValueError", "jobs must be at least 1"⟩
  else if 1 < jobs ∧ 1 < seeds.length then exploreParallel w o seeds search
  else exploreSeeds w o seeds 0 []

/-! ## The two agree -/

/-- A workload's outcome per seed, as workers see it. -/
def SeedWorkload.outcome (w : SeedWorkload σ) : Outcome := fun seed => (w.run seed).ending

theorem runSeed_of_pass {w : SeedWorkload σ} {seed : Int}
    (h : w.outcome seed = .returned none) (o : Options) (passed : Nat)
    (lastPass : List TraceEvent) :
    runSeed w o seed passed lastPass = .returned (none, (w.run seed).trace) := by
  unfold SeedWorkload.outcome at h
  simp [runSeed, h]

theorem exploreSeeds_of_all_pass {w : SeedWorkload σ} (o : Options) {seeds : List Int}
    (h : ∀ seed ∈ seeds, w.outcome seed = .returned none) (passed : Nat)
    (lastPass : List TraceEvent) : exploreSeeds w o seeds passed lastPass = .returned none := by
  induction seeds generalizing passed lastPass with
  | nil => rfl
  | cons seed rest ih =>
      rw [exploreSeeds, runSeed_of_pass (h seed List.mem_cons_self)]
      exact ih (fun s hs => h s (List.mem_cons_of_mem _ hs)) _ _

/-- The trace a failure at position `j` is compared with. -/
def tracesBelow (w : SeedWorkload σ) (seeds : List Int) (lastPass : List TraceEvent) :
    Nat → List TraceEvent
  | 0 => lastPass
  | j + 1 => (w.run (seeds.getD j 0)).trace

/-- The sequential loop passes every position below the first that does not pass, and
then holds the trace of the one just below. -/
theorem exploreSeeds_of_first {w : SeedWorkload σ} (o : Options) {seeds : List Int} {j : Nat}
    {seed : Int} (hseed : seeds[j]? = some seed) {e : Raised}
    (hfails : w.outcome seed = .returned (some e))
    (hbefore : ∀ i < j, ∀ s, seeds[i]? = some s → w.outcome s = .returned none) (passed : Nat)
    (lastPass : List TraceEvent) :
    exploreSeeds w o seeds passed lastPass =
      Prod.fst <$> runSeed w o seed (passed + j) (tracesBelow w seeds lastPass j) := by
  induction seeds generalizing j passed lastPass with
  | nil => cases hseed
  | cons first rest ih =>
      cases j with
      | zero =>
          obtain rfl : first = seed := Option.some.inj hseed
          unfold SeedWorkload.outcome at hfails
          simp only [exploreSeeds, runSeed, hfails, tracesBelow]
          cases (if o.shrink = true then (w.run first).shrunk else pure none) <;> rfl
      | succ j =>
          have hfirst := hbefore 0 (Nat.succ_pos j) first rfl
          have hrest := ih (j := j) hseed
            (fun i hi s hs => hbefore (i + 1) (Nat.succ_lt_succ hi) s hs)
            (passed + 1) (w.run first).trace
          rw [exploreSeeds, runSeed_of_pass hfirst, Call.returned_bind]
          dsimp only
          rw [hrest]
          have hcount : passed + 1 + j = passed + (j + 1) := by omega
          rw [hcount]
          cases j with
          | zero => rfl
          | succ j => rfl

/-- Rebuilding from the first seed that does not pass gives the sequential report,
and both re-runs reproduce what the workers saw. -/
theorem exploreParallel_of_first {w : SeedWorkload σ} (o : Options) {seeds : List Int}
    {found : Option Failure} (h : IsFirstStop w.outcome seeds found) :
    exploreParallel w o seeds (.returned found) = exploreSeeds w o seeds 0 [] := by
  cases found with
  | none => rw [exploreSeeds_of_all_pass o h]; rfl
  | some f =>
      obtain ⟨⟨seed, hseed, hfails⟩, hbefore⟩ := h
      have hget : seeds.getD f.at_ 0 = seed := by simp [List.getD, hseed]
      have hbelow : lastPassBelow w o seeds f.at_ = .returned (tracesBelow w seeds [] f.at_) := by
        unfold lastPassBelow tracesBelow
        cases hat : f.at_ with
        | zero => rfl
        | succ below =>
            have hlt : below < seeds.length := by
              have := (List.getElem?_eq_some_iff.mp hseed).1
              omega
            have hpass := hbefore below (by omega) seeds[below] (List.getElem?_eq_getElem hlt)
            have hbelowGet : seeds.getD below 0 = seeds[below] := by simp [List.getD, hlt]
            simp only [hbelowGet, runSeed_of_pass hpass]
            rfl
      rw [exploreSeeds_of_first o hseed hfails hbefore, Nat.zero_add]
      unfold exploreParallel
      unfold SeedWorkload.outcome at hfails
      simp only [Call.returned_bind, hbelow, hget, runSeed, hfails]
      cases (if o.shrink = true then (w.run seed).shrunk else pure none) with
      | raised e => rfl
      | endless => rfl
      | returned shrunk => simp [checkReproduced]

/-- `find_lowest_failure` terminates with the failure at the least failing position
(`none` exactly when no seed fails), and `explore` then does what it does with one
job: the seed, the number passed and the trace compared with are the report's. -/
structure GivesSequentialAnswer (w : SeedWorkload σ) (o : Options) (seeds : List Int)
    (jobs : Nat) (size : Option Nat) : Prop where
  rounds : WellFounded fun t s : Search =>
    ∃ done, Search.Round w.outcome seeds jobs s done t
  ends : ∃ search, FindLowestFailure w.pickling w.outcome seeds jobs size search
  answer : ∀ search, FindLowestFailure w.pickling w.outcome seeds jobs size search →
    ∃ found, search = .returned found ∧ IsLeastFailure w.outcome seeds found ∧
      ∀ unused, explore w o seeds jobs search = explore w o seeds 1 unused

/-- Exploring in parallel where sequential exploration stops at the failure found. -/
theorem explore_of_first {w : SeedWorkload σ} (o : Options) {seeds : List Int} {jobs : Nat}
    (hjobs : 1 ≤ jobs) {found : Option Failure} (h : IsFirstStop w.outcome seeds found)
    (unused : Call (Option Failure)) :
    explore w o seeds jobs (.returned found) = explore w o seeds 1 unused := by
  have hone : explore w o seeds 1 unused = exploreSeeds w o seeds 0 [] := by simp [explore]
  rw [hone]
  unfold explore
  rw [if_neg (by omega)]
  split
  · exact exploreParallel_of_first o h
  · rfl

/-- **When parallel exploration gives the sequential answer.**  Whatever the seeds,
the number of workers and the batch size, and in whatever groups and order batches
finish: exactly when the workload pickles and every batch that breaks off comes after
as many failing batches as there are workers. -/
theorem parallel_exploration_iff (w : SeedWorkload σ) (o : Options) (seeds : List Int)
    (jobs : Nat) (hjobs : 1 ≤ jobs) (size : Option Nat) (hsize : ∀ n, size = some n → 1 ≤ n) :
    GivesSequentialAnswer w o seeds jobs size ↔
      w.pickling = none ∧
        Sheltered w.outcome seeds jobs
          (batches seeds.length (size.getD (batchSize seeds.length jobs))) := by
  have hpickles : requirePicklable w.pickling = .returned () ↔ w.pickling = none := by
    unfold requirePicklable
    cases w.pickling <;> simp
  constructor
  · intro h
    have hpickling : w.pickling = none := by
      by_contra hsome
      obtain ⟨e, he⟩ := Option.ne_none_iff_exists'.mp hsome
      have hrefused : ∃ e', requirePicklable w.pickling = .raised e' := by
        rw [he]
        exact ⟨_, rfl⟩
      obtain ⟨e', he'⟩ := hrefused
      obtain ⟨found, hfound, _⟩ := h.answer _ (.refused he')
      cases hfound
    refine ⟨hpickling, ?_⟩
    by_contra hopen
    obtain ⟨t, finishing, run, batch, hrunning, hbroken⟩ := broken_reached_of_open size hopen
    obtain ⟨search, hends, hsearch⟩ := ends_from (hpickles.mpr hpickling) t run
    obtain ⟨found, rfl, _⟩ := h.answer search hends
    exact absurd (hsearch ⟨batch, hrunning, hbroken⟩) (by simp [Call.broken])
  · rintro ⟨hpickling, hsheltered⟩
    refine ⟨rounds_wellFounded _ _ _, ?_, fun search hends => ?_⟩
    · obtain ⟨search, hends, _⟩ := ends_from (hpickles.mpr hpickling) _ (.nil _)
      exact ⟨search, hends⟩
    · cases hends with
      | refused hrefused =>
          rw [hpickles.mpr hpickling] at hrefused
          cases hrefused
      | finished _ run hfin =>
          have hfirst := first_of_finished hjobs hsize
            (steady_of_run hsize hsheltered run).1 hfin
          exact ⟨_, rfl, hfirst.isLeastFailure, explore_of_first o hjobs hfirst⟩
      | raised _ run raises _ => exact absurd raises (steady_of_run hsize hsheltered run).2.no_raises
      | leaving _ run raises _ _ =>
          exact absurd raises (steady_of_run hsize hsheltered run).2.no_raises
      | waiting _ run hfin silent =>
          exact absurd ((steady_of_run hsize hsheltered run).2.not_silent silent) hfin

/-- Seed 1 passes, every other seed fails. -/
def oneGoodSeed : SeedWorkload Unit where
  pickling := none
  run seed :=
    { ending := if seed = 1 then .returned none else .returned (some ⟨"ValueError", "boom"⟩)
      trace := [], traceHash := "", pending := [], shrunk := .returned none }

/-- Three single-seed batches on two workers. -/
theorem parallel_exploration_iff_oneGoodSeed :
    GivesSequentialAnswer oneGoodSeed {} [1, 2, 3] 2 (some 1) := by
  refine (parallel_exploration_iff oneGoodSeed {} [1, 2, 3] 2 (by decide) (some 1)
    (by simp)).mpr ⟨rfl, ?_⟩
  have hreturns : ∀ batch ∈ batches 3 1,
      (firstEnding oneGoodSeed.outcome [1, 2, 3] batch).broken = false := by
    decide
  intro i batch hbatch hbroken
  rw [hreturns batch (List.mem_of_getElem? hbatch)] at hbroken
  cases hbroken

/-- Seed 0 fails, every other seed is cancelled. -/
def cancelledLater : SeedWorkload Unit where
  pickling := none
  run seed :=
    { ending :=
        if seed = 0 then .returned (some ⟨"ValueError", "boom"⟩)
        else .raised ⟨"CancelledError", ""⟩
      trace := [], traceHash := "", pending := [], shrunk := .returned none }

/-- The cancelled seed ends first, and the search raises what it raised; one job
reports seed 0. -/
theorem not_givesSequentialAnswer_cancelledLater :
    FindLowestFailure cancelledLater.pickling cancelledLater.outcome [0, 1] 2 (some 1)
        (.raised ⟨"CancelledError", ""⟩) ∧
      (∀ unused, ∃ report, explore cancelledLater {} [0, 1] 1 unused = .returned (some report) ∧
        report.seed = 0) ∧
      IsLeastFailure cancelledLater.outcome [0, 1] (some ⟨0, "ValueError", "boom"⟩) ∧
      ¬ GivesSequentialAnswer cancelledLater {} [0, 1] 2 (some 1) := by
  have hraised : FindLowestFailure cancelledLater.pickling cancelledLater.outcome [0, 1] 2
      (some 1) (.raised ⟨"CancelledError", ""⟩) := by
    have hraises : Search.Raises cancelledLater.outcome [0, 1] 2 (.start [0, 1] 2 (some 1))
        [⟨0, 1⟩] ⟨"CancelledError", ""⟩ :=
      @raises_one _ _ _ _ ⟨1, 2⟩ _ _ (by decide) (by decide)
    exact .raised rfl (.nil _) hraises (by decide)
  refine ⟨hraised, fun _ => ⟨_, rfl, rfl⟩, ?_, fun h => ?_⟩
  · exact ⟨⟨0, rfl, rfl⟩, fun j hj => absurd hj (Nat.not_lt_zero j)⟩
  · obtain ⟨found, hfound, _⟩ := h.answer _ hraised
    cases hfound

end SimLoop.Explore
