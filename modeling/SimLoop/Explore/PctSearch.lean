/-
  Explore/PctSearch.lean --- `explore` under a scheduling policy (`_explore.py`).

  Under `policy="pct"` one seed is measured and the others run PCT with a horizon
  sized from that measurement.  The measurement is made when the first seed needs
  it; since the measured seed is fixed, a search that has measured knows the same
  horizon as any other (`Calibrated`), and a seed runs the same schedule wherever it
  stands in the search (`pct_seed_replays_alone`).

  A run of the workload may never end, so a search has fuel: the ticks it gives one
  run.  Results found with different fuel agree (`runOnce_unique`).
-/
import SimLoop.Explore.Divergence
import SimLoop.Loop.Replay
import Mathlib.Data.Rat.Floor

set_option autoImplicit false

namespace SimLoop.Explore.PctSearch

open SimLoop.Foundation SimLoop.Policy SimLoop.Loop

variable {ω κ ε υ ρ : Type}

/-! ## Which scheduler drives a seed -/

/-- `POLICIES`. -/
inductive PolicyName where
  | random
  | pct
  deriving DecidableEq, Repr

/-- `PolicyRun`. -/
structure PolicyRun where
  name : PolicyName
  depth : Int
  horizon : Option Int := none
  deriving DecidableEq, Repr

/-- `DEFAULT_PCT_DEPTH`. -/
def defaultPctDepth : Int := 3

/-- `_CALIBRATION_SEED`. -/
def calibrationSeed : Int := 0

/-- `_HORIZON_SLACK`. -/
def horizonSlack : ℚ := 3 / 2

/-- `_MIN_HORIZON`. -/
def minHorizon : Int := 100

/-- `PolicyRun.build`. -/
def PolicyRun.build (R : RandomSource ρ) (p : PolicyRun) (seed : Int) :
    Except ValueError (Option (PCTPolicy ρ)) :=
  match p.horizon with
  | none => .ok none
  | some horizon =>
    match PCTPolicy.init R seed p.depth horizon with
    | .error e => .error e
    | .ok policy => .ok (some policy)

/-- `_policy_for`. -/
def policyFor (policy : PolicyName) (depth : Int) (horizon : Option Int) (seed : Int) :
    Option PolicyRun :=
  match policy with
  | .random => none
  | .pct => some ⟨.pct, depth, if seed = calibrationSeed then none else horizon⟩

/-- `_pct_horizon`. -/
def pctHorizon (steps : Nat) (depth : Int) : Int :=
  max (max ⌈(steps : ℚ) * horizonSlack⌉ minHorizon) (depth - 1)

/-! ## One run -/

/-- Why `explore` comes back without an answer, or does not come back. -/
inductive Halt (ε : Type) where
  /-- A `BaseException` that is no `Exception` out of a run. -/
  | exited (e : ε)
  | valueError (message : String)
  /-- A run took more ticks than it was given. -/
  | outOfFuel

/-- How a run ended. -/
inductive Ending (ε : Type) where
  | passed
  | failed (e : Loop.Failure ε)
  | exited (e : ε)

/-- The outcome of the call that ended a session. -/
def ending (W : Workload ω κ ε υ) (s : Session (Shipped ρ) ω κ ε υ ρ) : Ending ε :=
  match s.signal with
  | .raised (.user e) => if W.isException e then .failed (.user e) else .exited e
  | .raised (.loop e) => .failed (.loop e)
  | _ => .passed

/-- The first failing seed's report. -/
structure Report (ε : Type) where
  seed : Int
  seedsPassed : Nat
  exception : Loop.Failure ε
  trace : List TraceEvent
  choices : List Nat
  divergence : Option Divergence
  policy : Option PolicyRun

/-- What the loop of `explore` carries from seed to seed. -/
structure Progress where
  passed : Nat
  horizon : Option Int
  lastPass : List TraceEvent
  deriving DecidableEq

/-- Before the first seed. -/
def Progress.start : Progress := ⟨0, none, []⟩

section

variable (R : RandomSource ρ) (W : Workload ω κ ε υ) (world : ω)
variable (simLoop : Int → LoopState (Shipped ρ) (Body κ) ε ρ)

/-- `run_once`: the session up to the end of its outermost call. -/
def runOnce : Nat → Session (Shipped ρ) ω κ ε υ ρ → Option (Session (Shipped ρ) ω κ ε υ ρ)
  | 0, s => if s.stack.isEmpty then some s else none
  | fuel + 1, s => if s.stack.isEmpty then some s else runOnce fuel (s.tick (shipped R) R W)

/-- The workload about to run on the loop of a seed, under a policy of its own. -/
def launch (scheduler : Option (PCTPolicy ρ)) (seed : Int) : Session (Shipped ρ) ω κ ε υ ρ :=
  match scheduler with
  | none => Session.start (simLoop seed) world
  | some policy => Session.start { simLoop seed with policy := .pct policy } world

/-- `_measure_steps`. -/
def measureSteps (fuel : Nat) : Except (Halt ε) Nat :=
  match runOnce R W fuel (launch world simLoop none calibrationSeed) with
  | none => .error .outOfFuel
  | some s =>
    match ending W s with
    | .exited e => .error (.exited e)
    | _ => .ok s.loop.choiceLog.length

/-- The scheduler `_run_seed` installs: `none` leaves the loop's own. -/
def scheduler (run : Option PolicyRun) (seed : Int) :
    Except ValueError (Option (PCTPolicy ρ)) :=
  match run with
  | none => .ok none
  | some run => run.build R seed

/-- `_run_seed`, up to its report: the session as the run left it. -/
def runSeed (fuel : Nat) (seed : Int) (run : Option PolicyRun) :
    Except (Halt ε) (Session (Shipped ρ) ω κ ε υ ρ) :=
  match scheduler R run seed with
  | .error e => .error (.valueError e.message)
  | .ok policy =>
    match runOnce R W fuel (launch world simLoop policy seed) with
    | none => .error .outOfFuel
    | some s =>
      match ending W s with
      | .exited e => .error (.exited e)
      | _ => .ok s

/-! ## The search -/

/-- What the loop does before it runs a seed: measure, on first need. -/
def calibrate (policy : PolicyName) (depth : Int) (fuel : Nat) (seed : Int) (p : Progress) :
    Except (Halt ε) Progress :=
  if policy = .pct ∧ p.horizon = none ∧ seed ≠ calibrationSeed then
    match measureSteps R W world simLoop fuel with
    | .error h => .error h
    | .ok steps => .ok { p with horizon := some (pctHorizon steps depth) }
  else .ok p

/-- One turn of the loop: a report, or the progress after a seed that passed. -/
def exploreSeed (policy : PolicyName) (depth : Int) (fuel : Nat) (seed : Int) (p : Progress) :
    Except (Halt ε) (Report ε ⊕ Progress) :=
  match calibrate R W world simLoop policy depth fuel seed p with
  | .error h => .error h
  | .ok p =>
    let run := policyFor policy depth p.horizon seed
    match runSeed R W world simLoop fuel seed run with
    | .error h => .error h
    | .ok s =>
      let events := s.loop.recorder.events
      match ending W s with
      | .failed e =>
        .ok (.inl ⟨seed, p.passed, e, events, s.loop.choiceLog, diffTraces p.lastPass events, run⟩)
      | _ => .ok (.inr { p with passed := p.passed + 1, lastPass := events })

/-- The loop of `explore` over the seeds. -/
def exploreSeeds (policy : PolicyName) (depth : Int) (fuel : Nat) :
    List Int → Progress → Except (Halt ε) (Option (Report ε))
  | [], _ => .ok none
  | seed :: rest, p =>
    match exploreSeed R W world simLoop policy depth fuel seed p with
    | .error h => .error h
    | .ok (.inl report) => .ok (some report)
    | .ok (.inr p) => exploreSeeds policy depth fuel rest p

/-- `explore`, as far as it explores in this process: the parallel search has its own
module, and PCT refuses it. -/
def explore (policy : PolicyName) (depth : Int) (jobs : Nat) (fuel : Nat) (seeds : List Int) :
    Except (Halt ε) (Option (Report ε)) :=
  if jobs < 1 then .error (.valueError "jobs must be at least 1")
  else if policy = .pct ∧ depth < 1 then
    .error (.valueError s!"pct_depth must be at least 1, got {depth}")
  else if policy = .pct ∧ 1 < jobs then
    .error (.valueError ("policy='pct' explores sequentially, because the horizon it " ++
      "sizes here does not reach worker processes: run it with jobs=1"))
  else exploreSeeds R W world simLoop policy depth fuel seeds .start

/-! ## Runs are what they are, whatever the fuel -/

section

variable {R W world simLoop}

theorem runOnce_unique {fuel fuel' : Nat} {s t t' : Session (Shipped ρ) ω κ ε υ ρ}
    (h : runOnce R W fuel s = some t) (h' : runOnce R W fuel' s = some t') : t = t' := by
  induction fuel generalizing s fuel' with
  | zero =>
      unfold runOnce at h
      split at h
      · rename_i hend
        obtain rfl := Option.some.inj h
        cases fuel' <;> simpa [runOnce, hend] using h'
      · cases h
  | succ fuel ih =>
      unfold runOnce at h
      split at h
      · rename_i hend
        obtain rfl := Option.some.inj h
        cases fuel' <;> simpa [runOnce, hend] using h'
      · rename_i hgoing
        cases fuel' with
        | zero => simp [runOnce, hgoing] at h'
        | succ fuel' =>
            unfold runOnce at h'
            rw [if_neg hgoing] at h'
            exact ih h h'

theorem measureSteps_ok {fuel steps : Nat}
    (h : measureSteps R W world simLoop fuel = .ok steps) :
    ∃ s, runOnce R W fuel (launch world simLoop none calibrationSeed) = some s ∧
      steps = s.loop.choiceLog.length := by
  unfold measureSteps at h
  split at h
  · cases h
  · rename_i s hs
    split at h
    · cases h
    · exact ⟨s, hs, (Except.ok.inj h).symm⟩

theorem measureSteps_unique {fuel fuel' steps steps' : Nat}
    (h : measureSteps R W world simLoop fuel = .ok steps)
    (h' : measureSteps R W world simLoop fuel' = .ok steps') : steps = steps' := by
  obtain ⟨s, hs, rfl⟩ := measureSteps_ok h
  obtain ⟨s', hs', rfl⟩ := measureSteps_ok h'
  rw [runOnce_unique hs hs']

theorem runSeed_ok {fuel : Nat} {seed : Int} {run : Option PolicyRun}
    {s : Session (Shipped ρ) ω κ ε υ ρ}
    (h : runSeed R W world simLoop fuel seed run = .ok s) :
    ∃ policy, scheduler R run seed = .ok policy ∧
      runOnce R W fuel (launch world simLoop policy seed) = some s := by
  unfold runSeed at h
  split at h
  · cases h
  · rename_i policy hpolicy
    split at h
    · cases h
    · rename_i t ht
      split at h
      · cases h
      · obtain rfl := Except.ok.inj h
        exact ⟨policy, hpolicy, ht⟩

theorem runSeed_unique {fuel fuel' : Nat} {seed : Int} {run : Option PolicyRun}
    {s s' : Session (Shipped ρ) ω κ ε υ ρ}
    (h : runSeed R W world simLoop fuel seed run = .ok s)
    (h' : runSeed R W world simLoop fuel' seed run = .ok s') : s = s' := by
  obtain ⟨policy, hpolicy, hs⟩ := runSeed_ok h
  obtain ⟨policy', hpolicy', hs'⟩ := runSeed_ok h'
  obtain rfl := Except.ok.inj (hpolicy.symm.trans hpolicy')
  exact runOnce_unique hs hs'

end

/-! ## Reaching a seed -/

/-- The progress of the loop after the given seeds, when they all passed. -/
def passAll (policy : PolicyName) (depth : Int) (fuel : Nat) :
    List Int → Progress → Option Progress
  | [], p => some p
  | seed :: rest, p =>
    match exploreSeed R W world simLoop policy depth fuel seed p with
    | .ok (.inr p) => passAll policy depth fuel rest p
    | _ => none

/-- The search comes to `seed` with every earlier seed passed, and `p` is what it
knows when it runs it. -/
def Reaches (policy : PolicyName) (depth : Int) (fuel : Nat) (before : List Int) (seed : Int)
    (p : Progress) : Prop :=
  ∃ q, passAll R W world simLoop policy depth fuel before .start = some q ∧
    calibrate R W world simLoop policy depth fuel seed q = .ok p

/-- The states the seed goes through, when the search comes to it with progress `p`. -/
def states (policy : PolicyName) (depth : Int) (seed : Int) (p : Progress) :
    Except ValueError (Nat → Session (Shipped ρ) ω κ ε υ ρ) :=
  match scheduler R (policyFor policy depth p.horizon seed) seed with
  | .error e => .error e
  | .ok own => .ok fun n => (launch world simLoop own seed).after (shipped R) R W n

/-- A search that has measured knows the horizon of the one seed that is measured. -/
def Calibrated (depth : Int) (p : Progress) : Prop :=
  ∀ horizon, p.horizon = some horizon → ∃ fuel steps,
    measureSteps R W world simLoop fuel = .ok steps ∧ horizon = pctHorizon steps depth

section

variable {R W world simLoop} {policy : PolicyName} {depth : Int} {fuel : Nat}

theorem calibrated_start : Calibrated R W world simLoop depth .start := by
  intro horizon h
  cases h

theorem calibrate_ok {seed : Int} {p q : Progress}
    (h : calibrate R W world simLoop policy depth fuel seed p = .ok q) :
    q.passed = p.passed ∧ q.lastPass = p.lastPass ∧
    ((policy = .pct → seed ≠ calibrationSeed → q.horizon ≠ none) ∧
      (Calibrated R W world simLoop depth p → Calibrated R W world simLoop depth q)) := by
  unfold calibrate at h
  split at h
  · split at h
    · cases h
    · rename_i steps hsteps
      obtain rfl := Except.ok.inj h
      refine ⟨rfl, rfl, fun _ _ => Option.some_ne_none _, fun _ horizon hhorizon => ?_⟩
      exact ⟨fuel, steps, hsteps, (Option.some.inj hhorizon).symm⟩
  · rename_i hknown
    obtain rfl := Except.ok.inj h
    refine ⟨rfl, rfl, fun hpct hseed hnone => hknown ⟨hpct, hnone, hseed⟩, id⟩

/-- What one seed leaves behind. -/
theorem exploreSeed_ok {seed : Int} {p : Progress} {r : Report ε ⊕ Progress}
    (h : exploreSeed R W world simLoop policy depth fuel seed p = .ok r) :
    ∃ q s, calibrate R W world simLoop policy depth fuel seed p = .ok q ∧
      runSeed R W world simLoop fuel seed (policyFor policy depth q.horizon seed) = .ok s ∧
      ((∃ e, ending W s = .failed e ∧ r = .inl ⟨seed, q.passed, e, s.loop.recorder.events,
          s.loop.choiceLog, diffTraces q.lastPass s.loop.recorder.events,
          policyFor policy depth q.horizon seed⟩) ∨
        (∀ e, ending W s ≠ .failed e) ∧
          r = .inr { q with passed := q.passed + 1, lastPass := s.loop.recorder.events }) := by
  unfold exploreSeed at h
  split at h
  · cases h
  · rename_i q hq
    simp only at h
    split at h
    · cases h
    · rename_i s hs
      refine ⟨q, s, hq, hs, ?_⟩
      split at h
      · rename_i e he
        exact .inl ⟨e, he, (Except.ok.inj h).symm⟩
      · rename_i hpassed
        exact .inr ⟨hpassed, (Except.ok.inj h).symm⟩

theorem passAll_append {before rest : List Int} {p q : Progress}
    (h : passAll R W world simLoop policy depth fuel before p = some q) :
    exploreSeeds R W world simLoop policy depth fuel (before ++ rest) p =
      exploreSeeds R W world simLoop policy depth fuel rest q := by
  induction before generalizing p with
  | nil =>
      obtain rfl := Option.some.inj h
      rfl
  | cons seed before ih =>
      unfold passAll at h
      split at h
      · rename_i p' hp'
        rw [List.cons_append, exploreSeeds, hp']
        exact ih h
      · cases h

/-- Seeds that passed are counted, and none of them leaves another horizon. -/
theorem passAll_keeps {before : List Int} {p q : Progress}
    (hp : Calibrated R W world simLoop depth p)
    (h : passAll R W world simLoop policy depth fuel before p = some q) :
    q.passed = p.passed + before.length ∧ Calibrated R W world simLoop depth q := by
  induction before generalizing p with
  | nil =>
      obtain rfl := Option.some.inj h
      exact ⟨rfl, hp⟩
  | cons seed before ih =>
      unfold passAll at h
      split at h
      · rename_i p' hp'
        obtain ⟨c, s, hc, _, hend⟩ := exploreSeed_ok hp'
        obtain ⟨hcount, _, _, hkeep⟩ := calibrate_ok hc
        rcases hend with ⟨e, _, hreport⟩ | ⟨_, hnext⟩
        · cases hreport
        · obtain rfl := Sum.inr.inj hnext
          have hnext : Calibrated R W world simLoop depth
              { c with passed := c.passed + 1, lastPass := s.loop.recorder.events } := hkeep hp
          obtain ⟨hpassed, hcalibrated⟩ := ih hnext h
          refine ⟨?_, hcalibrated⟩
          rw [hpassed, List.length_cons]
          simp only [hcount]
          omega
      · cases h

/-- A seed that is reached is scheduled as the measurement of the one measured seed
says, and is not if it is that seed itself. -/
theorem policyFor_of_reaches {before : List Int} {seed : Int} {p : Progress}
    (h : Reaches R W world simLoop .pct depth fuel before seed p) :
    (seed = calibrationSeed ∧
      policyFor .pct depth p.horizon seed = some ⟨.pct, depth, none⟩) ∨
    (seed ≠ calibrationSeed ∧ ∃ fuel steps, measureSteps R W world simLoop fuel = .ok steps ∧
      policyFor .pct depth p.horizon seed = some ⟨.pct, depth, some (pctHorizon steps depth)⟩) := by
  obtain ⟨q, hq, hp⟩ := h
  obtain ⟨_, _, hmeasured, hkeep⟩ := calibrate_ok hp
  have hcalibrated := hkeep (passAll_keeps calibrated_start hq).2
  by_cases hseed : seed = calibrationSeed
  · refine .inl ⟨hseed, ?_⟩
    unfold policyFor
    rw [if_pos hseed]
  · refine .inr ⟨hseed, ?_⟩
    obtain ⟨horizon, hhorizon⟩ := Option.ne_none_iff_exists'.mp (hmeasured rfl hseed)
    obtain ⟨fuel', steps, hsteps, rfl⟩ := hcalibrated horizon hhorizon
    refine ⟨fuel', steps, hsteps, ?_⟩
    unfold policyFor
    rw [if_neg hseed, hhorizon]

/-! ## The policy can be built -/

/-- Any measurement leaves room for the change points. -/
theorem init_pctHorizon (hdepth : 1 ≤ depth) (seed : Int) (steps : Nat) :
    ∃ q, PCTPolicy.init R seed depth (pctHorizon steps depth) = .ok q := by
  have hfloor : 1 ≤ pctHorizon steps depth :=
    le_trans (by decide : (1 : Int) ≤ minHorizon)
      (le_trans (le_max_right _ _) (le_max_left _ _))
  have hroom : depth - 1 ≤ pctHorizon steps depth := le_max_right _ _
  unfold PCTPolicy.init
  rw [if_neg (by omega), if_neg (by omega), if_neg (by omega)]
  exact ⟨_, rfl⟩

theorem scheduler_of_reaches (hdepth : 1 ≤ depth) {before : List Int} {seed : Int}
    {p : Progress} (h : Reaches R W world simLoop .pct depth fuel before seed p) :
    ∃ q, scheduler R (policyFor .pct depth p.horizon seed) seed = .ok q := by
  rcases policyFor_of_reaches h with ⟨_, hrun⟩ | ⟨_, _, steps, _, hrun⟩
  · rw [hrun]
    exact ⟨none, rfl⟩
  · obtain ⟨q, hq⟩ := init_pctHorizon (R := R) hdepth seed steps
    rw [hrun]
    refine ⟨some q, ?_⟩
    unfold scheduler PolicyRun.build
    simp only [hq]

/-! ## The result -/

/-- Two reports of one run: they differ in nothing but how many seeds passed before
and which passing trace the run is compared with. -/
def Report.SameRun (r r' : Report ε) : Prop :=
  r.seed = r'.seed ∧ r.exception = r'.exception ∧ r.trace = r'.trace ∧
    r.choices = r'.choices ∧ r.policy = r'.policy

theorem policyFor_unique {fuel' : Nat} {before before' : List Int} {seed : Int} {p p' : Progress}
    (h : Reaches R W world simLoop .pct depth fuel before seed p)
    (h' : Reaches R W world simLoop .pct depth fuel' before' seed p') :
    policyFor .pct depth p.horizon seed = policyFor .pct depth p'.horizon seed := by
  rcases policyFor_of_reaches h with ⟨hseed, hrun⟩ | ⟨hseed, _, _, hsteps, hrun⟩
  · rcases policyFor_of_reaches h' with ⟨_, hrun'⟩ | ⟨hseed', _⟩
    · rw [hrun, hrun']
    · exact absurd hseed hseed'
  · rcases policyFor_of_reaches h' with ⟨hseed', _⟩ | ⟨_, _, _, hsteps', hrun'⟩
    · exact absurd hseed' hseed
    · rw [hrun, hrun', measureSteps_unique hsteps hsteps']

/-- Where the search reports the seed it has come to, the report is of its run. -/
theorem exploreSeeds_of_reaches {before rest : List Int} {seed : Int} {p : Progress}
    (h : Reaches R W world simLoop policy depth fuel before seed p) {r : Option (Report ε)}
    (hr : exploreSeeds R W world simLoop policy depth fuel (before ++ seed :: rest) .start =
      .ok r) :
    ∃ s, runSeed R W world simLoop fuel seed (policyFor policy depth p.horizon seed) = .ok s ∧
      ((∃ e, ending W s = .failed e ∧ r = some ⟨seed, before.length, e, s.loop.recorder.events,
          s.loop.choiceLog, diffTraces p.lastPass s.loop.recorder.events,
          policyFor policy depth p.horizon seed⟩) ∨
        (∀ e, ending W s ≠ .failed e) ∧
          exploreSeeds R W world simLoop policy depth fuel rest
            { p with passed := before.length + 1, lastPass := s.loop.recorder.events } = .ok r) := by
  obtain ⟨q, hq, hp⟩ := h
  have hcount := (passAll_keeps calibrated_start hq).1
  have hpassed : p.passed = before.length := by
    rw [(calibrate_ok hp).1, hcount]
    exact Nat.zero_add _
  rw [passAll_append hq, exploreSeeds] at hr
  split at hr
  · cases hr
  · rename_i report hreport
    obtain ⟨p', s, hp', hs, hend⟩ := exploreSeed_ok hreport
    obtain rfl := Except.ok.inj (hp.symm.trans hp')
    refine ⟨s, hs, ?_⟩
    rcases hend with ⟨e, he, heq⟩ | ⟨_, heq⟩
    · refine .inl ⟨e, he, ?_⟩
      rw [← Except.ok.inj hr, Sum.inl.inj heq, hpassed]
    · cases heq
  · rename_i next hnext
    obtain ⟨p', s, hp', hs, hend⟩ := exploreSeed_ok hnext
    obtain rfl := Except.ok.inj (hp.symm.trans hp')
    refine ⟨s, hs, ?_⟩
    rcases hend with ⟨_, _, heq⟩ | ⟨hpass, heq⟩
    · cases heq
    · refine .inr ⟨hpass, ?_⟩
      rw [← hpassed, ← Sum.inr.inj heq]
      exact hr

/-- Later reports count more seeds. -/
theorem exploreSeeds_passed {seeds : List Int} {p : Progress} {r : Report ε}
    (h : exploreSeeds R W world simLoop policy depth fuel seeds p = .ok (some r)) :
    p.passed ≤ r.seedsPassed := by
  induction seeds generalizing p with
  | nil => cases h
  | cons seed rest ih =>
      rw [exploreSeeds] at h
      split at h
      · cases h
      · rename_i report hreport
        obtain ⟨q, s, hq, _, hend⟩ := exploreSeed_ok hreport
        rcases hend with ⟨e, _, heq⟩ | ⟨_, heq⟩
        · rw [← Option.some.inj (Except.ok.inj h), Sum.inl.inj heq]
          exact Nat.le_of_eq (calibrate_ok hq).1.symm
        · cases heq
      · rename_i next hnext
        obtain ⟨q, s, hq, _, hend⟩ := exploreSeed_ok hnext
        rcases hend with ⟨_, _, heq⟩ | ⟨_, heq⟩
        · cases heq
        · have hle := ih h
          rw [Sum.inr.inj heq] at hle
          have hcount := (calibrate_ok hq).1
          simp only [hcount] at hle
          omega

theorem explore_pct (hdepth : 1 ≤ depth) (seeds : List Int) :
    explore R W world simLoop .pct depth 1 fuel seeds =
      exploreSeeds R W world simLoop .pct depth fuel seeds .start := by
  unfold explore
  rw [if_neg (by omega), if_neg (by omega), if_neg (by omega)]

end

/-- **A seed found under PCT replays on its own.**  For every depth of at least 1 the
policy can be built from any measurement.  When two searches come to a seed with every
earlier seed passed, they give it the same `PolicyRun` and the same policy, so its
session goes through the same states, policy, choice log and trace included; and where
the one reports the seed, the other, if it answers at all, reports the same run. -/
theorem pct_seed_replays_alone {depth : Int} (hdepth : 1 ≤ depth) :
    (∀ (seed : Int) (steps : Nat), ∃ q,
      PCTPolicy.init R seed depth (pctHorizon steps depth) = .ok q) ∧
    ∀ {fuel fuel' : Nat} {before before' : List Int} {seed : Int} {p p' : Progress},
      Reaches R W world simLoop .pct depth fuel before seed p →
      Reaches R W world simLoop .pct depth fuel' before' seed p' →
      (∃ run σ, policyFor .pct depth p.horizon seed = run ∧
        policyFor .pct depth p'.horizon seed = run ∧
        states R W world simLoop .pct depth seed p = .ok σ ∧
        states R W world simLoop .pct depth seed p' = .ok σ) ∧
      ∀ {rest rest' : List Int} {r : Report ε} {out : Option (Report ε)},
        explore R W world simLoop .pct depth 1 fuel (before ++ seed :: rest) = .ok (some r) →
        r.seedsPassed = before.length →
        explore R W world simLoop .pct depth 1 fuel' (before' ++ seed :: rest') = .ok out →
        ∃ r', out = some r' ∧ r'.seedsPassed = before'.length ∧ r.SameRun r' := by
  refine ⟨init_pctHorizon hdepth, fun {fuel fuel' before before' seed p p'} h h' => ⟨?_, ?_⟩⟩
  · have hrun := policyFor_unique h h'
    obtain ⟨q, hq⟩ := scheduler_of_reaches hdepth h
    refine ⟨_, fun n => (launch world simLoop q seed).after (shipped R) R W n, rfl, hrun.symm, ?_, ?_⟩
    · unfold states
      rw [hq]
    · unfold states
      rw [← hrun, hq]
  · intro rest rest' r out hr hcount hout
    rw [explore_pct hdepth] at hr hout
    obtain ⟨s, hs, hend⟩ := exploreSeeds_of_reaches h hr
    obtain ⟨s', hs', hend'⟩ := exploreSeeds_of_reaches h' hout
    -- both searches ran the seed to the same end
    rw [← policyFor_unique h h'] at hs' hend'
    obtain rfl := runSeed_unique hs hs'
    rcases hend with ⟨e, he, hreport⟩ | ⟨_, hlater⟩
    · rcases hend' with ⟨e', he', hreport'⟩ | ⟨hpass, _⟩
      · rw [he] at he'
        cases he'
        cases hreport
        exact ⟨_, hreport', rfl, rfl, rfl, rfl, rfl, rfl⟩
      · exact absurd he (hpass e)
    · -- a later seed's report counts this one too
      have hle := exploreSeeds_passed hlater
      simp only at hle
      omega

end

/-- The loop of a seed, on the stream of least draws. -/
def leastLoop (seed : Int) : LoopState (Shipped Unit) (Body Unit) Unit Unit :=
  LoopState.init .least seed

/-- The search reaches a seed when nothing stops it before. -/
theorem reaches_of_check {R : RandomSource ρ} {W : Workload ω κ ε υ} {world : ω}
    {simLoop : Int → LoopState (Shipped ρ) (Body κ) ε ρ} {policy : PolicyName} {depth : Int}
    {fuel : Nat} {before : List Int} {seed : Int}
    (h : ((passAll R W world simLoop policy depth fuel before .start).any fun q =>
      (calibrate R W world simLoop policy depth fuel seed q).toOption.isSome) = true) :
    ∃ p, Reaches R W world simLoop policy depth fuel before seed p := by
  cases hq : passAll R W world simLoop policy depth fuel before .start with
  | none =>
      rw [hq] at h
      cases h
  | some q =>
      rw [hq] at h
      simp only [Option.any_some] at h
      cases hp : calibrate R W world simLoop policy depth fuel seed q with
      | error e =>
          rw [hp] at h
          cases h
      | ok p => exact ⟨p, q, hq, hp⟩

/-- Seed 1, after the measured seed and another one, and on its own. -/
theorem pct_seed_replays_alone_twoCallbacks :
    ∃ p p', Reaches .least twoCallbacks 0 leastLoop .pct 3 40 [0, 2] 1 p ∧
      Reaches .least twoCallbacks 0 leastLoop .pct 3 30 [] 1 p' ∧
      ∃ run σ, policyFor .pct 3 p.horizon 1 = run ∧ policyFor .pct 3 p'.horizon 1 = run ∧
        states .least twoCallbacks 0 leastLoop .pct 3 1 p = .ok σ ∧
        states .least twoCallbacks 0 leastLoop .pct 3 1 p' = .ok σ := by
  obtain ⟨p, hp⟩ : ∃ p, Reaches .least twoCallbacks 0 leastLoop .pct 3 40 [0, 2] 1 p :=
    reaches_of_check (by decide +kernel)
  obtain ⟨p', hp'⟩ : ∃ p, Reaches .least twoCallbacks 0 leastLoop .pct 3 30 [] 1 p :=
    reaches_of_check (by decide +kernel)
  exact ⟨p, p', hp, hp',
    ((pct_seed_replays_alone .least twoCallbacks 0 leastLoop (by decide)).2 hp hp').1⟩

end SimLoop.Explore.PctSearch
