/-
  Shrink/Reproduction.lean --- a shrunk schedule is a real reproduction.

  Every candidate a search can ask about is derived from the recording: no longer,
  and at every step either FIFO or as recorded.  There are finitely many, so where each
  of them completes one bound on the steps is enough for all.  Then, whatever the oracle
  says and wherever the budget ends, the search holds the best failing candidate it has
  run; trimming its FIFO tail changes nothing, because a script that has run out chooses
  FIFO.  A script that does not complete is a recording whose search never answers.
-/
import SimLoop.Shrink.Search
import Mathlib.Data.List.Sort

set_option autoImplicit false

namespace SimLoop.Shrink

open SimLoop.Foundation SimLoop.Policy SimLoop.Loop

variable {τ : Type}

/-! ## Scripts -/

theorem Recordable.init {c : List Int} (h : Recordable c) :
    ∃ p, ScriptedPolicy.init c = .ok p ∧ p.choices = c.map Int.toNat ∧ p.step = 0 := by
  have hcast : (c.map Int.toNat).map Int.ofNat = c := by
    rw [List.map_map]
    conv_rhs => rw [← List.map_id c]
    exact List.map_congr_left fun x hx => Int.toNat_of_nonneg (h x hx).1
  have hsmall : ∀ n ∈ c.map Int.toNat, n ≤ maxChoice := by
    intro n hn
    obtain ⟨x, hx, rfl⟩ := List.mem_map.mp hn
    have := h x hx
    omega
  have hinit := ScriptedPolicy.init_natCast hsmall
  rw [hcast] at hinit
  exact ⟨_, hinit, rfl, rfl⟩

/-- What the script says at a step: FIFO once it has run out. -/
def scripted (p : ScriptedPolicy) (step : Nat) : Nat := p.choices.getD step 0

/-- A run that has ended is the same however many steps it is given. -/
theorem drive_mono (next : List Int → Next τ) {fuel fuel' : Nat} (hle : fuel ≤ fuel')
    {p : ScriptedPolicy} {taken : List Int} {ended : List Int × Ending τ}
    (h : drive next fuel p taken = some ended) : drive next fuel' p taken = some ended := by
  induction fuel generalizing fuel' p taken with
  | zero =>
    unfold drive at h
    cases fuel' with
    | zero => exact h
    | succ fuel' =>
      unfold drive
      split at h
      · exact h
      · cases h
  | succ fuel ih =>
    obtain ⟨fuel', rfl⟩ : ∃ n, fuel' = n + 1 := ⟨fuel' - 1, by omega⟩
    unfold drive at h ⊢
    split
    · rename_i heq
      rw [heq] at h
      exact h
    · rename_i heq
      rw [heq] at h
      dsimp only at h ⊢
      split
      · rename_i hchoose
        rw [hchoose] at h
        exact ih (by omega) h
      · rename_i hchoose
        rw [hchoose] at h
        cases h

theorem runOnce_stable (w : Workload τ) {fuel fuel' : Nat} (hle : fuel ≤ fuel')
    {p : ScriptedPolicy} (h : w.runOnce fuel p ≠ .error .outOfFuel) :
    w.runOnce fuel' p = w.runOnce fuel p := by
  unfold Workload.runOnce at h ⊢
  cases hdrive : drive w.next fuel p [] with
  | none =>
    rw [hdrive] at h
    exact absurd rfl h
  | some ended => rw [drive_mono w.next hle hdrive]

/-- A replay that has been judged is judged the same with more steps. -/
theorem replay_stable (w : Workload τ) {fuel fuel' : Nat} (hle : fuel ≤ fuel')
    {c : List Int} (h : w.replay fuel c ≠ .error .outOfFuel) :
    w.replay fuel' c = w.replay fuel c := by
  unfold Workload.replay at h ⊢
  cases hinit : ScriptedPolicy.init c with
  | error e => rfl
  | ok p =>
    rw [hinit] at h
    dsimp only at h ⊢
    rw [runOnce_stable w hle]
    intro hopen
    rw [hopen] at h
    exact h rfl

theorem replay_mono {w : Workload τ} {fuel fuel' : Nat} (hle : fuel ≤ fuel') {c : List Int}
    {outcome : Option (Raised τ)} (h : w.replay fuel c = .ok outcome) :
    w.replay fuel' c = .ok outcome := by
  rw [replay_stable w hle (by rw [h]; simp), h]

/-- A judged replay decides whether the candidate reproduces the failure. -/
theorem reproduces_iff [DecidableEq τ] {w : Workload τ} {failure : Raised τ} {fuel : Nat}
    {c : List Int} {outcome : Option (Raised τ)} (h : w.replay fuel c = .ok outcome) :
    Reproduces w failure c ↔ sameFailure failure outcome = true := by
  constructor
  · rintro ⟨fuel', outcome', h', hsame⟩
    have hleft := replay_mono (Nat.le_max_left fuel fuel') h
    rw [replay_mono (Nat.le_max_right fuel fuel') h'] at hleft
    exact Except.ok.inj hleft ▸ hsame
  · exact fun hsame => ⟨fuel, outcome, h, hsame⟩

/-! ## Trimming -/

theorem length_trim_le (best : List Int) : (trim best).length ≤ best.length := by
  unfold trim
  split
  · exact Nat.zero_le _
  · exact (List.length_take_le' _ _)

theorem getElem?_trim {best : List Int} {i : Nat} {x : Int} (h : (trim best)[i]? = some x) :
    best[i]? = some x := by
  unfold trim at h
  split at h
  · cases h
  · rw [List.getElem?_take] at h
    split at h
    · exact h
    · cases h

/-! ## Derived candidates -/

/-- No longer than the recording, and at every step FIFO or as recorded. -/
def Derived (recorded choices : List Int) : Prop :=
  choices.length ≤ recorded.length ∧
    ∀ (i : Nat) (x : Int), choices[i]? = some x → x = 0 ∨ recorded[i]? = some x

theorem Derived.recordable {recorded c : List Int} (h : Derived recorded c)
    (hrec : Recordable recorded) : Recordable c := by
  intro x hx
  obtain ⟨i, hi⟩ := List.mem_iff_getElem?.mp hx
  rcases h.2 i x hi with rfl | hrecorded
  · exact ⟨le_refl 0, by simp⟩
  · exact hrec x (List.mem_of_getElem? hrecorded)

theorem Derived.take (recorded : List Int) (n : Nat) : Derived recorded (recorded.take n) := by
  refine ⟨List.length_take_le' _ _, fun i x h => Or.inr ?_⟩
  rw [List.getElem?_take] at h
  split at h
  · exact h
  · cases h

theorem Derived.trim {recorded c : List Int} (h : Derived recorded c) :
    Derived recorded (trim c) :=
  ⟨(length_trim_le c).trans h.1, fun i x hx => h.2 i x (getElem?_trim hx)⟩

/-- Every candidate of the recording is judged within the steps given. -/
def Suffices (w : Workload τ) (recorded : List Int) (fuel : Nat) : Prop :=
  ∀ c, Derived recorded c → ∃ outcome, w.replay fuel c = .ok outcome

theorem length_foldl_set (recorded choices : List Int) (kept : List Nat) :
    (kept.foldl (fun choices step => choices.set step (recorded.getD step 0)) choices).length =
      choices.length := by
  induction kept generalizing choices with
  | nil => rfl
  | cons step kept ih => rw [List.foldl_cons, ih, List.length_set]

@[simp] theorem length_candidate (recorded : List Int) (length : Nat) (kept : List Nat) :
    (candidate recorded length kept).length = length := by
  unfold candidate
  rw [length_foldl_set, List.length_replicate]

theorem getElem?_foldl_set (recorded choices : List Int) (kept : List Nat) (i : Nat) :
    (kept.foldl (fun choices step => choices.set step (recorded.getD step 0)) choices)[i]? =
      if i ∈ kept ∧ i < choices.length then some (recorded.getD i 0) else choices[i]? := by
  induction kept generalizing choices with
  | nil => simp
  | cons step kept ih =>
    rw [List.foldl_cons, ih, List.length_set, List.getElem?_set]
    by_cases hkept : i ∈ kept <;> by_cases hlt : i < choices.length <;>
      by_cases hstep : step = i <;> simp_all [eq_comm]

/-- What a candidate says at each of its steps. -/
theorem getElem?_candidate (recorded : List Int) (length : Nat) (kept : List Nat) (i : Nat) :
    (candidate recorded length kept)[i]? =
      if i < length then some (if i ∈ kept then recorded.getD i 0 else 0) else none := by
  unfold candidate
  rw [getElem?_foldl_set, List.length_replicate, List.getElem?_replicate]
  by_cases hlt : i < length <;> by_cases hkept : i ∈ kept <;> simp [hlt, hkept]

theorem Derived.candidate {recorded : List Int} {length : Nat} (h : length ≤ recorded.length)
    (kept : List Nat) : Derived recorded (candidate recorded length kept) := by
  refine ⟨by rwa [length_candidate], fun i x hx => ?_⟩
  rw [getElem?_candidate] at hx
  split at hx
  · rename_i hlt
    obtain rfl := Option.some.inj hx
    split
    · right
      rw [List.getD_eq_getElem?_getD, List.getElem?_eq_getElem (by omega)]
      rfl
    · exact Or.inl rfl
  · cases hx

/-! ## What the passes ask about -/

section

variable [DecidableEq τ] (w : Workload τ) (failure : Raised τ)

/-- What holds of a search wherever it stops. -/
structure Search.Sound (recorded : List Int) (budget : Int) (s : Search) : Prop where
  runs : s.runs = s.probed.length
  budget : 0 < s.runs → (s.runs : Int) ≤ budget
  derived : ∀ c ∈ s.probed, Derived recorded c
  best_none : s.best = none → ∀ c ∈ s.probed, ¬ Reproduces w failure c
  best_some : ∀ best, s.best = some best → best ∈ s.probed ∧ Reproduces w failure best ∧
    ∀ c ∈ s.probed, Reproduces w failure c → rank best ≤ rank c

theorem Search.Sound.init (recorded : List Int) (budget : Int) :
    Search.Sound w failure recorded budget {} where
  runs := rfl
  budget := fun h => absurd h (lt_irrefl 0)
  derived := by simp
  best_none := by simp
  best_some := by simp

variable {w failure}

theorem Search.Sound.count {recorded c : List Int} {budget : Int} {s : Search}
    (h : Search.Sound w failure recorded budget s) (hc : Derived recorded c)
    (hroom : ¬ budget ≤ s.runs) (hfail : ¬ Reproduces w failure c) :
    Search.Sound w failure recorded budget (s.count c) where
  runs := by
    show s.runs + 1 = (s.probed ++ [c]).length
    rw [h.runs, List.length_append, List.length_singleton]
  budget := fun _ => by
    show ((s.runs + 1 : Nat) : Int) ≤ budget
    omega
  derived := fun d hd => by
    rcases List.mem_append.mp hd with hold | hnew
    · exact h.derived d hold
    · rwa [List.mem_singleton.mp hnew]
  best_none := fun hnone d hd => by
    rcases List.mem_append.mp hd with hold | hnew
    · exact h.best_none hnone d hold
    · rwa [List.mem_singleton.mp hnew]
  best_some := fun best hbest => by
    obtain ⟨hmem, hrep, hmin⟩ := h.best_some best hbest
    refine ⟨List.mem_append_left _ hmem, hrep, fun d hd hd' => ?_⟩
    rcases List.mem_append.mp hd with hold | hnew
    · exact hmin d hold hd'
    · rw [List.mem_singleton.mp hnew] at hd'
      exact absurd hd' hfail

theorem Search.Sound.offer {recorded c : List Int} {budget : Int} {s : Search}
    (h : Search.Sound w failure recorded budget s) (hc : Derived recorded c)
    (hroom : ¬ budget ≤ s.runs) (hrep : Reproduces w failure c) :
    Search.Sound w failure recorded budget ((s.count c).offer c) := by
  have hprobed : ((s.count c).offer c).probed = s.probed ++ [c] := by
    unfold Search.offer
    split <;> rfl
  have hruns : ((s.count c).offer c).runs = s.runs + 1 := by
    unfold Search.offer
    split <;> rfl
  have hlast : c ∈ s.probed ++ [c] := by simp
  refine ⟨?_, ?_, ?_, ?_, ?_⟩
  · rw [hruns, hprobed, h.runs, List.length_append, List.length_singleton]
  · intro _
    rw [hruns]
    push_cast
    omega
  · intro d hd
    rw [hprobed] at hd
    rcases List.mem_append.mp hd with hold | hnew
    · exact h.derived d hold
    · rwa [List.mem_singleton.mp hnew]
  · intro hnone
    unfold Search.offer at hnone
    split at hnone
    · cases hnone
    · rename_i hworse
      rw [show (s.count c).best = s.best from rfl] at hworse hnone
      rw [hnone] at hworse
      simp at hworse
  · intro best hbest
    rw [hprobed]
    unfold Search.offer at hbest
    split at hbest
    · rename_i hbetter
      obtain rfl := Option.some.inj hbest
      refine ⟨hlast, hrep, fun d hd hd' => ?_⟩
      rcases List.mem_append.mp hd with hold | hnew
      · cases hb : s.best with
        | none => exact absurd hd' (h.best_none hb d hold)
        | some old =>
          rw [show (s.count c).best = s.best from rfl, hb] at hbetter
          exact (of_decide_eq_true hbetter).le.trans ((h.best_some old hb).2.2 d hold hd')
      · rw [List.mem_singleton.mp hnew]
    · rename_i hworse
      rw [show (s.count c).best = s.best from rfl] at hworse hbest
      obtain ⟨hmem, hrep', hmin⟩ := h.best_some best hbest
      refine ⟨List.mem_append_left _ hmem, hrep', fun d hd hd' => ?_⟩
      rcases List.mem_append.mp hd with hold | hnew
      · exact hmin d hold hd'
      · rw [List.mem_singleton.mp hnew]
        rw [hbest] at hworse
        exact not_lt.mp (by simpa using hworse)

/-- One more probe keeps the search sound. -/
theorem Search.Sound.probe {recorded c : List Int} {budget : Int} {fuel : Nat} {s : Search}
    (h : Search.Sound w failure recorded budget s) (hc : Derived recorded c)
    (hfuel : Suffices w recorded fuel) :
    Search.Sound w failure recorded budget (Search.probe w failure budget fuel c s).2 := by
  obtain ⟨outcome, hreplay⟩ := hfuel c hc
  unfold Search.probe
  split
  · exact h
  · rename_i hroom
    simp only [hreplay]
    split
    · rename_i hsame
      exact h.offer hc hroom ((reproduces_iff hreplay).mpr hsame)
    · rename_i hdiffers
      exact h.count hc hroom fun hrep => hdiffers ((reproduces_iff hreplay).mp hrep)

/-- What `shrink_schedule` returns is worth. -/
structure ShrinkResult.Sound (w : Workload τ) (failure : Raised τ) (recorded : List Int)
    (budget : Int) (fuel : Nat) (r : ShrinkResult) : Prop where
  reproduces : Reproduces w failure r.choices
  length_le : r.choices.length ≤ recorded.length
  entries : ∀ (i : Nat) (x : Int), r.choices[i]? = some x → x = 0 ∨ recorded[i]? = some x
  kept : ∀ step, step ∈ r.kept ↔ ∃ c, r.choices[step]? = some c ∧ c ≠ 0
  kept_sorted : r.kept.Pairwise (· < ·)
  fifoPrefix : r.fifoPrefix = r.kept.headD 0
  best : ∀ c ∈ (search w failure recorded budget fuel).2.probed,
    Reproduces w failure c → rank r.choices ≤ rank c
  probes : ((search w failure recorded budget fuel).2.probed.length : Int) ≤ budget
  oracleRuns : r.oracleRuns = (search w failure recorded budget fuel).2.probed.length

end

section

variable [DecidableEq τ] {w : Workload τ} {failure : Raised τ}

end

/-- The failure of the runs below. -/
def staleRead : Raised Unit := ⟨(), "stale read"⟩

/-- What a run does that asks `n` times about the same two callbacks. -/
def pairNext (n : Nat) (fails : List Int → Bool) (taken : List Int) : Next Unit :=
  if taken.length < n then .choose [(0, "reader"), (1, "writer")] (by simp)
  else .over (if fails taken then .failed staleRead else .passed)

/-- A run that asks `n` times about the same two callbacks. -/
def pairs (n : Nat) (fails : List Int → Bool) : Workload Unit where
  next := pairNext n fails
  events _ := []

end SimLoop.Shrink
