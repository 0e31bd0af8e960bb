/-
  Policy/Scheduling.lean --- scheduling policies (`_policy.py`): the interface, the
  seeded default and the scripted replay.

  A policy is shown the ready queue as `ReadyView`s and answers with an index.
  The index is an integer, because that is what Python lets a policy return;
  `InRange` is what a policy owes the loop on a queue that is not empty.
-/
import SimLoop.Foundation.Random

set_option autoImplicit false

namespace SimLoop.Policy

open SimLoop.Foundation

/-! ## The interface -/

/-- `array("L").itemsize`, in bytes. -/
def itemsize : Nat := 8

/-- `MAX_CHOICE`. -/
def maxChoice : Nat := 2 ^ (8 * itemsize) - 1

/-- `ReadyView`: `(owner, label)`. -/
abbrev ReadyView := Int × String

/-- `ValueError`, the only exception a policy raises. -/
structure ValueError where
  message : String
  deriving DecidableEq, Repr

/-- `SchedulingPolicy`, over a type of policy states. -/
structure SchedulingPolicy (π : Type) where
  choose : π → List ReadyView → Except ValueError Int × π
  divergedAt : π → Option Nat

/-- Asked about a queue that is not empty, the policy answers with one of its indices. -/
def SchedulingPolicy.InRange {π : Type} (P : SchedulingPolicy π) : Prop :=
  ∀ (p : π) (ready : List ReadyView), ready ≠ [] →
    ∃ i : Nat, i < ready.length ∧ (P.choose p ready).1 = .ok (i : Int)

/-! ## SeededPolicy -/

/-- `SeededPolicy`. -/
structure SeededPolicy (ρ : Type) where
  rng : ρ
  divergedAt : Option Nat

namespace SeededPolicy

variable {ρ : Type} (R : RandomSource ρ)

/-- `SeededPolicy.__init__`. -/
def init (seed : Int) : SeededPolicy ρ := ⟨R.seededInt seed, none⟩

/-- `SeededPolicy.choose`. -/
def choose (p : SeededPolicy ρ) (ready : List ReadyView) :
    Except ValueError Int × SeededPolicy ρ :=
  if ready.length = 0 then (.error ⟨"empty range for randrange()"⟩, p)
  else
    let (i, rng) := R.randrange p.rng ready.length
    (.ok i, { p with rng := rng })

theorem choose_inRange (p : SeededPolicy ρ) {ready : List ReadyView} (h : ready ≠ []) :
    ∃ i : Nat, i < ready.length ∧ (choose R p ready).1 = .ok (i : Int) := by
  have hpos : 0 < ready.length := List.length_pos_iff.mpr h
  refine ⟨(R.randrange p.rng ready.length).1, R.randrange_lt _ _ hpos, ?_⟩
  simp [choose, Nat.pos_iff_ne_zero.mp hpos]

end SeededPolicy

/-! ## ScriptedPolicy -/

/-- `ScriptedPolicy`: the recording, and how far into it the run is. -/
structure ScriptedPolicy where
  choices : List Nat
  step : Nat
  divergedAt : Option Nat
  recordable : ∀ c ∈ choices, c ≤ maxChoice

namespace ScriptedPolicy

/-- The check `ScriptedPolicy.__init__` makes of one choice. -/
def checkChoice (choice : Int) : Except ValueError Unit :=
  if choice < 0 then .error ⟨s!"scheduler choices must be non-negative: {choice}"⟩
  else if choice > maxChoice then .error ⟨s!"scheduler choice is too large: {choice}"⟩
  else .ok ()

theorem checkChoice_eq_ok_iff {choice : Int} :
    checkChoice choice = .ok () ↔ 0 ≤ choice ∧ choice ≤ maxChoice := by
  unfold checkChoice
  split
  · simp
    omega
  · split
    · simp
      omega
    · simp
      omega

/-- `array(CHOICE_TYPECODE, recorded)`: the list, once every entry has been checked. -/
def checkAll : List Int → Except ValueError { l : List Nat // ∀ c ∈ l, c ≤ maxChoice }
  | [] => .ok ⟨[], by simp⟩
  | choice :: rest =>
    match h : checkChoice choice with
    | .error e => .error e
    | .ok () =>
      match checkAll rest with
      | .error e => .error e
      | .ok ⟨l, hl⟩ => .ok ⟨choice.toNat :: l, by
          have := checkChoice_eq_ok_iff.mp h
          intro c hc
          rcases List.mem_cons.mp hc with rfl | hc
          · omega
          · exact hl c hc⟩

/-- `ScriptedPolicy.__init__`. -/
def init (choices : List Int) : Except ValueError ScriptedPolicy :=
  match checkAll choices with
  | .error e => .error e
  | .ok ⟨l, hl⟩ => .ok ⟨l, 0, none, hl⟩

/-- `ScriptedPolicy._diverge`. -/
def diverge (p : ScriptedPolicy) (step : Nat) : ScriptedPolicy :=
  match p.divergedAt with
  | none => { p with divergedAt := some step }
  | some _ => p

/-- `ScriptedPolicy.choose`. -/
def choose (p : ScriptedPolicy) (ready : List ReadyView) :
    Except ValueError Int × ScriptedPolicy :=
  let step := p.step
  let p := { p with step := step + 1 }
  match p.choices[step]? with
  | none => (.ok 0, p.diverge step)
  | some choice =>
    if choice ≥ ready.length then (.ok ((ready.length : Int) - 1), p.diverge step)
    else (.ok choice, p)

/-- A recording of natural numbers no larger than `maxChoice` is accepted as it is. -/
theorem checkAll_natCast {l : List Nat} (hl : ∀ c ∈ l, c ≤ maxChoice) :
    checkAll (l.map Int.ofNat) = .ok ⟨l, hl⟩ := by
  induction l with
  | nil => rfl
  | cons c rest ih =>
      have hc : checkChoice (Int.ofNat c) = .ok () := by
        rw [checkChoice_eq_ok_iff]
        have := hl c List.mem_cons_self
        exact ⟨Int.natCast_nonneg c, Int.ofNat_le.mpr this⟩
      have hrest := ih (fun d hd => hl d (List.mem_cons_of_mem _ hd))
      simp only [List.map_cons, checkAll]
      split
      · rename_i e he
        rw [hc] at he
        cases he
      · rw [hrest]
        simp

theorem init_natCast {l : List Nat} (hl : ∀ c ∈ l, c ≤ maxChoice) :
    init (l.map Int.ofNat) = .ok ⟨l, 0, none, hl⟩ := by
  simp only [init, checkAll_natCast hl]

@[simp] theorem choices_diverge (p : ScriptedPolicy) (step : Nat) :
    (p.diverge step).choices = p.choices := by
  unfold diverge
  split <;> rfl

@[simp] theorem step_diverge (p : ScriptedPolicy) (step : Nat) :
    (p.diverge step).step = p.step := by
  unfold diverge
  split <;> rfl

/-- A step inside the recording whose index the queue has is taken as recorded. -/
theorem choose_recorded {p : ScriptedPolicy} {ready : List ReadyView} {c : Nat}
    (hc : p.choices[p.step]? = some c) (hlt : c < ready.length) :
    p.choose ready = (.ok (c : Int), { p with step := p.step + 1 }) := by
  simp only [choose, hc]
  rw [if_neg (Nat.not_le.mpr hlt)]

/-- Past the end of the recording the first ready callback runs. -/
theorem choose_past_end {p : ScriptedPolicy} (ready : List ReadyView)
    (h : p.choices.length ≤ p.step) :
    p.choose ready = (.ok 0, ({ p with step := p.step + 1 } : ScriptedPolicy).diverge p.step) := by
  simp only [choose]
  rw [List.getElem?_eq_none h]

theorem choose_inRange (p : ScriptedPolicy) {ready : List ReadyView} (h : ready ≠ []) :
    ∃ i : Nat, i < ready.length ∧ (p.choose ready).1 = .ok (i : Int) := by
  have hpos : 0 < ready.length := List.length_pos_iff.mpr h
  simp only [choose]
  split
  · exact ⟨0, hpos, rfl⟩
  · rename_i c _
    split
    · exact ⟨ready.length - 1, by omega, by simp; omega⟩
    · exact ⟨c, by omega, rfl⟩

end ScriptedPolicy

end SimLoop.Policy
