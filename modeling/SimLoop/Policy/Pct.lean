/-
  Policy/Pct.lean --- `PCTPolicy` (`_policy.py`).

  Every entry of the queue is priced in queue order, the earliest entry of
  highest priority is picked, and at a change point the picked owner is sent
  below everything seen so far, after the pick.
-/
import SimLoop.Foundation.Dict
import SimLoop.Policy.Scheduling
import Mathlib.Data.Finset.Basic

set_option autoImplicit false

namespace SimLoop.Policy

open SimLoop.Foundation

/-! ## `max` with a key -/

/-- The index `max(range(len(l)), key=l.__getitem__)` returns: the earliest of the
greatest entries.  On the empty list it is 0, which no caller asks for. -/
def earliestMax : List ℚ → Nat
  | [] => 0
  | x :: rest =>
    if ∀ y ∈ rest, y ≤ x then 0 else earliestMax rest + 1

theorem earliestMax_lt {l : List ℚ} (h : l ≠ []) : earliestMax l < l.length := by
  induction l with
  | nil => exact absurd rfl h
  | cons x rest ih =>
      unfold earliestMax
      split
      · simp
      · rename_i hx
        have hne : rest ≠ [] := by
          rintro rfl
          exact hx (by simp)
        simpa using ih hne

/-- What `earliestMax` returns: nothing in the list is greater, and everything
before it is less. -/
theorem earliestMax_spec {l : List ℚ} (h : l ≠ []) :
    ∃ x, l[earliestMax l]? = some x ∧ (∀ y ∈ l, y ≤ x) ∧
      ∀ j y, j < earliestMax l → l[j]? = some y → y < x := by
  induction l with
  | nil => exact absurd rfl h
  | cons a rest ih =>
      unfold earliestMax
      split
      · rename_i ha
        refine ⟨a, by simp, ?_, by simp⟩
        intro y hy
        rcases List.mem_cons.mp hy with rfl | hy
        · exact le_refl _
        · exact ha y hy
      · rename_i ha
        push Not at ha
        obtain ⟨b, hb, hab⟩ := ha
        have hne : rest ≠ [] := List.ne_nil_of_mem hb
        obtain ⟨x, hx, hmax, hbefore⟩ := ih hne
        have hax : a < x := lt_of_lt_of_le hab (hmax b hb)
        refine ⟨x, by simpa using hx, ?_, ?_⟩
        · intro y hy
          rcases List.mem_cons.mp hy with rfl | hy
          · exact hax.le
          · exact hmax y hy
        · intro j y hj hy
          cases j with
          | zero =>
              obtain rfl : a = y := by simpa using hy
              exact hax
          | succ j => exact hbefore j y (by omega) (by simpa using hy)

/-! ## PCTPolicy -/

/-- `PCTPolicy`. -/
structure PCTPolicy (ρ : Type) where
  rng : ρ
  priorities : Dict Int ℚ
  floor : ℚ
  changePoints : Finset Nat
  stepCount : Nat
  divergedAt : Option Nat

namespace PCTPolicy

variable {ρ : Type} (R : RandomSource ρ)

/-- `PCTPolicy.__init__`. -/
def init (seed : Int) (depth : Int := 3) (horizon : Int := 10000) :
    Except ValueError (PCTPolicy ρ) :=
  if depth < 1 then .error ⟨s!"depth must be >= 1, got {depth}"⟩
  else if horizon < 1 then .error ⟨s!"horizon must be >= 1, got {horizon}"⟩
  else if depth - 1 > horizon then
    .error ⟨s!"horizon must leave room for depth - 1 change points: " ++
      s!"depth {depth} needs horizon >= {depth - 1}, got {horizon}"⟩
  else
    let (points, rng) := R.sample (R.seeded s!"{seed}:pct") horizon.toNat (depth - 1).toNat
    .ok ⟨rng, Dict.empty, 0, points.toFinset, 0, none⟩

/-- `PCTPolicy._priority`. -/
def priority (p : PCTPolicy ρ) (owner : Int) : ℚ × PCTPolicy ρ :=
  match p.priorities.get? owner with
  | some prio => (prio, p)
  | none =>
    let (x, rng) := R.random p.rng
    (x + 1, { p with rng := rng, priorities := p.priorities.insert owner (x + 1) })

/-- The keys `max` reads, one per entry in queue order. -/
def priorityAll (p : PCTPolicy ρ) : List ReadyView → List ℚ × PCTPolicy ρ
  | [] => ([], p)
  | view :: rest =>
    let (prio, p₁) := priority R p view.1
    let (prios, p₂) := priorityAll p₁ rest
    (prio :: prios, p₂)

/-- The demotion at a change point: the floor drops by one and the owner goes there. -/
def demote (p : PCTPolicy ρ) (owner : Int) : PCTPolicy ρ :=
  { p with floor := p.floor - 1, priorities := p.priorities.insert owner (p.floor - 1) }

/-- `PCTPolicy.choose`. -/
def choose (p : PCTPolicy ρ) (ready : List ReadyView) : Except ValueError Int × PCTPolicy ρ :=
  let step := p.stepCount
  let p := { p with stepCount := step + 1 }
  let (prios, p) := priorityAll R p ready
  let index := earliestMax prios
  match ready[index]? with
  | none => (.error ⟨"max() iterable argument is empty"⟩, p)
  | some view => (.ok index, if step ∈ p.changePoints then p.demote view.1 else p)

@[simp] theorem length_priorityAll (ready : List ReadyView) (p : PCTPolicy ρ) :
    (priorityAll R p ready).1.length = ready.length := by
  induction ready generalizing p with
  | nil => rfl
  | cons view rest ih => simp [priorityAll, ih]

theorem choose_inRange (p : PCTPolicy ρ) {ready : List ReadyView} (h : ready ≠ []) :
    ∃ i : Nat, i < ready.length ∧ (choose R p ready).1 = .ok (i : Int) := by
  set p' : PCTPolicy ρ := { p with stepCount := p.stepCount + 1 } with hp'
  have hlen := length_priorityAll R ready p'
  have hne : (priorityAll R p' ready).1 ≠ [] := by
    rw [← List.length_pos_iff, hlen]
    exact List.length_pos_iff.mpr h
  have hlt : earliestMax (priorityAll R p' ready).1 < ready.length := hlen ▸ earliestMax_lt hne
  refine ⟨_, hlt, ?_⟩
  simp only [choose, ← hp']
  rw [List.getElem?_eq_getElem hlt]

end PCTPolicy

/-! ## The policies that ship -/

/-- A policy object of one of the three shipped classes. -/
inductive Shipped (ρ : Type) where
  | seeded (p : SeededPolicy ρ)
  | scripted (p : ScriptedPolicy)
  | pct (p : PCTPolicy ρ)

/-- Calling a shipped policy through the interface. -/
def shipped {ρ : Type} (R : RandomSource ρ) : SchedulingPolicy (Shipped ρ) where
  choose
    | .seeded p, ready => let (r, p) := SeededPolicy.choose R p ready; (r, .seeded p)
    | .scripted p, ready => let (r, p) := p.choose ready; (r, .scripted p)
    | .pct p, ready => let (r, p) := PCTPolicy.choose R p ready; (r, .pct p)
  divergedAt
    | .seeded p => p.divergedAt
    | .scripted p => p.divergedAt
    | .pct p => p.divergedAt

/-- Every shipped policy answers with an index the queue has. -/
theorem shipped_inRange {ρ : Type} (R : RandomSource ρ) : (shipped R).InRange := by
  intro p ready hready
  cases p with
  | seeded p => exact SeededPolicy.choose_inRange R p hready
  | scripted p => exact ScriptedPolicy.choose_inRange p hready
  | pct p => exact PCTPolicy.choose_inRange R p hready

end SimLoop.Policy
