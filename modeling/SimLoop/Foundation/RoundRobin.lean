/-
  Foundation/RoundRobin.lean --- round robin over chains of steps.

  A queue holds chains of steps.  The chain in front runs its next step and stays
  in front, except after a marked step: then it goes to the back.  An exhausted
  chain leaves the queue.  A mark may depend on the step and on its time.

  Two facts carry the use made of it here: seen through a class of whole chains, the
  schedule of a queue is the schedule of that class (`filter_roundRobin`), and a
  mark on the last step of a chain changes nothing (`roundRobin_sequential`).
-/
import Mathlib.Data.List.Basic
import Mathlib.Data.List.Perm.Basic
import Mathlib.Data.List.InsertIdx

set_option autoImplicit false

namespace SimLoop.Foundation

variable {α : Type*}

/-! ## The schedule -/

/-- The turns a queue has left: its steps, and one more for each chain to leave. -/
def turnsLeft : List (List α) → Nat
  | [] => 0
  | chain :: queue => turnsLeft queue + chain.length + 1

/-- The first `fuel` turns from time `t`. -/
def turns (mark : Nat → α → Bool) : Nat → Nat → List (List α) → List α
  | 0, _, _ => []
  | _ + 1, _, [] => []
  | fuel + 1, t, [] :: queue => turns mark fuel t queue
  | fuel + 1, t, (x :: xs) :: queue =>
    x :: turns mark fuel (t + 1) (if mark t x then queue ++ [xs] else xs :: queue)

/-- The schedule of a queue whose first step runs at time `t`. -/
def roundRobin (mark : Nat → α → Bool) (t : Nat) (queue : List (List α)) : List α :=
  turns mark (turnsLeft queue) t queue

@[simp] theorem turnsLeft_append (p q : List (List α)) :
    turnsLeft (p ++ q) = turnsLeft p + turnsLeft q := by
  induction p with
  | nil => simp [turnsLeft]
  | cons chain p ih =>
      simp only [List.cons_append, turnsLeft, ih]
      omega

section

variable (mark : Nat → α → Bool) (t : Nat)

@[simp] theorem roundRobin_nil : roundRobin mark t [] = [] :=
  rfl

@[simp] theorem roundRobin_exhausted (queue : List (List α)) :
    roundRobin mark t ([] :: queue) = roundRobin mark t queue :=
  rfl

/-- After a marked step the chain waits for all the others. -/
theorem roundRobin_marked {x : α} (h : mark t x = true) (xs : List α) (queue : List (List α)) :
    roundRobin mark t ((x :: xs) :: queue) = x :: roundRobin mark (t + 1) (queue ++ [xs]) := by
  have hleft : turnsLeft ((x :: xs) :: queue) = turnsLeft (queue ++ [xs]) + 1 := by
    simp only [turnsLeft, turnsLeft_append, List.length_cons]
    omega
  simp only [roundRobin, hleft, turns, h, if_true]

/-- After any other step the chain goes on. -/
theorem roundRobin_unmarked {x : α} (h : mark t x = false) (xs : List α)
    (queue : List (List α)) :
    roundRobin mark t ((x :: xs) :: queue) = x :: roundRobin mark (t + 1) (xs :: queue) := by
  have hleft : turnsLeft ((x :: xs) :: queue) = turnsLeft (xs :: queue) + 1 := by
    simp only [turnsLeft, List.length_cons]
    omega
  simp only [roundRobin, hleft, turns, h, Bool.false_eq_true, if_false]

end

/-- Induction along a schedule: a chain leaves, or the one in front runs a step and goes
to either end. -/
theorem queue_induction {motive : List (List α) → Prop} (nil : motive [])
    (exhausted : ∀ queue, motive queue → motive ([] :: queue))
    (step : ∀ x xs queue, motive (queue ++ [xs]) → motive (xs :: queue) →
      motive ((x :: xs) :: queue))
    (queue : List (List α)) : motive queue := by
  induction hn : turnsLeft queue using Nat.strongRecOn generalizing queue with
  | _ n ih =>
    subst hn
    match queue with
    | [] => exact nil
    | [] :: queue => exact exhausted queue (ih _ (by simp [turnsLeft]) _ rfl)
    | (x :: xs) :: queue =>
        refine step x xs queue (ih _ ?_ _ rfl) (ih _ ?_ _ rfl)
        · simp only [turnsLeft_append, turnsLeft, List.length_cons]
          omega
        · simp only [turnsLeft, List.length_cons]
          omega

/-- One turn, with the queue it leaves. -/
theorem roundRobin_cons (mark : Nat → α → Bool) (t : Nat) (x : α) (xs : List α)
    (queue : List (List α)) :
    roundRobin mark t ((x :: xs) :: queue) =
      x :: roundRobin mark (t + 1) (if mark t x then queue ++ [xs] else xs :: queue) := by
  cases h : mark t x with
  | true => simpa using roundRobin_marked mark t h xs queue
  | false => simpa using roundRobin_unmarked mark t h xs queue

/-- A chain alone runs through, marks or not. -/
theorem roundRobin_single (mark : Nat → α → Bool) (t : Nat) (chain : List α) :
    roundRobin mark t [chain] = chain := by
  induction chain generalizing t with
  | nil => rfl
  | cons x xs ih =>
      rw [roundRobin_cons]
      split <;> simp [ih]

/-! ## What a schedule runs -/

/-- A schedule runs every step of the queue once. -/
theorem roundRobin_perm (mark : Nat → α → Bool) (t : Nat) (queue : List (List α)) :
    (roundRobin mark t queue).Perm queue.flatten := by
  induction queue using queue_induction generalizing t with
  | nil => exact .nil
  | exhausted queue ih => simpa using ih t
  | step x xs queue hback hfront =>
      rw [roundRobin_cons]
      split
      · refine ((hback (t + 1)).trans ?_).cons x
        simpa using List.perm_append_comm
      · simpa using (hfront (t + 1)).cons x

/-- Only the marks that a schedule meets decide it. -/
theorem roundRobin_congr {mark mark' : Nat → α → Bool} {t : Nat} {queue : List (List α)}
    (h : ∀ i x, (roundRobin mark t queue)[i]? = some x → mark (t + i) x = mark' (t + i) x) :
    roundRobin mark' t queue = roundRobin mark t queue := by
  induction queue using queue_induction generalizing t with
  | nil => rfl
  | exhausted queue ih => exact ih h
  | step x xs queue hback hfront =>
      have hx : mark t x = mark' t x := h 0 x (by simp [roundRobin_cons])
      have hrest : ∀ i y, (roundRobin mark (t + 1)
          (if mark t x then queue ++ [xs] else xs :: queue))[i]? = some y →
          mark (t + 1 + i) y = mark' (t + 1 + i) y := by
        intro i y hy
        have := h (i + 1) y (by simpa [roundRobin_cons] using hy)
        rwa [show t + (i + 1) = t + 1 + i by omega] at this
      rw [roundRobin_cons, roundRobin_cons, ← hx]
      split
      · rename_i hm
        rw [hback (by simpa [hm] using hrest)]
      · rename_i hm
        rw [hfront (by simpa [hm] using hrest)]

/-! ## Chains that have nothing left -/

/-- An exhausted chain takes no turn, wherever it waits. -/
theorem roundRobin_skip (mark : Nat → α → Bool) (t : Nat) (p q : List (List α)) :
    roundRobin mark t (p ++ [] :: q) = roundRobin mark t (p ++ q) := by
  induction hn : turnsLeft (p ++ q) using Nat.strongRecOn generalizing t p q with
  | _ n ih =>
    subst hn
    match p with
    | [] => rfl
    | [] :: p =>
        simp only [List.cons_append, roundRobin_exhausted]
        exact ih _ (by simp [turnsLeft]) _ _ _ rfl
    | (x :: xs) :: p =>
        simp only [List.cons_append, roundRobin_cons]
        split
        · simp only [List.append_assoc, List.cons_append]
          rw [ih _ (by simp [turnsLeft]; omega) _ p (q ++ [xs]) rfl]
        · rw [← List.cons_append, ih _ (by simp [turnsLeft]) _ (xs :: p) q rfl]
          rfl

theorem roundRobin_append_nil (mark : Nat → α → Bool) (t : Nat) (queue : List (List α)) :
    roundRobin mark t (queue ++ [[]]) = roundRobin mark t queue := by
  simpa using roundRobin_skip mark t queue []

/-- Exhausted chains can be left out from the start. -/
theorem roundRobin_filter_nonempty (mark : Nat → α → Bool) (t : Nat) (p q : List (List α)) :
    roundRobin mark t (p ++ q.filter (! ·.isEmpty)) = roundRobin mark t (p ++ q) := by
  induction q generalizing p with
  | nil => rfl
  | cons chain q ih =>
      cases chain with
      | nil => simpa [roundRobin_skip] using ih p
      | cons x xs => simpa using ih (p ++ [x :: xs])

/-! ## Marks on last steps -/

/-- With marks only on steps that end their chain, the chains run one after the other. -/
theorem roundRobin_sequential {mark : Nat → α → Bool} {last : α → Prop} {t : Nat}
    {queue : List (List α)}
    (hlast : ∀ chain ∈ queue, ∀ x xs, x :: xs <:+ chain → last x → xs = [])
    (hmark : ∀ i x, queue.flatten[i]? = some x → mark (t + i) x = true → last x) :
    roundRobin mark t queue = queue.flatten := by
  -- the induction needs no schedule: the queue only loses its first step
  induction hn : turnsLeft queue using Nat.strongRecOn generalizing t queue with
  | _ n ih =>
    subst hn
    match queue with
    | [] => rfl
    | [] :: queue =>
        rw [roundRobin_exhausted, ih _ (by simp [turnsLeft])
          (fun c hc => hlast c (List.mem_cons_of_mem _ hc)) hmark rfl]
        rfl
    | (x :: xs) :: queue =>
        have hnext : roundRobin mark (t + 1) (xs :: queue) = (xs :: queue).flatten := by
          refine ih _ (by simp [turnsLeft]) (fun c hc y ys hy => ?_) (fun i y hy hm => ?_) rfl
          · rcases List.mem_cons.mp hc with rfl | hc
            · exact hlast _ List.mem_cons_self y ys (hy.trans (List.suffix_cons x c))
            · exact hlast c (List.mem_cons_of_mem _ hc) y ys hy
          · refine hmark (i + 1) y (by simpa using hy) ?_
            rwa [show t + (i + 1) = t + 1 + i by omega]
        rw [roundRobin_cons]
        split
        · rename_i hm
          have hxs : xs = [] :=
            hlast _ List.mem_cons_self x xs List.suffix_rfl (hmark 0 x (by simp) hm)
          subst hxs
          rw [roundRobin_append_nil]
          simpa using hnext
        · rw [hnext]
          rfl

/-! ## The schedule of a class of chains -/

/-- Every chain lies inside `p` or outside it. -/
def Separates (p : α → Bool) (queue : List (List α)) : Prop :=
  ∀ chain ∈ queue, (∀ x ∈ chain, p x = true) ∨ ∀ x ∈ chain, p x = false

/-- Seen through a class of whole chains, the schedule is the schedule of the class: with
marks on steps, the chains outside it only wait and are waited for. -/
theorem filter_roundRobin {p : α → Bool} (mark : α → Bool) (t t' : Nat)
    {queue : List (List α)} (h : Separates p queue) :
    (roundRobin (fun _ => mark) t queue).filter p =
      roundRobin (fun _ => mark) t' (queue.map (·.filter p)) := by
  induction queue using queue_induction generalizing t t' with
  | nil => rfl
  | exhausted queue ih =>
      simpa using ih t t' fun c hc => h c (List.mem_cons_of_mem _ hc)
  | step x xs queue hback hfront =>
      have hxs : (∀ y ∈ xs, p y = true) ∨ ∀ y ∈ xs, p y = false :=
        (h _ List.mem_cons_self).imp (fun h y hy => h y (List.mem_cons_of_mem _ hy))
          fun h y hy => h y (List.mem_cons_of_mem _ hy)
      have hqueue : Separates p queue := fun c hc => h c (List.mem_cons_of_mem _ hc)
      have hb := fun u => hback (t + 1) u (fun c hc => by
        rcases List.mem_append.mp hc with hc | hc
        · exact hqueue c hc
        · obtain rfl := List.mem_singleton.mp hc
          exact hxs)
      have hf := fun u => hfront (t + 1) u (fun c hc => by
        rcases List.mem_cons.mp hc with rfl | hc
        · exact hxs
        · exact hqueue c hc)
      rw [roundRobin_cons, List.map_cons]
      cases hx : p x with
      | true =>
          rw [List.filter_cons_of_pos hx, List.filter_cons_of_pos hx, roundRobin_cons]
          split
          · rw [hb (t' + 1), List.map_append, List.map_singleton]
          · rw [hf (t' + 1), List.map_cons]
      | false =>
          have hnone : xs.filter p = [] := by
            rcases h _ List.mem_cons_self with h | h
            · exact absurd (h x List.mem_cons_self) (by simp [hx])
            · exact List.filter_eq_nil_iff.mpr fun y hy => by simp [h y (List.mem_cons_of_mem _ hy)]
          have hx' : ¬ p x = true := by simp [hx]
          rw [List.filter_cons_of_neg hx', List.filter_cons_of_neg hx', hnone,
            roundRobin_exhausted]
          split
          · rw [hb t', List.map_append, List.map_singleton, hnone, roundRobin_append_nil]
          · rw [hf t', List.map_cons, hnone, roundRobin_exhausted]

end SimLoop.Foundation
