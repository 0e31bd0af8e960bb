/-
  Foundation/Pairing.lean --- requests that wait in line for their answers.

  Beats come one after the other: a request joins the line, an answer takes the oldest
  one out of it, and so does whatever forgoes an answer, if anyone is waiting.  An answer
  that comes when nobody waits is unasked for.

  The file names nothing of the simulator.
-/
import SimLoop.Foundation.Dict
import Mathlib.Data.List.Perm.Basic

set_option autoImplicit false

namespace SimLoop.Foundation

universe u v w

/-! ## Beats -/

inductive Beat where
  | ask
  | answer
  | forgo
  | rest
  deriving DecidableEq, Repr

/-- How many wait after one more beat. -/
def Beat.after (n : Nat) : Beat → Nat
  | .ask => n + 1
  | .answer => n - 1
  | .forgo => n - 1
  | .rest => n

/-- How many wait in the end. -/
def waiting (bs : List Beat) : Nat := bs.foldl Beat.after 0

/-- An answer came when nobody was waiting. -/
def Unasked (bs : List Beat) : Prop := ∃ pre post, bs = pre ++ .answer :: post ∧ waiting pre = 0

@[simp] theorem waiting_nil : waiting [] = 0 := rfl

theorem waiting_concat (bs : List Beat) (b : Beat) :
    waiting (bs ++ [b]) = b.after (waiting bs) := by
  simp only [waiting, List.foldl_append, List.foldl_cons, List.foldl_nil]

theorem not_unasked_nil : ¬ Unasked [] := by
  rintro ⟨pre, post, h, -⟩
  cases pre <;> cases h

theorem unasked_concat (bs : List Beat) (b : Beat) :
    Unasked (bs ++ [b]) ↔ Unasked bs ∨ b = .answer ∧ waiting bs = 0 := by
  constructor
  · rintro ⟨pre, post, h, hnone⟩
    rcases List.eq_nil_or_concat post with rfl | ⟨post, x, rfl⟩
    · obtain ⟨rfl, hb⟩ := List.append_inj' h rfl
      exact .inr ⟨(List.cons.inj hb).1, hnone⟩
    · rw [List.concat_eq_append, ← List.cons_append, ← List.append_assoc] at h
      obtain ⟨rfl, -⟩ := List.append_inj' h rfl
      exact .inl ⟨pre, post, rfl, hnone⟩
  · rintro (⟨pre, post, rfl, hnone⟩ | ⟨rfl, hnone⟩)
    · exact ⟨pre, post ++ [b], by rw [List.append_assoc, List.cons_append], hnone⟩
    · exact ⟨bs, [], rfl, hnone⟩

/-! ## The last element of a sublist -/

variable {α : Type u}

theorem concat_sublist_concat {l m : List α} {x y : α} :
    (l ++ [x]).Sublist (m ++ [y]) ↔ (l ++ [x]).Sublist m ∨ x = y ∧ l.Sublist m := by
  constructor
  · intro h
    have hreverse := h.reverse
    simp only [List.reverse_append, List.reverse_cons, List.reverse_nil, List.nil_append,
      List.singleton_append] at hreverse
    cases hreverse with
    | cons _ h => exact .inl (List.reverse_sublist.mp (by simpa using h))
    | cons_cons _ h => exact .inr ⟨rfl, List.reverse_sublist.mp h⟩
  · rintro (h | ⟨rfl, h⟩)
    · exact h.trans (List.sublist_append_left m [y])
    · exact h.append (List.Sublist.refl [x])

/-! ## Lines by name -/

variable {κ : Type u} {ν : Type v} {γ : Type w} [DecidableEq κ]

/-- Replacing what is under one key replaces what is read off it. -/
theorem flatMap_insert_perm (d : Dict κ ν) (k : κ) (x : ν) (f : κ → ν → List γ) :
    ((d.insert k x).entries.flatMap (fun e => f e.1 e.2) ++ ((d.get? k).map (f k)).getD []).Perm
      (d.entries.flatMap (fun e => f e.1 e.2) ++ f k x) := by
  show ((setEntry k x d.entries).flatMap (fun e => f e.1 e.2) ++
    ((findEntry k d.entries).map (f k)).getD []).Perm _
  induction d.entries with
  | nil =>
      simp only [setEntry, findEntry, List.flatMap_cons, List.flatMap_nil, Option.map_none,
        Option.getD_none, List.append_nil, List.nil_append]
      exact .refl _
  | cons e l ih =>
      by_cases h : e.1 = k
      · subst h
        simp only [setEntry, findEntry, if_true, List.flatMap_cons, Option.map_some,
          Option.getD_some, List.append_assoc]
        refine List.perm_append_comm.trans ?_
        rw [List.append_assoc]
        exact List.perm_append_comm_assoc _ _ _
      · simp only [setEntry, findEntry, if_neg h, List.flatMap_cons, List.append_assoc]
        exact ih.append_left _

end SimLoop.Foundation
