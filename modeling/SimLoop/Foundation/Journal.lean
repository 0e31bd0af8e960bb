/-
  Foundation/Journal.lean --- mappings, ordered writes and their replay.

  A write assigns a value to a key or removes the key; a journal is a list of
  writes, oldest first.  `replay` applies a journal to a mapping, and `lastWrite`
  is what a reader needs of it: the newest write to one key.  A prefix of a
  journal replays to a mapping that existed, namely the one its writer saw after
  that many writes.

  The file names nothing of the simulator.
-/
import Mathlib.Logic.Function.Basic
import Mathlib.Data.List.Induction

set_option autoImplicit false

namespace SimLoop.Foundation

universe u v

variable {κ : Type u} {ν : Type v} [DecidableEq κ]

/-- One write applied to a mapping; `none` removes the key. -/
def assign (m : κ → Option ν) (write : κ × Option ν) : κ → Option ν :=
  Function.update m write.1 write.2

/-- A journal applied to a mapping, oldest write first. -/
def replay (m : κ → Option ν) (journal : List (κ × Option ν)) : κ → Option ν :=
  journal.foldl assign m

/-- The newest write to a key. -/
def lastWrite (journal : List (κ × Option ν)) (key : κ) : Option (Option ν) :=
  (journal.reverse.find? (fun write => write.1 = key)).map Prod.snd

@[simp] theorem replay_nil (m : κ → Option ν) : replay m [] = m := rfl

theorem replay_append (m : κ → Option ν) (left right : List (κ × Option ν)) :
    replay m (left ++ right) = replay (replay m left) right :=
  List.foldl_append

theorem replay_concat (m : κ → Option ν) (journal : List (κ × Option ν))
    (write : κ × Option ν) :
    replay m (journal ++ [write]) = assign (replay m journal) write := by
  rw [replay_append]
  rfl

@[simp] theorem lastWrite_nil (key : κ) : lastWrite ([] : List (κ × Option ν)) key = none :=
  rfl

theorem lastWrite_concat (journal : List (κ × Option ν)) (write : κ × Option ν) (key : κ) :
    lastWrite (journal ++ [write]) key =
      if write.1 = key then some write.2 else lastWrite journal key := by
  unfold lastWrite
  rw [List.reverse_append, List.reverse_singleton, List.singleton_append]
  by_cases h : write.1 = key
  · rw [List.find?_cons_of_pos (by simpa using h), if_pos h]
    rfl
  · rw [List.find?_cons_of_neg (by simpa using h), if_neg h]

theorem mem_of_lastWrite {journal : List (κ × Option ν)} {key : κ} {value : Option ν}
    (h : lastWrite journal key = some value) : (key, value) ∈ journal := by
  unfold lastWrite at h
  obtain ⟨write, hfind, rfl⟩ := Option.map_eq_some_iff.mp h
  have hkey : write.1 = key := by simpa using List.find?_some hfind
  subst hkey
  exact List.mem_reverse.mp (List.mem_of_find?_eq_some hfind)

/-- A replay reads the newest write, and falls back to the mapping below. -/
theorem replay_apply (m : κ → Option ν) (journal : List (κ × Option ν)) (key : κ) :
    replay m journal key = (lastWrite journal key).getD (m key) := by
  induction journal using List.reverseRecOn with
  | nil => rfl
  | append_singleton journal write ih =>
      rw [replay_concat, lastWrite_concat]
      unfold assign
      by_cases h : write.1 = key
      · subst h
        simp
      · rw [Function.update_of_ne (Ne.symm h), ih, if_neg h]

/-- A key no write names keeps its value. -/
theorem replay_of_untouched (m : κ → Option ν) {journal : List (κ × Option ν)} {key : κ}
    (h : key ∉ journal.map Prod.fst) : replay m journal key = m key := by
  induction journal using List.reverseRecOn with
  | nil => rfl
  | append_singleton journal write ih =>
      simp only [List.map_append, List.map_cons, List.map_nil, List.mem_append,
        List.mem_singleton, not_or] at h
      rw [replay_concat]
      unfold assign
      rw [Function.update_of_ne h.2, ih h.1]

end SimLoop.Foundation
