/-
  Foundation/Dict.lean --- insertion-ordered dictionaries.

  A `Dict` is a finite map together with the order in which its keys were first
  written: assigning to a key that is present keeps its place, assigning to a
  new key puts it last, and a key that is removed and written again goes to the
  end.  That no key occurs twice is a field of the structure, so every `Dict` is
  a map and no lemma below has to assume it.

  The file names nothing of the simulator: it is the dictionary every registry
  and every disk of the later modules is built from.
-/
import Mathlib.Data.List.Nodup
import Mathlib.Data.List.Basic

set_option autoImplicit false

namespace SimLoop.Foundation

universe u v

variable {κ : Type u} {ν : Type v}

/-- An insertion-ordered dictionary: entries in order, no key twice. -/
structure Dict (κ : Type u) (ν : Type v) where
  entries : List (κ × ν)
  nodupKeys : (entries.map Prod.fst).Nodup

namespace Dict

@[ext] theorem ext {d e : Dict κ ν} (h : d.entries = e.entries) : d = e := by
  cases d
  cases e
  cases h
  rfl

/-- The dictionary with no entries. -/
def empty : Dict κ ν := ⟨[], List.nodup_nil⟩

instance : Inhabited (Dict κ ν) := ⟨empty⟩

/-- The keys, in order. -/
def keys (d : Dict κ ν) : List κ := d.entries.map Prod.fst

@[simp] theorem keys_empty : (empty : Dict κ ν).keys = [] := rfl

@[simp] theorem entries_empty : (empty : Dict κ ν).entries = [] := rfl

end Dict

variable [DecidableEq κ]

/-! ## Entry lists -/

/-- Assign in an entry list: in place when the key is present, else at the end. -/
def setEntry (k : κ) (x : ν) : List (κ × ν) → List (κ × ν)
  | [] => [(k, x)]
  | e :: rest => if e.1 = k then (k, x) :: rest else e :: setEntry k x rest

/-- The value of the first entry under a key. -/
def findEntry (k : κ) : List (κ × ν) → Option ν
  | [] => none
  | e :: rest => if e.1 = k then some e.2 else findEntry k rest

theorem findEntry_eq_none_iff {k : κ} {l : List (κ × ν)} :
    findEntry k l = none ↔ k ∉ l.map Prod.fst := by
  induction l with
  | nil => simp [findEntry]
  | cons e rest ih =>
      by_cases he : e.1 = k
      · simp [findEntry, he]
      · simp [findEntry, he, ih, Ne.symm he]

theorem mem_of_findEntry {k : κ} {x : ν} {l : List (κ × ν)}
    (h : findEntry k l = some x) : (k, x) ∈ l := by
  induction l with
  | nil => simp [findEntry] at h
  | cons e rest ih =>
      unfold findEntry at h
      split at h
      · rename_i he
        obtain rfl := Option.some.inj h
        exact List.mem_cons.mpr (Or.inl (Prod.ext he.symm rfl))
      · exact List.mem_cons_of_mem _ (ih h)

theorem findEntry_of_mem {k : κ} {x : ν} {l : List (κ × ν)}
    (hl : (l.map Prod.fst).Nodup) (h : (k, x) ∈ l) : findEntry k l = some x := by
  induction l with
  | nil => simp at h
  | cons e rest ih =>
      simp only [List.map_cons, List.nodup_cons] at hl
      rcases List.mem_cons.mp h with rfl | hmem
      · simp [findEntry]
      · have hne : e.1 ≠ k := by
          rintro rfl
          exact hl.1 (List.mem_map.mpr ⟨_, hmem, rfl⟩)
        simp [findEntry, hne, ih hl.2 hmem]

theorem findEntry_setEntry (k : κ) (x : ν) (l : List (κ × ν)) (q : κ) :
    findEntry q (setEntry k x l) = if k = q then some x else findEntry q l := by
  induction l with
  | nil => simp [setEntry, findEntry]
  | cons e rest ih =>
      unfold setEntry
      split
      · rename_i he
        subst he
        simp only [findEntry]
        split <;> rfl
      · rename_i he
        simp only [findEntry, ih]
        by_cases hk : k = q
        · subst hk
          simp [he]
        · simp [hk]

theorem findEntry_filter (k : κ) (l : List (κ × ν)) (q : κ) :
    findEntry q (l.filter (fun e => e.1 ≠ k)) =
      if k = q then none else findEntry q l := by
  induction l with
  | nil => simp [findEntry]
  | cons e rest ih =>
      by_cases he : e.1 = k
      · rw [List.filter_cons_of_neg (by simp [he]), ih]
        by_cases hk : k = q
        · simp [hk]
        · simp [hk, findEntry, he]
      · rw [List.filter_cons_of_pos (by simp [he])]
        simp only [findEntry, ih]
        by_cases hk : k = q
        · subst hk
          simp [he]
        · simp [hk]

theorem map_fst_setEntry (k : κ) (x : ν) (l : List (κ × ν)) :
    (setEntry k x l).map Prod.fst =
      if k ∈ l.map Prod.fst then l.map Prod.fst else l.map Prod.fst ++ [k] := by
  induction l with
  | nil => simp [setEntry]
  | cons e rest ih =>
      unfold setEntry
      split
      · rename_i he
        simp [he]
      · rename_i he
        rw [List.map_cons, ih]
        by_cases hk : k ∈ rest.map Prod.fst
        · rw [if_pos hk, if_pos (by simp [hk]), List.map_cons]
        · rw [if_neg hk, if_neg (by simp only [List.map_cons, List.mem_cons, not_or]
                                    exact ⟨Ne.symm he, hk⟩)]
          rfl

theorem nodup_map_fst_setEntry (k : κ) (x : ν) {l : List (κ × ν)}
    (h : (l.map Prod.fst).Nodup) : ((setEntry k x l).map Prod.fst).Nodup := by
  rw [map_fst_setEntry]
  split
  · exact h
  · rename_i hk
    rw [← List.concat_eq_append]
    exact List.Nodup.concat hk h

/-! ## Dictionary operations -/

namespace Dict

/-- `d.get(k)`. -/
def get? (d : Dict κ ν) (k : κ) : Option ν := findEntry k d.entries

/-- `k in d`. -/
def contains (d : Dict κ ν) (k : κ) : Bool := (d.get? k).isSome

/-- `d[k] = x`. -/
def insert (d : Dict κ ν) (k : κ) (x : ν) : Dict κ ν :=
  ⟨setEntry k x d.entries, nodup_map_fst_setEntry k x d.nodupKeys⟩

/-- `d.pop(k, None)`, without the popped value. -/
def erase (d : Dict κ ν) (k : κ) : Dict κ ν :=
  ⟨d.entries.filter (fun e => e.1 ≠ k), d.nodupKeys.sublist (List.filter_sublist.map _)⟩

@[simp] theorem get?_empty (k : κ) : (empty : Dict κ ν).get? k = none := rfl

theorem get?_insert (d : Dict κ ν) (k : κ) (x : ν) (q : κ) :
    (d.insert k x).get? q = if k = q then some x else d.get? q :=
  findEntry_setEntry k x d.entries q

@[simp] theorem get?_insert_self (d : Dict κ ν) (k : κ) (x : ν) :
    (d.insert k x).get? k = some x := by
  simp [get?_insert]

theorem get?_insert_of_ne (d : Dict κ ν) {k q : κ} (x : ν) (h : k ≠ q) :
    (d.insert k x).get? q = d.get? q := by
  simp [get?_insert, h]

theorem get?_erase (d : Dict κ ν) (k q : κ) :
    (d.erase k).get? q = if k = q then none else d.get? q :=
  findEntry_filter k d.entries q

@[simp] theorem get?_erase_self (d : Dict κ ν) (k : κ) : (d.erase k).get? k = none := by
  simp [get?_erase]

theorem get?_erase_of_ne (d : Dict κ ν) {k q : κ} (h : k ≠ q) :
    (d.erase k).get? q = d.get? q := by
  simp [get?_erase, h]

theorem get?_eq_none_iff {d : Dict κ ν} {k : κ} : d.get? k = none ↔ k ∉ d.keys :=
  findEntry_eq_none_iff

theorem mem_entries_iff {d : Dict κ ν} {k : κ} {x : ν} :
    (k, x) ∈ d.entries ↔ d.get? k = some x :=
  ⟨findEntry_of_mem d.nodupKeys, mem_of_findEntry⟩

theorem mem_keys_iff {d : Dict κ ν} {k : κ} : k ∈ d.keys ↔ ∃ x, d.get? k = some x := by
  cases h : d.get? k with
  | none => simpa using get?_eq_none_iff.mp h
  | some x =>
      simp only [Option.some.injEq, exists_eq', iff_true]
      exact List.mem_map.mpr ⟨(k, x), mem_of_findEntry h, rfl⟩

end Dict

end SimLoop.Foundation
