/-
  Foundation/Fields.lean --- records of delimited fields, and reading them back.

  A record is a list of fields, each followed by the separator that stands for its
  place.  A field may hold anything but its own separator; in particular the last
  one may hold the separators of the fields before it.  Under that condition
  reading undoes writing, for one record and for any number of them in a row.

  The file names nothing of the simulator.
-/
import Mathlib.Data.List.Forall2

set_option autoImplicit false

namespace SimLoop.Foundation

universe u

variable {α : Type u} [DecidableEq α]

/-! ## One field -/

/-- What comes before the first separator, and what comes after it. -/
def readField (sep : α) : List α → Option (List α × List α)
  | [] => none
  | x :: rest =>
    if x = sep then some ([], rest)
    else (readField sep rest).map fun r => (x :: r.1, r.2)

theorem readField_append {sep : α} {field : List α} (h : sep ∉ field) (rest : List α) :
    readField sep (field ++ sep :: rest) = some (field, rest) := by
  induction field with
  | nil => simp [readField]
  | cons x field ih =>
    obtain ⟨hx, hfield⟩ := List.ne_and_not_mem_of_not_mem_cons h
    simp [readField, hx.symm, ih hfield]

/-! ## One record -/

/-- The fields, each with its separator behind it. -/
def writeRecord : List α → List (List α) → List α
  | sep :: seps, field :: fields => field ++ sep :: writeRecord seps fields
  | _, _ => []

/-- One field for each separator, and what is left. -/
def readRecord : List α → List α → Option (List (List α) × List α)
  | [], input => some ([], input)
  | sep :: seps, input =>
    match readField sep input with
    | none => none
    | some (field, rest) => (readRecord seps rest).map fun r => (field :: r.1, r.2)

/-- Every field avoids its own separator. -/
def Separated (seps : List α) (fields : List (List α)) : Prop :=
  List.Forall₂ (fun sep field => sep ∉ field) seps fields

theorem readRecord_append {seps : List α} {fields : List (List α)} (h : Separated seps fields)
    (rest : List α) : readRecord seps (writeRecord seps fields ++ rest) = some (fields, rest) := by
  induction h with
  | nil => rfl
  | cons hfield _ ih =>
    simp only [writeRecord, readRecord, List.append_assoc, List.cons_append]
    rw [readField_append hfield]
    simp only [ih, Option.map_some]

omit [DecidableEq α] in
theorem writeRecord_ne_nil {sep : α} {seps : List α} {fields : List (List α)}
    (h : Separated (sep :: seps) fields) : writeRecord (sep :: seps) fields ≠ [] := by
  cases h with
  | cons _ _ => simp [writeRecord]

/-! ## Many records -/

/-- The records one after another. -/
def writeRecords (seps : List α) (records : List (List (List α))) : List α :=
  records.flatMap (writeRecord seps)

/-- Records until the input is used up, at most `fuel` of them. -/
def readRecords (seps : List α) : Nat → List α → Option (List (List (List α)))
  | _, [] => some []
  | 0, _ :: _ => none
  | fuel + 1, x :: input =>
    match readRecord seps (x :: input) with
    | none => none
    | some (fields, rest) => (readRecords seps fuel rest).map fun records => fields :: records

/-- All records of an input: a record takes at least one symbol. -/
def decodeRecords (seps : List α) (input : List α) : Option (List (List (List α))) :=
  readRecords seps input.length input

theorem readRecords_write {sep : α} {seps : List α} {records : List (List (List α))}
    (h : ∀ fields ∈ records, Separated (sep :: seps) fields) {fuel : Nat}
    (hfuel : records.length ≤ fuel) :
    readRecords (sep :: seps) fuel (writeRecords (sep :: seps) records) = some records := by
  induction records generalizing fuel with
  | nil => cases fuel <;> rfl
  | cons fields records ih =>
    obtain ⟨fuel, rfl⟩ : ∃ n, fuel = n + 1 :=
      Nat.exists_eq_succ_of_ne_zero (by rw [List.length_cons] at hfuel; omega)
    have hhead : Separated (sep :: seps) fields := h fields List.mem_cons_self
    have htail := @ih (fun r hr => h r (List.mem_cons_of_mem _ hr)) fuel (by simpa using hfuel)
    have hread := readRecord_append hhead (writeRecords (sep :: seps) records)
    unfold writeRecords at hread htail ⊢
    rw [List.flatMap_cons]
    -- The first record is not empty, so the reader does look for one.
    obtain ⟨x, input, hx⟩ := List.exists_cons_of_ne_nil (writeRecord_ne_nil hhead)
    rw [hx, List.cons_append] at hread ⊢
    simp only [readRecords, hread, htail, Option.map_some]

omit [DecidableEq α] in
theorem length_le_length_writeRecords {sep : α} {seps : List α} {records : List (List (List α))}
    (h : ∀ fields ∈ records, Separated (sep :: seps) fields) :
    records.length ≤ (writeRecords (sep :: seps) records).length := by
  induction records with
  | nil => simp
  | cons fields records ih =>
    have htail := ih fun r hr => h r (List.mem_cons_of_mem _ hr)
    have hhead := List.length_pos_iff.mpr (writeRecord_ne_nil (h fields List.mem_cons_self))
    unfold writeRecords at htail ⊢
    rw [List.flatMap_cons, List.length_append, List.length_cons]
    omega

/-- Reading undoes writing. -/
theorem decodeRecords_write {sep : α} {seps : List α} {records : List (List (List α))}
    (h : ∀ fields ∈ records, Separated (sep :: seps) fields) :
    decodeRecords (sep :: seps) (writeRecords (sep :: seps) records) = some records :=
  readRecords_write h (length_le_length_writeRecords h)

end SimLoop.Foundation
