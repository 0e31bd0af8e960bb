/-
  Foundation/Roll.lean --- objects that are registered under an address.

  A roll keeps every object that was ever enrolled, with its address, the epoch it was
  enrolled in and whether it is closed, and a table of the addresses now in use.  An
  object takes its address when it is enrolled and gives it up when it is retired; an
  address may also be taken out of the table by itself.

  The file names nothing of the simulator.
-/
import SimLoop.Foundation.Dict

set_option autoImplicit false

namespace SimLoop.Foundation

universe u

variable {α : Type u}

/-- What a roll knows of an object. -/
structure Entry (α : Type u) where
  addr : α
  born : Nat
  closed : Bool
  deriving DecidableEq

/-- The objects, in the order they were enrolled, and who holds which address. -/
structure Roll (α : Type u) where
  entries : List (Entry α)
  table : Dict α Nat

/-- A change of entries commutes with what is read off every entry. -/
theorem map_modify_of {β γ : Type u} {f : β → γ} {g : β → β} {g' : γ → γ}
    (h : ∀ x, f (g x) = g' (f x)) (l : List β) (i : Nat) :
    (l.modify i g).map f = (l.map f).modify i g' := by
  induction l generalizing i with
  | nil => simp
  | cons x xs ih => cases i <;> simp [h, ih]

/-- A change of one entry that changes nothing that is read off it. -/
theorem map_modify_eq {β γ : Type u} {f : β → γ} {g : β → β} (h : ∀ x, f (g x) = f x)
    (l : List β) (i : Nat) : (l.modify i g).map f = l.map f := by
  induction l generalizing i with
  | nil => simp
  | cons x xs ih => cases i <;> simp [h, ih]

variable [DecidableEq α]

namespace Roll

/-! ## Changes -/

/-- A new object takes its address, whoever had it before. -/
def enroll (r : Roll α) (e : Entry α) : Roll α :=
  ⟨r.entries ++ [e], r.table.insert e.addr r.entries.length⟩

/-- An object is closed and its address is free. -/
def retire (r : Roll α) (i : Nat) : Roll α :=
  match r.entries[i]? with
  | none => r
  | some e => ⟨r.entries.modify i fun e => { e with closed := true }, r.table.erase e.addr⟩

/-- An address is freed; the object that had it stays open. -/
def remove (r : Roll α) (a : α) : Roll α := { r with table := r.table.erase a }

theorem retire_of_get? {r : Roll α} {i : Nat} {e : Entry α} (h : r.entries[i]? = some e) :
    r.retire i =
      ⟨r.entries.modify i fun e => { e with closed := true }, r.table.erase e.addr⟩ := by
  simp only [retire, h]

/-- The changes of a roll while the epoch of every address stays what it is. -/
inductive Move (now : α → Nat) : Roll α → Roll α → Prop
  | enrolled (r : Roll α) {e : Entry α} (hopen : e.closed = false)
      (hborn : e.born = now e.addr) : Move now r (r.enroll e)
  | retired (r : Roll α) (i : Nat) : Move now r (r.retire i)
  | removed (r : Roll α) (a : α) : Move now r (r.remove a)

/-! ## Soundness -/

/-- Whoever is registered under an address is an open object of that address. -/
def Sound (r : Roll α) : Prop :=
  ∀ a i, r.table.get? a = some i → ∃ e, r.entries[i]? = some e ∧ e.addr = a ∧ e.closed = false

theorem Sound.empty {entries : List (Entry α)} : Sound ⟨entries, Dict.empty⟩ := by
  intro a i h
  cases h

theorem Sound.enroll {r : Roll α} (hr : r.Sound) {e : Entry α} (hopen : e.closed = false) :
    (r.enroll e).Sound := by
  intro a i h
  simp only [Roll.enroll, Dict.get?_insert] at h ⊢
  split at h
  · rename_i ha
    obtain rfl := Option.some.inj h
    exact ⟨e, by simp, ha, hopen⟩
  · obtain ⟨e', he', hrest⟩ := hr a i h
    have hi : i < r.entries.length := (List.getElem?_eq_some_iff.mp he').1
    exact ⟨e', by rw [List.getElem?_append_left hi]; exact he', hrest⟩

theorem Sound.retire {r : Roll α} (hr : r.Sound) (i : Nat) : (r.retire i).Sound := by
  cases he : r.entries[i]? with
  | none => simpa only [Roll.retire, he] using hr
  | some e =>
      intro a j h
      rw [retire_of_get? he] at h ⊢
      simp only [Dict.get?_erase] at h ⊢
      split at h
      · cases h
      · rename_i hne
        obtain ⟨e', he', haddr, hopen⟩ := hr a j h
        have hij : i ≠ j := by
          rintro rfl
          rw [he] at he'
          exact hne ((Option.some.inj he') ▸ haddr)
        exact ⟨e', (List.getElem?_modify_ne _ _ hij).trans he', haddr, hopen⟩

theorem Sound.remove {r : Roll α} (hr : r.Sound) (a : α) : (r.remove a).Sound := by
  intro b i h
  simp only [Roll.remove, Dict.get?_erase] at h
  split at h
  · cases h
  · exact hr b i h

theorem Sound.move {now : α → Nat} {r r' : Roll α} (hr : r.Sound) (hmove : Move now r r') :
    r'.Sound := by
  cases hmove with
  | enrolled hopen _ => exact hr.enroll hopen
  | retired i => exact hr.retire i
  | removed a => exact hr.remove a

/-! ## Objects that hold no address -/

/-- These objects are enrolled, and none of them is registered. -/
structure Gone (r : Roll α) (l : List Nat) : Prop where
  absent : ∀ a i, r.table.get? a = some i → i ∉ l
  enrolled : ∀ i ∈ l, i < r.entries.length

/-- Who is gone does not come back. -/
theorem Gone.move {now : α → Nat} {r r' : Roll α} {l : List Nat} (hr : r.Gone l)
    (hmove : Move now r r') : r'.Gone l := by
  cases hmove with
  | @enrolled e _ _ =>
      refine ⟨fun a i hi hmem => ?_, fun i hi => ?_⟩
      · simp only [enroll, Dict.get?_insert] at hi
        split at hi
        · obtain rfl := Option.some.inj hi
          exact Nat.lt_irrefl _ (hr.enrolled _ hmem)
        · exact hr.absent a i hi hmem
      · simp only [enroll, List.length_append]
        exact Nat.lt_add_right _ (hr.enrolled i hi)
  | retired j =>
      cases he : r.entries[j]? with
      | none => simpa only [retire, he] using hr
      | some e =>
          rw [retire_of_get? he]
          refine ⟨fun a i hi => ?_, fun i hi => ?_⟩
          · simp only [Dict.get?_erase] at hi
            split at hi
            · cases hi
            · exact hr.absent a i hi
          · rw [List.length_modify]
            exact hr.enrolled i hi
  | removed b =>
      refine ⟨fun a i hi => ?_, hr.enrolled⟩
      simp only [remove, Dict.get?_erase] at hi
      split at hi
      · cases hi
      · exact hr.absent a i hi

end Roll

end SimLoop.Foundation
