/-
  Disk/PlainMapping.lean --- a disk reads like the mapping it stands for.

  The same sequence of calls is made on a disk and on a plain dictionary.  The
  dictionary has no `sync` and no mode, so those two calls are made on the disk
  alone.  `Twin` ties the two together after any sequence: the disk is coherent
  and its reader sees the dictionary.
-/
import SimLoop.Disk.Coherence
import Mathlib.Data.List.Perm.Basic

set_option autoImplicit false

namespace SimLoop.Disk

open SimLoop.Foundation

variable {κ ν : Type} [DecidableEq κ]

/-! ## Calls -/

/-- What a program can ask of a mapping. -/
inductive MappingCall (κ ν : Type) where
  | assign (key : κ) (value : ν)
  | delete (key : κ)
  | lookup (key : κ)
  | member (key : κ)
  | length
  | keys

/-- A call on a disk: one on the mapping, a flush or a reconfiguration. -/
inductive DiskCall (κ ν : Type) where
  | mapping (call : MappingCall κ ν)
  | sync
  | setDisk (buffered torn : Bool)

/-- What comes back. -/
inductive Answer (κ ν : Type) where
  | done
  | raised (e : DiskError κ)
  | value (x : ν)
  | truth (b : Bool)
  | count (n : Nat)
  | listing (l : List κ)

namespace SimDisk

/-- `Mapping.__contains__`: a lookup whose `KeyError` is caught. -/
def contains (d : SimDisk κ ν) (key : κ) : Bool :=
  match d.getItem key with
  | .ok _ => true
  | .error _ => false

/-- A call on the mapping of a disk; one that raises leaves the disk as it was. -/
def ask (d : SimDisk κ ν) : MappingCall κ ν → Answer κ ν × SimDisk κ ν
  | .assign key value => (.done, d.setItem key value)
  | .delete key =>
    match d.delItem key with
    | .ok d' => (.done, d')
    | .error e => (.raised e, d)
  | .lookup key =>
    match d.getItem key with
    | .ok x => (.value x, d)
    | .error e => (.raised e, d)
  | .member key => (.truth (d.contains key), d)
  | .length => (.count d.len, d)
  | .keys => (.listing d.iter, d)

/-- `set_disk`, on one disk. -/
def setDisk (d : SimDisk κ ν) (buffered torn : Bool) : Answer κ ν × SimDisk κ ν :=
  if torn && !buffered then
    (.raised (.valueError
      "torn=True needs buffered=True: an unbuffered write is already durable"), d)
  else (.done, d.configure buffered torn)

/-- Any call on a disk. -/
def exec (d : SimDisk κ ν) : DiskCall κ ν → Answer κ ν × SimDisk κ ν
  | .mapping call => d.ask call
  | .sync => (.done, d.sync)
  | .setDisk buffered torn => d.setDisk buffered torn

/-- The disk after a sequence of calls. -/
def after (d : SimDisk κ ν) (calls : List (DiskCall κ ν)) : SimDisk κ ν :=
  calls.foldl (fun d call => (d.exec call).2) d

end SimDisk

/-! ## The plain mapping -/

namespace Plain

/-- A call on a plain dictionary. -/
def ask (m : Dict κ ν) : MappingCall κ ν → Answer κ ν × Dict κ ν
  | .assign key value => (.done, m.insert key value)
  | .delete key =>
    if m.contains key then (.done, m.erase key) else (.raised (.keyError key), m)
  | .lookup key =>
    match m.get? key with
    | some x => (.value x, m)
    | none => (.raised (.keyError key), m)
  | .member key => (.truth (m.contains key), m)
  | .length => (.count m.entries.length, m)
  | .keys => (.listing m.keys, m)

/-- The calls of a sequence that concern a plain dictionary. -/
def exec (m : Dict κ ν) : DiskCall κ ν → Dict κ ν
  | .mapping call => (ask m call).2
  | .sync => m
  | .setDisk _ _ => m

/-- The dictionary after a sequence of calls. -/
def after (m : Dict κ ν) (calls : List (DiskCall κ ν)) : Dict κ ν := calls.foldl exec m

end Plain

/-- The two answers say the same: equal, and for two listings, the same keys with none
twice. -/
def Answer.Agree : Answer κ ν → Answer κ ν → Prop
  | .listing l, .listing l' => l.Nodup ∧ l'.Nodup ∧ ∀ key, key ∈ l ↔ key ∈ l'
  | a, b => a = b

/-! ## Keys of a disk -/

namespace SimDisk

theorem view_eq_some_iff (d : SimDisk κ ν) (key : κ) (x : ν) :
    d.view key = some x ↔ d.getItem key = .ok x := by
  unfold view
  cases d.getItem key <;> simp [Except.toOption]

/-- The value a key has, by where it is kept. -/
theorem view_cases (d : SimDisk κ ν) (key : κ) :
    d.view key = match d.overlay.get? key with
      | some queued => queued
      | none => d.data.get? key := by
  unfold view getItem
  cases d.overlay.get? key with
  | none => cases d.data.get? key <;> rfl
  | some queued => cases queued <;> rfl

theorem getItem_of_view_none (d : SimDisk κ ν) (key : κ) (h : d.view key = none) :
    d.getItem key = .error (.keyError key) := by
  rw [view_cases] at h
  unfold getItem
  cases hov : d.overlay.get? key with
  | none =>
    rw [hov] at h
    simp only at h
    simp [h]
  | some queued =>
    rw [hov] at h
    simp only at h
    subst h
    rfl

theorem contains_eq_isSome (d : SimDisk κ ν) (key : κ) :
    d.contains key = (d.view key).isSome := by
  unfold contains view
  cases d.getItem key <;> rfl

/-- A key is among the durable ones that are not pending deletion. -/
theorem mem_durable_iff (d : SimDisk κ ν) (key : κ) :
    key ∈ d.data.keys.filter (fun key => !d.pendingDelete key) ↔
      d.data.contains key = true ∧ d.pendingDelete key = false := by
  rw [List.mem_filter, Dict.mem_keys_iff, Dict.contains, Option.isSome_iff_exists]
  simp

/-- A key is among those the queue invented. -/
theorem mem_invented_iff (d : SimDisk κ ν) (key : κ) :
    key ∈ (d.overlay.entries.filter
        (fun e => !d.data.contains e.1 && e.2.isSome)).map Prod.fst ↔
      d.data.contains key = false ∧ ∃ x, d.overlay.get? key = some (some x) := by
  constructor
  · intro h
    obtain ⟨⟨k, queued⟩, he, rfl⟩ := List.mem_map.mp h
    obtain ⟨hmem, hcond⟩ := List.mem_filter.mp he
    simp only [Bool.and_eq_true, Bool.not_eq_true'] at hcond
    obtain ⟨x, rfl⟩ := Option.isSome_iff_exists.mp hcond.2
    exact ⟨hcond.1, x, Dict.mem_entries_iff.mp hmem⟩
  · rintro ⟨habsent, x, hx⟩
    refine List.mem_map.mpr ⟨(key, some x), List.mem_filter.mpr ⟨?_, ?_⟩, rfl⟩
    · exact Dict.mem_entries_iff.mpr hx
    · simp [habsent]

/-- The merged iteration yields the keys a reader can look up. -/
theorem mem_merged_iff (d : SimDisk κ ν) (key : κ) :
    key ∈ d.merged ↔ (d.view key).isSome = true := by
  unfold merged
  rw [List.mem_append, mem_durable_iff, mem_invented_iff, view_cases]
  unfold pendingDelete Dict.contains
  cases d.overlay.get? key with
  | none => simp
  | some queued =>
    cases queued with
    | none => simp
    | some x => cases d.data.get? key <;> simp

/-- No key comes twice: the two halves are free of repetitions and disjoint. -/
theorem nodup_merged (d : SimDisk κ ν) : d.merged.Nodup := by
  unfold merged
  refine List.nodup_append'.mpr ⟨d.data.nodupKeys.filter _, ?_, ?_⟩
  · exact d.overlay.nodupKeys.sublist (List.filter_sublist.map _)
  · intro key hdurable hinvented
    have hpresent := ((mem_durable_iff d key).mp hdurable).1
    have habsent := ((mem_invented_iff d key).mp hinvented).1
    rw [hpresent] at habsent
    cases habsent

/-- With an empty overlay the durable keys are all there is. -/
theorem merged_of_overlay_empty {d : SimDisk κ ν} (h : d.overlay.entries = []) :
    d.merged = d.data.keys := by
  have hget : ∀ key, d.overlay.get? key = none := fun key => by
    unfold Dict.get?
    rw [h]
    rfl
  unfold merged pendingDelete
  simp [h, hget]

theorem iter_eq_merged (d : SimDisk κ ν) : d.iter = d.merged := by
  unfold iter
  split
  · rename_i h
    exact (merged_of_overlay_empty (List.isEmpty_iff.mp h)).symm
  · rfl

theorem len_eq (d : SimDisk κ ν) : d.len = d.iter.length := by
  unfold len iter
  split
  · simp [Dict.keys]
  · rfl

theorem nodup_iter (d : SimDisk κ ν) : d.iter.Nodup := by
  rw [iter_eq_merged]
  exact nodup_merged d

theorem mem_iter_iff (d : SimDisk κ ν) (key : κ) : key ∈ d.iter ↔ (d.view key).isSome = true := by
  rw [iter_eq_merged]
  exact mem_merged_iff d key

end SimDisk

/-! ## The two side by side -/

/-- A disk whose reader sees the dictionary. -/
structure Twin (d : SimDisk κ ν) (m : Dict κ ν) : Prop where
  coherent : d.Coherent
  view : d.view = m.get?

namespace Twin

open SimDisk

variable {d : SimDisk κ ν} {m : Dict κ ν}

theorem new : Twin (SimDisk.new : SimDisk κ ν) Dict.empty where
  coherent := new_coherent
  view := view_eq_data new_coherent rfl

theorem configure (h : Twin d m) (buffered torn : Bool) : Twin (d.configure buffered torn) m where
  coherent := configure_coherent d buffered torn
  view := (configure_view h.coherent buffered torn).trans h.view

theorem setItem (h : Twin d m) (key : κ) (x : ν) : Twin (d.setItem key x) (m.insert key x) where
  coherent := setItem_coherent h.coherent key x
  view := by
    rw [setItem_view h.coherent, h.view]
    exact (get?_applyEntry m (key, some x)).symm

theorem delItem (h : Twin d m) {key : κ} {d' : SimDisk κ ν} (hok : d.delItem key = .ok d') :
    Twin d' (m.erase key) where
  coherent := delItem_coherent h.coherent hok
  view := by
    rw [delItem_view h.coherent hok, h.view]
    exact (get?_applyEntry m (key, none)).symm

/-- An unbuffered disk has its mapping in durable state. -/
theorem data (h : Twin d m) (hb : d.buffered = false) : d.data.get? = m.get? :=
  (view_eq_data h.coherent (h.coherent.unbuffered hb)).symm.trans h.view

/-- A deletion succeeds exactly where the dictionary has the key. -/
theorem delItem_ok (h : Twin d m) {key : κ} (hin : m.contains key = true) :
    ∃ d', d.delItem key = .ok d' := by
  obtain ⟨x, hx⟩ := Option.isSome_iff_exists.mp hin
  unfold SimDisk.delItem
  split
  · have hread : d.getItem key = .ok x := (view_eq_some_iff d key x).mp (by rw [h.view, hx])
    rw [hread]
    exact ⟨_, rfl⟩
  · rename_i hb
    have hdata : d.data.contains key = true := by
      unfold Dict.contains
      rw [h.data (by simpa using hb), hx]
      rfl
    rw [if_pos hdata]
    exact ⟨_, rfl⟩

theorem delItem_raises (h : Twin d m) {key : κ} (hout : m.contains key = false) :
    d.delItem key = .error (.keyError key) := by
  have hnone : m.get? key = none := by simpa [Dict.contains] using hout
  unfold SimDisk.delItem
  split
  · have hview : d.view key = none := by rw [h.view, hnone]
    rw [getItem_of_view_none d key hview]
  · rename_i hb
    have hdata : ¬ d.data.contains key = true := by
      unfold Dict.contains
      rw [h.data (by simpa using hb), hnone]
      simp
    rw [if_neg hdata]

/-- The keys of both, counted. -/
theorem length_iter (h : Twin d m) : d.iter.length = m.keys.length := by
  have hsame : ∀ key, key ∈ d.iter ↔ key ∈ m.keys := fun key => by
    rw [mem_iter_iff, h.view, Dict.mem_keys_iff, Option.isSome_iff_exists]
  apply List.Perm.length_eq
  exact (List.perm_ext_iff_of_nodup (nodup_iter d) m.nodupKeys).mpr hsame

/-- One call on the mapping: the answers agree and the two stay together. -/
theorem ask (h : Twin d m) (call : MappingCall κ ν) :
    (d.ask call).1.Agree (Plain.ask m call).1 ∧ Twin (d.ask call).2 (Plain.ask m call).2 := by
  cases call with
  | assign key x => exact ⟨rfl, h.setItem key x⟩
  | delete key =>
    unfold SimDisk.ask Plain.ask
    by_cases hin : m.contains key = true
    · obtain ⟨d', hok⟩ := h.delItem_ok hin
      simp only [hok, hin, if_true]
      exact ⟨rfl, h.delItem hok⟩
    · rw [Bool.not_eq_true] at hin
      simp only [h.delItem_raises hin, hin]
      exact ⟨rfl, h⟩
  | lookup key =>
    unfold SimDisk.ask Plain.ask
    cases hm : m.get? key with
    | none =>
      have hraise := getItem_of_view_none d key (by rw [h.view, hm])
      simp only [hraise, hm]
      exact ⟨rfl, h⟩
    | some x =>
      have hread := (view_eq_some_iff d key x).mp (by rw [h.view, hm])
      simp only [hread, hm]
      exact ⟨rfl, h⟩
  | member key =>
    refine ⟨?_, h⟩
    show Answer.truth _ = Answer.truth _
    rw [contains_eq_isSome, h.view]
    rfl
  | length =>
    refine ⟨?_, h⟩
    show Answer.count _ = Answer.count _
    rw [len_eq, h.length_iter]
    simp [Dict.keys]
  | keys =>
    refine ⟨⟨nodup_iter d, m.nodupKeys, fun key => ?_⟩, h⟩
    rw [mem_iter_iff, h.view, Option.isSome_iff_exists]
    exact Dict.mem_keys_iff.symm

theorem exec (h : Twin d m) (call : DiskCall κ ν) : Twin (d.exec call).2 (Plain.exec m call) := by
  cases call with
  | mapping call => exact (h.ask call).2
  | sync => exact ⟨sync_coherent d, (sync_view h.coherent).trans h.view⟩
  | setDisk buffered torn =>
    show Twin (d.setDisk buffered torn).2 m
    unfold SimDisk.setDisk
    split
    · exact h
    · exact h.configure buffered torn

/-- After any sequence of calls the two are still together. -/
theorem after (h : Twin d m) (calls : List (DiskCall κ ν)) :
    Twin (d.after calls) (Plain.after m calls) := by
  induction calls generalizing d m with
  | nil => exact h
  | cons call rest ih => exact ih (h.exec call)

end Twin

/-! ## The result -/

/-- On an absent key a call raises `KeyError` and changes nothing. -/
def RaisesOnAbsent (key : κ) (call : MappingCall κ ν) (d : SimDisk κ ν) (m : Dict κ ν) : Prop :=
  m.get? key = none →
    d.ask call = (.raised (.keyError key), d) ∧ Plain.ask m call = (.raised (.keyError key), m)

/-- Whatever was called before, on a disk of any configuration and on a plain mapping: the
next call is answered alike by both, and a lookup or a deletion of an absent key raises in
both and changes neither. -/
theorem reads_like_a_mapping (buffered torn : Bool) (calls : List (DiskCall κ ν)) :
    let d := ((SimDisk.new : SimDisk κ ν).configure buffered torn).after calls
    let m := Plain.after (Dict.empty : Dict κ ν) calls
    (∀ call, (d.ask call).1.Agree (Plain.ask m call).1) ∧
      ∀ key, RaisesOnAbsent key (.lookup key) d m ∧ RaisesOnAbsent key (.delete key) d m := by
  intro d m
  have h : Twin d m := (Twin.new.configure buffered torn).after calls
  refine ⟨fun call => (h.ask call).1, fun key => ⟨fun habsent => ?_, fun habsent => ?_⟩⟩
  · have hread := SimDisk.getItem_of_view_none d key (by rw [h.view, habsent])
    exact ⟨by simp only [SimDisk.ask, hread], by simp only [Plain.ask, habsent]⟩
  · have hout : m.contains key = false := by simp [Dict.contains, habsent]
    exact ⟨by simp only [SimDisk.ask, h.delItem_raises hout],
      by simp [Plain.ask, hout]⟩

example : (((SimDisk.new : SimDisk String Nat).configure true false).after
    [.mapping (.assign "a" 1), .sync, .mapping (.delete "a"), .mapping (.assign "b" 2),
      .mapping (.assign "a" 3)]).iter = ["a", "b"] := by
  decide

end SimLoop.Disk
