/-
  Disk/Flush.lean --- what a flush does to the order of iteration.

  A flush replays the journal over the durable mapping, and there a key that was
  removed and written again goes last; the merged iteration before the flush
  keeps it at the place it had.  `Remade d x y` is a queue that does this to `x`
  while `y` is on the disk, and `flush_keeps_items_iff` says that such pairs are
  all that a flush ever turns round.
-/
import SimLoop.Disk.CrashConsistency
import SimLoop.Disk.PlainMapping
import SimLoop.Foundation.Precedence

set_option autoImplicit false

namespace SimLoop.Disk

open SimLoop.Foundation

variable {κ ν ρ : Type} [DecidableEq κ]

namespace SimDisk

/-- `list(disk.items())`: iteration, with the lookup of each key it yields. -/
def items (d : SimDisk κ ν) : List (κ × Except (DiskError κ) ν) :=
  d.iter.map (fun key => (key, d.getItem key))

/-- The queued writes make `x` anew while `y` is there: a queued write of `x`
finds `y` on the disk and no `x`, and no later one deletes either. -/
def RemadeIn (data : Dict κ ν) (journal : List (κ × Option ν)) (x y : κ) : Prop :=
  ∃ before after value, journal = before ++ (x, some value) :: after ∧
    replay data.get? before x = none ∧ replay data.get? before y ≠ none ∧
    (x, none) ∉ after ∧ (y, none) ∉ after

/-- The queue of a disk makes `x` anew while `y` is there. -/
def Remade (d : SimDisk κ ν) (x y : κ) : Prop := RemadeIn d.data d.journal x y

/-- The keys in the order in which the disk has met them: the durable ones, then
the queued writes. -/
def met (d : SimDisk κ ν) : List κ := d.data.keys ++ d.journal.map Prod.fst

/-- The disk met `x` before `y`. -/
def MetBefore (d : SimDisk κ ν) (x y : κ) : Prop := d.met.idxOf x < d.met.idxOf y

/-! ## The order a journal leaves -/

theorem mem_keys_applyEntries (data : Dict κ ν) (journal : List (κ × Option ν)) (key : κ) :
    key ∈ (applyEntries data journal).keys ↔ replay data.get? journal key ≠ none := by
  rw [← get?_applyEntries, ne_eq, Dict.get?_eq_none_iff, not_not]

theorem applyEntries_concat (data : Dict κ ν) (journal : List (κ × Option ν))
    (entry : κ × Option ν) :
    applyEntries data (journal ++ [entry]) = applyEntry (applyEntries data journal) entry :=
  List.foldl_concat ..

theorem not_remadeIn_nil (data : Dict κ ν) (x y : κ) : ¬ RemadeIn data [] x y := by
  rintro ⟨before, after, value, h, _⟩
  simp at h

/-- One more deletion: it must spare both keys. -/
theorem remadeIn_delete (data : Dict κ ν) (journal : List (κ × Option ν)) (k x y : κ) :
    RemadeIn data (journal ++ [(k, none)]) x y ↔
      RemadeIn data journal x y ∧ x ≠ k ∧ y ≠ k := by
  constructor
  · rintro ⟨before, after, value, hsplit, hx, hy, hdx, hdy⟩
    rcases List.eq_nil_or_concat after with rfl | ⟨after, last, rfl⟩
    · have hlast := List.append_inj_right' hsplit rfl
      simp at hlast
    · rw [List.concat_eq_append, ← List.cons_append, ← List.append_assoc] at hsplit
      have hjournal := List.append_inj_left' hsplit rfl
      have hlast := List.append_inj_right' hsplit rfl
      obtain rfl : (k, none) = last := by simpa using hlast
      simp only [List.concat_eq_append, List.mem_append, List.mem_singleton, Prod.mk.injEq,
        and_true, not_or] at hdx hdy
      exact ⟨⟨before, after, value, hjournal, hx, hy, hdx.1, hdy.1⟩, hdx.2, hdy.2⟩
  · rintro ⟨⟨before, after, value, rfl, hx, hy, hdx, hdy⟩, hkx, hky⟩
    refine ⟨before, after ++ [(k, none)], value, by simp, hx, hy, ?_, ?_⟩
    · simpa [hkx] using hdx
    · simpa [hky] using hdy

/-- One more assignment: either it is the one that makes `x` anew, or the queue
before it did. -/
theorem remadeIn_assign (data : Dict κ ν) (journal : List (κ × Option ν)) (k : κ) (v : ν)
    (x y : κ) :
    RemadeIn data (journal ++ [(k, some v)]) x y ↔
      RemadeIn data journal x y ∨
        y ∈ (applyEntries data journal).keys ∧ x = k ∧
          x ∉ (applyEntries data journal).keys := by
  rw [mem_keys_applyEntries, mem_keys_applyEntries, not_not]
  constructor
  · rintro ⟨before, after, value, hsplit, hx, hy, hdx, hdy⟩
    rcases List.eq_nil_or_concat after with rfl | ⟨after, last, rfl⟩
    · have hjournal := List.append_inj_left' hsplit rfl
      have hlast := List.append_inj_right' hsplit rfl
      obtain ⟨rfl, _⟩ : k = x ∧ v = value := by simpa using hlast
      subst hjournal
      exact Or.inr ⟨hy, rfl, hx⟩
    · rw [List.concat_eq_append, ← List.cons_append, ← List.append_assoc] at hsplit
      have hjournal := List.append_inj_left' hsplit rfl
      simp only [List.concat_eq_append, List.mem_append, not_or] at hdx hdy
      exact Or.inl ⟨before, after, value, hjournal, hx, hy, hdx.1, hdy.1⟩
  · rintro (⟨before, after, value, rfl, hx, hy, hdx, hdy⟩ | ⟨hy, rfl, hx⟩)
    · refine ⟨before, after ++ [(k, some v)], value, by simp, hx, hy, ?_, ?_⟩
      · simpa using hdx
      · simpa using hdy
    · exact ⟨journal, [], v, rfl, hx, hy, List.not_mem_nil, List.not_mem_nil⟩

/-- After a journal, `y` precedes `x` where `x` was made anew behind it, or where
it did so before and the journal deletes neither. -/
theorem precedes_applyEntries (data : Dict κ ν) (journal : List (κ × Option ν)) (x y : κ) :
    Precedes (applyEntries data journal).keys y x ↔
      RemadeIn data journal x y ∨
        Precedes data.keys y x ∧ (x, none) ∉ journal ∧ (y, none) ∉ journal := by
  -- the newest entry decides: a deletion takes pairs away, an assignment adds one at the end
  induction journal using List.reverseRecOn with
  | nil =>
      have hno := not_remadeIn_nil data x y
      simp [applyEntries, hno]
  | append_singleton journal entry ih =>
      obtain ⟨k, queued⟩ := entry
      rw [applyEntries_concat]
      cases queued with
      | none =>
          show Precedes ((applyEntries data journal).erase k).keys y x ↔ _
          rw [Dict.precedes_erase, ih, remadeIn_delete]
          simp only [List.mem_append, List.mem_singleton, Prod.mk.injEq, and_true, not_or]
          constructor
          · rintro ⟨h | ⟨h, hx, hy⟩, hky, hkx⟩
            · exact Or.inl ⟨h, hkx, hky⟩
            · exact Or.inr ⟨h, ⟨hx, hkx⟩, hy, hky⟩
          · rintro (⟨h, hkx, hky⟩ | ⟨h, ⟨hx, hkx⟩, hy, hky⟩)
            · exact ⟨Or.inl h, hky, hkx⟩
            · exact ⟨Or.inr ⟨h, hx, hy⟩, hky, hkx⟩
      | some v =>
          show Precedes ((applyEntries data journal).insert k v).keys y x ↔ _
          rw [Dict.precedes_insert, ih, remadeIn_assign]
          simp only [List.mem_append, List.mem_singleton, Prod.mk.injEq, reduceCtorEq, and_false,
            or_false]
          constructor
          · rintro ((h | h) | h)
            · exact Or.inl (Or.inl h)
            · exact Or.inr h
            · exact Or.inl (Or.inr h)
          · rintro ((h | h) | h)
            · exact Or.inl (Or.inl h)
            · exact Or.inr h
            · exact Or.inl (Or.inr h)

/-! ## The order of the overlay -/

/-- A journal keyed for reading. -/
def keyed (journal : List (κ × Option ν)) : Dict κ (Option ν) :=
  journal.foldl (fun overlay entry => overlay.insert entry.1 entry.2) .empty

/-- The overlay is the journal, keyed in the order it was written. -/
def Keyed (d : SimDisk κ ν) : Prop := d.overlay = keyed d.journal

theorem keyed_concat (journal : List (κ × Option ν)) (k : κ) (queued : Option ν) :
    keyed (journal ++ [(k, queued)]) = (keyed journal).insert k queued :=
  List.foldl_concat ..

theorem mem_keys_keyed (journal : List (κ × Option ν)) (key : κ) :
    key ∈ (keyed journal).keys ↔ key ∈ journal.map Prod.fst := by
  induction journal using List.reverseRecOn with
  | nil => rfl
  | append_singleton journal entry ih =>
      rw [keyed_concat journal entry.1 entry.2, Dict.keys_insert, List.map_append,
        List.mem_append, ← ih]
      split
      · rename_i hin
        constructor
        · exact Or.inl
        · rintro (h | h)
          · exact h
          · obtain rfl : key = entry.1 := by simpa using h
            exact hin
      · simp

theorem mem_journal_of_overlay {d : SimDisk κ ν} (h : d.Keyed) {key : κ} {queued : Option ν}
    (hkey : d.overlay.get? key = some queued) : key ∈ d.journal.map Prod.fst := by
  apply (mem_keys_keyed d.journal key).mp
  rw [← h]
  exact Dict.mem_keys_iff.mpr ⟨queued, hkey⟩

/-- A keyed journal has its keys in the order of their first entries. -/
theorem precedes_keyed {journal : List (κ × Option ν)} {x y : κ}
    (hy : y ∈ journal.map Prod.fst)
    (h : (journal.map Prod.fst).idxOf x < (journal.map Prod.fst).idxOf y) :
    Precedes (keyed journal).keys x y := by
  induction journal using List.reverseRecOn with
  | nil => cases hy
  | append_singleton journal entry ih =>
      have hxin : x ∈ journal.map Prod.fst := by
        by_contra hxout
        have hlast := List.idxOf_lt_length_of_mem hy
        rw [List.map_append, List.idxOf_append_of_notMem hxout] at h
        simp only [List.map_append, List.length_append, List.map_cons, List.map_nil,
          List.length_singleton] at hlast h
        omega
      rw [List.map_append, List.idxOf_append_of_mem hxin] at h
      rw [keyed_concat journal entry.1 entry.2]
      apply (Dict.precedes_insert _ _ _ _ _).mpr
      by_cases hyin : y ∈ journal.map Prod.fst
      · rw [List.idxOf_append_of_mem hyin] at h
        exact Or.inl (ih hyin h)
      · have hlast : y = entry.1 := by simpa [hyin] using hy
        exact Or.inr ⟨(mem_keys_keyed journal x).mpr hxin, hlast,
          fun hin => hyin ((mem_keys_keyed journal y).mp hin)⟩

theorem setItem_keyed {d : SimDisk κ ν} (h : d.Keyed) (key : κ) (value : ν) :
    (d.setItem key value).Keyed := by
  unfold setItem
  split
  · show d.overlay.insert key (some value) = keyed (d.journal ++ [(key, some value)])
    rw [keyed_concat, h]
  · exact h

theorem delItem_keyed {d d' : SimDisk κ ν} (h : d.Keyed) {key : κ}
    (hok : d.delItem key = .ok d') : d'.Keyed := by
  unfold delItem at hok
  split at hok
  · split at hok
    · cases hok
    · obtain rfl := Except.ok.inj hok
      show d.overlay.insert key none = keyed (d.journal ++ [(key, none)])
      rw [keyed_concat, h]
  · split at hok
    · obtain rfl := Except.ok.inj hok
      exact h
    · cases hok

theorem crash_keyed (rng : RandomSource ρ) (d : SimDisk κ ν) (r : ρ) :
    (d.crash rng r).1.Keyed := by
  obtain ⟨hj, hov⟩ := crash_journal rng d r
  unfold Keyed
  rw [hj, hov]
  rfl

/-! ## Iteration before and after -/

/-- A flush changes neither the keys nor how often each is yielded. -/
theorem iter_sync_perm {d : SimDisk κ ν} (h : d.Coherent) : d.sync.iter.Perm d.iter := by
  apply (List.perm_ext_iff_of_nodup (nodup_iter _) (nodup_iter _)).mpr
  intro key
  rw [mem_iter_iff, mem_iter_iff, sync_view h]

/-- Two durable keys no queued entry deletes are yielded in durable order. -/
theorem precedes_iter {d : SimDisk κ ν} (h : d.Coherent) {x y : κ}
    (hdata : Precedes d.data.keys x y) (hx : (x, none) ∉ d.journal)
    (hy : (y, none) ∉ d.journal) : Precedes d.iter x y := by
  have hkept : ∀ key, (key, none) ∉ d.journal → (!d.pendingDelete key) = true := by
    intro key hkey
    unfold pendingDelete
    rw [h.overlay key]
    cases hw : lastWrite d.journal key with
    | none => rfl
    | some queued =>
        cases queued with
        | some value => rfl
        | none => exact absurd (mem_of_lastWrite hw) hkey
  rw [iter_eq_merged]
  apply Precedes.mono _ (List.sublist_append_left _ _)
  exact Precedes.filter_iff.mpr ⟨hdata, hkept x hx, hkept y hy⟩

theorem mem_met {d : SimDisk κ ν} (h : d.Keyed) {key : κ} (hkey : key ∈ d.iter) :
    key ∈ d.met := by
  rw [iter_eq_merged] at hkey
  apply List.mem_append.mpr
  rcases List.mem_append.mp hkey with hdurable | hinvented
  · exact Or.inl (List.mem_filter.mp hdurable).1
  · obtain ⟨_, value, hvalue⟩ := (mem_invented_iff d key).mp hinvented
    exact Or.inr (mem_journal_of_overlay h hvalue)

/-- Of two keys a reader sees, iteration yields the one first that was met first. -/
theorem precedes_iter_of_met {d : SimDisk κ ν} (h : d.Keyed) {x y : κ} (hx : x ∈ d.iter)
    (hy : y ∈ d.iter) (hmet : d.MetBefore x y) : Precedes d.iter x y := by
  rw [iter_eq_merged] at hx hy ⊢
  unfold MetBefore met at hmet
  unfold merged at hx hy ⊢
  rcases List.mem_append.mp hy with hy | hy
  · -- `y` is durable, so `x` is too
    have hyd := (List.mem_filter.mp hy).1
    rw [List.idxOf_append_of_mem hyd] at hmet
    have hxd : x ∈ d.data.keys := by
      by_contra hxd
      rw [List.idxOf_append_of_notMem hxd] at hmet
      have := List.idxOf_lt_length_of_mem hyd
      omega
    rw [List.idxOf_append_of_mem hxd] at hmet
    have hxf := (List.mem_append.mp hx).resolve_right fun hinv => by
      have habsent := ((mem_invented_iff d x).mp hinv).1
      obtain ⟨value, hvalue⟩ := Dict.mem_keys_iff.mp hxd
      simp [Dict.contains, hvalue] at habsent
    apply Precedes.mono _ (List.sublist_append_left _ _)
    exact Precedes.filter_iff.mpr ⟨Precedes.of_idxOf_lt hyd hmet, (List.mem_filter.mp hxf).2,
      (List.mem_filter.mp hy).2⟩
  · rcases List.mem_append.mp hx with hx | hx
    · exact (List.singleton_sublist.mpr hx).append (List.singleton_sublist.mpr hy)
    · -- neither is durable, and the overlay has them in the order of the journal
      apply Precedes.mono _ (List.sublist_append_right _ _)
      have hout : ∀ {key}, d.data.contains key = false → key ∉ d.data.keys := by
        intro key hkey
        apply Dict.get?_eq_none_iff.mp
        simpa [Dict.contains] using hkey
      obtain ⟨hxd, _⟩ := (mem_invented_iff d x).mp hx
      obtain ⟨hyd, value, hvalue⟩ := (mem_invented_iff d y).mp hy
      rw [List.idxOf_append_of_notMem (hout hxd), List.idxOf_append_of_notMem (hout hyd)] at hmet
      have hyj := mem_journal_of_overlay h hvalue
      have hkeys : Precedes d.overlay.keys x y := by
        rw [h]
        exact precedes_keyed hyj (by omega)
      exact Dict.precedes_select _ _ hkeys hx hy

theorem iter_sync_iff {d : SimDisk κ ν} (h : d.Coherent) (hkeyed : d.Keyed) :
    d.sync.iter = d.iter ↔ ∀ x y, d.MetBefore x y → ¬ d.Remade x y := by
  have hmem : ∀ {key}, key ∈ d.sync.iter → key ∈ d.iter :=
    fun hkey => (iter_sync_perm h).mem_iff.mp hkey
  constructor
  · intro heq x y hmet hremade
    have hyx : Precedes d.sync.iter y x :=
      (precedes_applyEntries d.data d.journal x y).mpr (Or.inl hremade)
    have hxy := precedes_iter_of_met hkeyed (hmem hyx.right) (hmem hyx.left) hmet
    rw [heq] at hyx
    exact hxy.asymm (nodup_iter d) hyx
  · intro hnone
    apply Eq.symm
    apply eq_of_precedes (nodup_iter d) (iter_sync_perm h).symm
    intro x y hxy
    rcases (precedes_applyEntries d.data d.journal y x).mp hxy with hremade | ⟨hdata, hy, hx⟩
    · -- `y` was made anew behind `x`, so it had not been met before it
      have hne : x ≠ y := hxy.ne (nodup_iter d.sync)
      have hx := hmem hxy.left
      have hy := hmem hxy.right
      rcases Nat.lt_trichotomy (d.met.idxOf x) (d.met.idxOf y) with hmet | hmet | hmet
      · exact precedes_iter_of_met hkeyed hx hy hmet
      · exact absurd ((List.idxOf_inj (mem_met hkeyed hx)).mp hmet) hne
      · exact absurd hremade (hnone y x hmet)
    · exact precedes_iter h hdata hx hy

/-- What is looked up is the same before and after a flush. -/
theorem getItem_sync {d : SimDisk κ ν} (h : d.Coherent) (key : κ) :
    d.sync.getItem key = d.getItem key := by
  have hview : d.sync.view key = d.view key := congrFun (sync_view h) key
  cases hd : d.view key with
  | none =>
      rw [getItem_of_view_none d key hd, getItem_of_view_none d.sync key (hview.trans hd)]
  | some value =>
      rw [(view_eq_some_iff d key value).mp hd,
        (view_eq_some_iff d.sync key value).mp (hview.trans hd)]

/-- The items are the same sequence exactly when iteration is. -/
theorem items_sync_iff {d : SimDisk κ ν} (h : d.Coherent) :
    d.sync.items = d.items ↔ d.sync.iter = d.iter := by
  have hitems : d.sync.items = d.sync.iter.map (fun key => (key, d.getItem key)) := by
    unfold items
    simp only [getItem_sync h]
  rw [hitems]
  constructor
  · intro heq
    have hkeys := congrArg (List.map Prod.fst) heq
    unfold items at hkeys
    simpa [List.map_map, Function.comp_def] using hkeys
  · intro heq
    rw [heq]
    rfl

end SimDisk

/-! ## Every sequence of calls -/

/-- The disk of one host after a sequence of calls on a new network. -/
def diskAfter (rng : RandomSource ρ) (r : ρ) (name : HostName) (cs : List (StorageCall κ ν)) :
    SimDisk κ ν :=
  (cs.foldl (Storage.call rng) (.init r)).disk name

theorem keyed_call (rng : RandomSource ρ) {s : Storage κ ν ρ} (name : HostName)
    (h : (s.disk name).Keyed) (c : StorageCall κ ν) : ((s.call rng c).disk name).Keyed := by
  unfold Storage.call
  cases hc : s.exec rng c with
  | error e => exact h
  | ok s' =>
      have hok := Storage.exec_ok hc
      -- a call that stores a disk stores a keyed one; the others store none
      have hstored : ∀ n (d : SimDisk κ ν), (n = name → d.Keyed) →
          ((s.setHostDisk n d).disk name).Keyed := by
        intro n d hd
        rw [Storage.disk_setHostDisk]
        split
        · rename_i hn
          exact hd hn
        · exact h
      cases c with
      | host n =>
          show ((s'.disks.get? name).getD SimDisk.new).Keyed
          rw [hok.1]
          exact h
      | assign n key value =>
          obtain rfl : s' = _ := hok
          exact hstored n _ fun hn => SimDisk.setItem_keyed (hn ▸ h) key value
      | delete n key =>
          obtain ⟨d, hd, rfl⟩ := hok
          exact hstored n d fun hn => SimDisk.delItem_keyed (hn ▸ h) hd
      | sync n =>
          obtain rfl : s' = _ := hok
          exact hstored n _ fun _ => rfl
      | setDisk n buffered torn =>
          obtain ⟨_, rfl⟩ := hok
          exact hstored n _ fun _ => rfl
      | crash n =>
          obtain ⟨_, _, rfl⟩ := hok
          rw [Storage.disk_crashDisk]
          split
          · exact SimDisk.crash_keyed rng _ _
          · exact h
      | restart n =>
          obtain ⟨_, rfl⟩ := hok
          exact h

theorem keyed_after (rng : RandomSource ρ) (r : ρ) (name : HostName)
    (cs : List (StorageCall κ ν)) : (diskAfter rng r name cs).Keyed := by
  unfold diskAfter
  induction cs using List.reverseRecOn with
  | nil => rfl
  | append_singleton cs c ih =>
      rw [List.foldl_concat]
      exact keyed_call rng name ih c

theorem watched_storage (rng : RandomSource ρ) (r : ρ) (name : HostName)
    (cs : List (StorageCall κ ν)) :
    (Watched.after rng r name cs).storage = cs.foldl (Storage.call rng) (.init r) := by
  unfold Watched.after
  induction cs using List.reverseRecOn with
  | nil => rfl
  | append_singleton cs c ih =>
      rw [List.foldl_concat, List.foldl_concat, ← ih]
      unfold Watched.call Storage.call
      split <;> rfl

/-! ## The result -/

/-- A key that is deleted and written again is moved behind the others. -/
theorem not_flush_keeps_items :
    ¬ ∀ (name : HostName) (cs : List (StorageCall String Nat)),
      (diskAfter .least () name cs).sync.items = (diskAfter .least () name cs).items := by
  intro h
  have hbad := h "server" [.host "server", .setDisk "server" true false,
    .assign "server" "a" 1, .assign "server" "b" 2, .sync "server", .delete "server" "a",
    .assign "server" "a" 3]
  have hkeys := congrArg (List.map Prod.fst) hbad
  revert hkeys
  decide

/-- **What a flush keeps.**  On the disk of any host, after any calls and any
draws: a flush leaves the items a reader sees as the same sequence if and only if
the queue makes no key anew while a key met after it is there. -/
theorem flush_keeps_items_iff (rng : RandomSource ρ) (r : ρ) (name : HostName)
    (cs : List (StorageCall κ ν)) :
    let d := diskAfter rng r name cs
    d.sync.items = d.items ↔ ∀ x y, d.MetBefore x y → ¬ d.Remade x y := by
  intro d
  have hcoherent : d.Coherent := by
    have h := (consistent_after rng r name cs).coherent
    rw [watched_storage] at h
    exact h
  rw [SimDisk.items_sync_iff hcoherent]
  exact SimDisk.iter_sync_iff hcoherent (keyed_after rng r name cs)

end SimLoop.Disk
