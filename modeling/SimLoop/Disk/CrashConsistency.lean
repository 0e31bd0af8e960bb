/-
  Disk/CrashConsistency.lean --- what a reboot finds on a disk.

  `Consistent` ties a disk to the notes of its reader: replaying the first `k`
  journal entries gives the mapping noted after the first `k` queued writes, the
  durable mapping of a buffered disk that is never torn is the mapping noted at
  the last flush, and keys nobody touched since that flush still hold its values.
  Every call keeps it (`consistent_call`), so it holds after every sequence of
  calls (`consistent_after`), and `crash_finds` reads it off at a crash.

  Nothing keeps a disk from being written to while its host is down: a task that is
  being cancelled can do it.  Such a write is queued behind the crash, or durable, and
  the restart finds it.  Without one the disk rests until the restart (`rests_call`).
-/
import SimLoop.Disk.Storage

set_option autoImplicit false

namespace SimLoop.Disk

open SimLoop.Foundation

variable {κ ν ρ : Type} [DecidableEq κ]

/-! ## The invariant -/

/-- A disk agrees with its reader's notes. -/
structure Consistent (d : SimDisk κ ν) (w : Watch κ ν) : Prop where
  coherent : d.Coherent
  /-- every queued write wrote down a moment -/
  room : d.journal.length + 1 ≤ w.seen.length
  moments : ∀ k ≤ d.journal.length,
    w.afterQueued d.journal.length k = some (replay d.data.get? (d.journal.take k))
  whole : d.buffered = true → d.torn = false → d.data.get? = w.atFlush
  untouched : ∀ key ∉ w.touched, d.data.get? key = w.atFlush key
  queued : ∀ key ∈ d.journal.map Prod.fst, key ∈ w.touched

theorem consistent_init : Consistent (SimDisk.new : SimDisk κ ν) .init where
  coherent := SimDisk.new_coherent
  room := by simp [SimDisk.new, Watch.init]
  moments := by
    intro k hk
    obtain rfl : k = 0 := Nat.le_zero.mp hk
    rfl
  whole := by intro hb; cases hb
  untouched := fun _ _ => rfl
  queued := by simp [SimDisk.new]

/-- A flush starts the notes over, with nothing queued. -/
theorem consistent_flush {d : SimDisk κ ν} (hj : d.journal = []) (hov : d.overlay = .empty) :
    Consistent d (.flush d.view) := by
  have hc := SimDisk.coherent_of_clear d hj hov
  have hview := SimDisk.view_eq_data hc hj
  refine ⟨hc, by simp [hj, Watch.flush], ?_, fun _ _ => hview.symm, fun _ _ => ?_, by simp [hj]⟩
  · intro k hk
    rw [hj] at hk ⊢
    obtain rfl : k = 0 := Nat.le_zero.mp hk
    simp [Watch.afterQueued, Watch.flush, hview]
  · rw [hview]
    rfl

/-- A queued write: the journal grows by the write the reader noted. -/
theorem consistent_queue {d : SimDisk κ ν} {w : Watch κ ν} (h : Consistent d w)
    (hb : d.buffered = true) (key : κ) (value : Option ν) (d' : SimDisk κ ν)
    (hd : d' = { d with journal := d.journal ++ [(key, value)]
                        overlay := d.overlay.insert key value }) :
    Consistent d' (w.moment d'.view (some key)) := by
  subst hd
  have hc := SimDisk.queue_coherent h.coherent hb key value
  refine ⟨hc, ?_, ?_, h.whole, ?_, ?_⟩
  · have := h.room
    simp only [Watch.moment, List.length_append, List.length_singleton]
    omega
  · intro k hk
    simp only [List.length_append, List.length_singleton] at hk ⊢
    rcases Nat.lt_or_ge d.journal.length k with hlast | hold
    · obtain rfl : k = d.journal.length + 1 := by omega
      rw [Watch.afterQueued_moment_last _ _ h.room, SimDisk.view_eq_replay hc,
        List.take_of_length_le (by simp)]
    · rw [Watch.afterQueued_moment_of_le _ _ h.room hold, h.moments k hold,
        List.take_append_of_le_length hold]
  · intro q hq
    simp only [Watch.moment, List.mem_append, not_or] at hq
    exact h.untouched q hq.1
  · intro q hq
    simp only [List.map_append, List.map_cons, List.map_nil, List.mem_append,
      List.mem_singleton] at hq
    simp only [Watch.moment, List.mem_append, Option.toList_some, List.mem_singleton]
    exact hq.imp (h.queued q) id

/-- A write an unbuffered disk makes durable at once. -/
theorem consistent_durable {d : SimDisk κ ν} {w : Watch κ ν} (h : Consistent d w)
    (hb : d.buffered = false) (key : κ) (data : Dict κ ν)
    (hother : ∀ q, q ≠ key → data.get? q = d.data.get? q) :
    Consistent { d with data := data }
      (w.moment ({ d with data := data } : SimDisk κ ν).view (some key)) := by
  have hj := h.coherent.unbuffered hb
  have hc := SimDisk.durable_coherent h.coherent data
  refine ⟨hc, ?_, ?_, ?_, ?_, ?_⟩
  · simp [hj, Watch.moment]
  · intro k hk
    have hview := SimDisk.view_eq_data hc hj
    rw [hj] at hk hview ⊢
    obtain rfl : k = 0 := Nat.le_zero.mp hk
    rw [List.take_nil, replay_nil, hview]
    exact Watch.afterQueued_moment_zero _ _ _
  · intro hb'
    exact absurd (hb.symm.trans hb') (by decide)
  · intro q hq
    simp only [Watch.moment, List.mem_append, Option.toList_some, List.mem_singleton,
      not_or] at hq
    exact (hother q hq.2).trans (h.untouched q hq.1)
  · simp [hj]

/-! ## A crash -/

/-- A crash leaves the replay of a prefix of the journal. -/
theorem crash_data (rng : RandomSource ρ) (d : SimDisk κ ν) (r : ρ) :
    ∃ k ≤ d.journal.length,
      (d.crash rng r).1.data.get? = replay d.data.get? (d.journal.take k) ∧
      (d.torn = false → k = 0) := by
  unfold SimDisk.crash
  split
  · exact ⟨0, Nat.zero_le _, rfl, fun _ => rfl⟩
  · refine ⟨(d.kept rng r).1, ?_, SimDisk.get?_applyEntries _ _, ?_⟩
    · unfold SimDisk.kept
      split
      · exact (rng.randint_mem r 0 d.journal.length (Nat.zero_le _)).2
      · exact Nat.zero_le _
    · intro ht
      simp [SimDisk.kept, ht]

theorem crash_view (rng : RandomSource ρ) (d : SimDisk κ ν) (r : ρ) :
    (d.crash rng r).1.view = (d.crash rng r).1.data.get? :=
  SimDisk.view_eq_data (SimDisk.crash_coherent rng d r) (SimDisk.crash_journal rng d r).1

theorem crash_mode (rng : RandomSource ρ) (d : SimDisk κ ν) (r : ρ) :
    (d.crash rng r).1.buffered = d.buffered ∧ (d.crash rng r).1.torn = d.torn := by
  unfold SimDisk.crash
  split <;> exact ⟨rfl, rfl⟩

theorem consistent_crash {d : SimDisk κ ν} {w : Watch κ ν} (h : Consistent d w)
    (rng : RandomSource ρ) (r : ρ) :
    Consistent (d.crash rng r).1 (w.moment (d.crash rng r).1.view none) := by
  obtain ⟨k, hk, hdata, hwhole⟩ := crash_data rng d r
  obtain ⟨hj, _⟩ := SimDisk.crash_journal rng d r
  refine ⟨SimDisk.crash_coherent rng d r, ?_, ?_, ?_, ?_, ?_⟩
  · simp [hj, Watch.moment]
  · intro q hq
    rw [hj] at hq ⊢
    obtain rfl : q = 0 := Nat.le_zero.mp hq
    rw [List.take_nil, replay_nil, crash_view]
    exact Watch.afterQueued_moment_zero _ _ _
  · intro hb ht
    rw [(crash_mode rng d r).1] at hb
    rw [(crash_mode rng d r).2] at ht
    rw [hdata, hwhole ht, List.take_zero, replay_nil]
    exact h.whole hb ht
  · intro key hkey
    simp only [Watch.moment, Option.toList_none, List.append_nil] at hkey
    rw [hdata, replay_of_untouched _ ?_]
    · exact h.untouched key hkey
    · intro hmem
      exact hkey (h.queued key ((List.take_sublist k d.journal).map _ |>.subset hmem))
  · simp [hj]

/-! ## Calls on the storage -/

namespace Storage

/-- A host that never asked for a disk crashes like one whose disk is new. -/
theorem disk_crashDisk (rng : RandomSource ρ) (s : Storage κ ν ρ) (n m : HostName) :
    (s.crashDisk rng n).disk m =
      if n = m then ((s.disk n).crash rng s.diskRng).1 else s.disk m := by
  unfold crashDisk
  cases h : s.disks.get? n with
  | none =>
      have hnew : s.disk n = SimDisk.new := by simp [disk, h]
      by_cases hnm : n = m
      · subst hnm
        rw [if_pos rfl, hnew]
        rfl
      · rw [if_neg hnm]
  | some d =>
      have hd : s.disk n = d := by simp [disk, h]
      rw [hd]
      exact disk_setHostDisk s n m _

theorem alive_crashDisk (rng : RandomSource ρ) (s : Storage κ ν ρ) (n : HostName) :
    (s.crashDisk rng n).alive = s.alive := by
  unfold crashDisk
  split <;> rfl

theorem diskRng_crashDisk (rng : RandomSource ρ) (s : Storage κ ν ρ) (n : HostName) :
    (s.crashDisk rng n).diskRng = ((s.disk n).crash rng s.diskRng).2 := by
  unfold crashDisk
  cases h : s.disks.get? n with
  | none =>
      have hnew : s.disk n = SimDisk.new := by simp [disk, h]
      rw [hnew]
      rfl
  | some d =>
      have hd : s.disk n = d := by simp [disk, h]
      rw [hd]

/-- What each call that does not raise did to the storage. -/
theorem exec_ok {rng : RandomSource ρ} {s s' : Storage κ ν ρ} {c : StorageCall κ ν}
    (h : s.exec rng c = .ok s') :
    match c with
    | .host _ => s'.disks = s.disks ∧ s'.diskRng = s.diskRng
    | .assign n key value => s' = s.setHostDisk n ((s.disk n).setItem key value)
    | .delete n key => ∃ d, (s.disk n).delItem key = .ok d ∧ s' = s.setHostDisk n d
    | .sync n => s' = s.setHostDisk n (s.disk n).sync
    | .setDisk n buffered torn =>
        (torn = true → buffered = true) ∧
          s' = s.setHostDisk n ((s.disk n).configure buffered torn)
    | .crash n =>
        s.alive.get? n = some true ∧ n ≠ driver ∧
          s' = { s with alive := s.alive.insert n false }.crashDisk rng n
    | .restart n =>
        s.alive.get? n = some false ∧ s' = { s with alive := s.alive.insert n true } := by
  cases c with
  | host n =>
      simp only [exec] at h
      split at h <;> cases h <;> exact ⟨rfl, rfl⟩
  | assign n key value =>
      cases hn : s.alive.get? n <;>
        simp [exec, requireHost, hn, bind, Except.bind, pure, Except.pure] at h
      exact h.symm
  | delete n key =>
      cases hn : s.alive.get? n <;>
        simp [exec, requireHost, hn, bind, Except.bind, pure, Except.pure] at h
      cases hd : (s.disk n).delItem key with
      | error e => simp [hd] at h
      | ok d =>
          simp only [hd, Except.ok.injEq] at h
          exact ⟨d, hd, h.symm⟩
  | sync n =>
      cases hn : s.alive.get? n <;>
        simp [exec, requireHost, hn, bind, Except.bind, pure, Except.pure] at h
      exact h.symm
  | setDisk n buffered torn =>
      cases hn : s.alive.get? n <;>
        simp [exec, requireHost, hn, bind, Except.bind, pure, Except.pure] at h
      cases torn <;> cases buffered <;>
        simp [throw, throwThe, MonadExceptOf.throw] at h <;> simp [h]
  | crash n =>
      cases hn : s.alive.get? n with
      | none => simp [exec, requireHost, hn, bind, Except.bind] at h
      | some live =>
          simp only [exec, requireHost, hn, bind, Except.bind, pure, Except.pure] at h
          by_cases hdriver : n = driver
          · simp [hdriver, throw, throwThe, MonadExceptOf.throw] at h
          · cases live <;>
              simp [hdriver, throw, throwThe, MonadExceptOf.throw] at h
            exact ⟨hn, hdriver, h.symm⟩
  | restart n =>
      cases hn : s.alive.get? n with
      | none => simp [exec, requireHost, hn, bind, Except.bind] at h
      | some live =>
          simp only [exec, requireHost, hn, bind, Except.bind, pure, Except.pure] at h
          cases live <;> simp [throw, throwThe, MonadExceptOf.throw] at h
          exact ⟨hn, h.symm⟩

end Storage

/-! ## Every sequence of calls -/

theorem consistent_setItem {d : SimDisk κ ν} {w : Watch κ ν} (h : Consistent d w) (key : κ)
    (value : ν) :
    Consistent (d.setItem key value) (w.moment (d.setItem key value).view (some key)) := by
  unfold SimDisk.setItem
  split
  · rename_i hb
    exact consistent_queue h hb key (some value) _ rfl
  · rename_i hb
    exact consistent_durable h (by simpa using hb) key _
      (fun q hq => Dict.get?_insert_of_ne d.data value (Ne.symm hq))

theorem consistent_delItem {d d' : SimDisk κ ν} {w : Watch κ ν} (h : Consistent d w) {key : κ}
    (hok : d.delItem key = .ok d') : Consistent d' (w.moment d'.view (some key)) := by
  unfold SimDisk.delItem at hok
  split at hok
  · rename_i hb
    split at hok
    · cases hok
    · obtain rfl := Except.ok.inj hok
      exact consistent_queue h hb key none _ rfl
  · rename_i hb
    split at hok
    · obtain rfl := Except.ok.inj hok
      exact consistent_durable h (by simpa using hb) key _
        (fun q hq => Dict.get?_erase_of_ne d.data (Ne.symm hq))
    · cases hok

/-- One call keeps a host's disk and its reader's notes in agreement. -/
theorem consistent_call (rng : RandomSource ρ) (name : HostName) {w : Watched κ ν ρ}
    (h : Consistent (w.storage.disk name) w.watch) (c : StorageCall κ ν) :
    Consistent ((w.call rng name c).storage.disk name) (w.call rng name c).watch := by
  unfold Watched.call
  cases hc : w.storage.exec rng c with
  | error e => exact h
  | ok s =>
      have hok := Storage.exec_ok hc
      cases c with
      | host n =>
          have hd : s.disk name = w.storage.disk name := by
            unfold Storage.disk
            rw [hok.1]
          simpa [Watch.note, hd] using h
      | assign n key value =>
          obtain rfl : s = _ := hok
          by_cases hn : n = name
          · subst hn
            simpa [Watch.note] using consistent_setItem h key value
          · simpa [Watch.note, hn] using h
      | delete n key =>
          obtain ⟨d, hd, rfl⟩ := hok
          by_cases hn : n = name
          · subst hn
            simpa [Watch.note] using consistent_delItem h hd
          · simpa [Watch.note, hn] using h
      | sync n =>
          obtain rfl : s = _ := hok
          by_cases hn : n = name
          · subst hn
            simpa [Watch.note] using consistent_flush (d := (w.storage.disk n).sync) rfl rfl
          · simpa [Watch.note, hn] using h
      | setDisk n buffered torn =>
          obtain ⟨_, rfl⟩ := hok
          by_cases hn : n = name
          · subst hn
            simpa [Watch.note] using
              consistent_flush (d := (w.storage.disk n).configure buffered torn) rfl rfl
          · simpa [Watch.note, hn] using h
      | crash n =>
          obtain ⟨_, _, rfl⟩ := hok
          have hdisk : ∀ m, ({ w.storage with alive := w.storage.alive.insert n false } :
              Storage κ ν ρ).disk m = w.storage.disk m := fun _ => rfl
          by_cases hn : n = name
          · subst hn
            simpa [Watch.note, Storage.disk_crashDisk, hdisk] using
              consistent_crash h rng w.storage.diskRng
          · simpa [Watch.note, Storage.disk_crashDisk, hdisk, hn] using h
      | restart n =>
          obtain ⟨_, rfl⟩ := hok
          exact h

theorem consistent_after (rng : RandomSource ρ) (r : ρ) (name : HostName)
    (cs : List (StorageCall κ ν)) :
    Consistent ((Watched.after rng r name cs).storage.disk name)
      (Watched.after rng r name cs).watch := by
  unfold Watched.after
  induction cs using List.reverseRecOn with
  | nil => exact consistent_init
  | append_singleton cs c ih =>
      rw [List.foldl_concat]
      exact consistent_call rng name ih c

/-! ## What the reboot finds -/

/-- The torn-write stream moves only in a crash of a torn disk with writes queued,
and then by one draw. -/
theorem diskRng_exec {rng : RandomSource ρ} {s s' : Storage κ ν ρ} {c : StorageCall κ ν}
    (h : s.exec rng c = .ok s')
    (hquiet : ∀ n, c = .crash n → ¬ ((s.disk n).torn = true ∧ (s.disk n).journal ≠ [])) :
    s'.diskRng = s.diskRng := by
  have hok := Storage.exec_ok h
  cases c with
  | host n => exact hok.2
  | assign n key value => obtain rfl : s' = _ := hok; rfl
  | delete n key => obtain ⟨d, _, rfl⟩ := hok; rfl
  | sync n => obtain rfl : s' = _ := hok; rfl
  | setDisk n buffered torn => obtain ⟨_, rfl⟩ := hok; rfl
  | restart n => obtain ⟨_, rfl⟩ := hok; rfl
  | crash n =>
      obtain ⟨_, _, rfl⟩ := hok
      rw [Storage.diskRng_crashDisk]
      show ((s.disk n).crash rng s.diskRng).2 = s.diskRng
      have hn := hquiet n rfl
      unfold SimDisk.crash
      split
      · rfl
      · rename_i hj
        have ht : (s.disk n).torn = false := by
          cases ht : (s.disk n).torn with
          | false => rfl
          | true => exact absurd ⟨ht, by simpa using hj⟩ hn
        simp [SimDisk.kept, ht]

/-- A crash of `name` leaves the mapping a reader saw after the first `k` queued
writes, for some `k` within the queue; a buffered disk that is not torn is back at the
last flush, an unbuffered one keeps the last mapping seen, and keys untouched since the
last flush keep their flushed value in any case. -/
theorem crash_finds {rng : RandomSource ρ} {name : HostName} {w : Watched κ ν ρ}
    (hcons : Consistent (w.storage.disk name) w.watch) {s : Storage κ ν ρ}
    (hcrash : w.storage.exec rng (.crash name) = .ok s) :
    (∃ k ≤ (w.storage.disk name).journal.length,
      w.watch.afterQueued (w.storage.disk name).journal.length k = some (s.disk name).view ∧
        (s.disk name).view ∈ w.watch.seen) ∧
    ((w.storage.disk name).buffered = true → (w.storage.disk name).torn = false →
      (s.disk name).view = w.watch.atFlush) ∧
    ((w.storage.disk name).buffered = false →
      (s.disk name).view = (w.storage.disk name).view) ∧
    ∀ key ∉ w.watch.touched, (s.disk name).view key = w.watch.atFlush key := by
  obtain ⟨_, _, hs⟩ := Storage.exec_ok hcrash
  have hdisk : s.disk name = ((w.storage.disk name).crash rng w.storage.diskRng).1 := by
    rw [hs, Storage.disk_crashDisk, if_pos rfl]
    rfl
  obtain ⟨k, hk, hdata, hwhole⟩ := crash_data rng (w.storage.disk name) w.storage.diskRng
  have hview : (s.disk name).view =
      replay (w.storage.disk name).data.get? ((w.storage.disk name).journal.take k) := by
    rw [hdisk, crash_view, hdata]
  have hmoment := hcons.moments k hk
  refine ⟨⟨k, hk, ?_, ?_⟩, ?_, ?_, ?_⟩
  · rw [hmoment, hview]
  · rw [hview]
    exact List.mem_of_getElem? hmoment
  · intro hb ht
    rw [hview, hwhole ht, List.take_zero, replay_nil]
    exact hcons.whole hb ht
  · intro hb
    have hj := hcons.coherent.unbuffered hb
    rw [hview, hj, List.take_nil, replay_nil, SimDisk.view_eq_data hcons.coherent hj]
  · intro key hkey
    rw [hview, replay_of_untouched _ ?_]
    · exact hcons.untouched key hkey
    · intro hmem
      exact hkey (hcons.queued key ((List.take_sublist k _).map _ |>.subset hmem))

/-! ## While the host is down -/

/-- The call neither writes to the disk of `name`, nor deletes from it, nor restarts
the host. -/
def StorageCall.Quiet (name : HostName) : StorageCall κ ν → Prop
  | .assign other _ _ => other ≠ name
  | .delete other _ => other ≠ name
  | .restart other => other ≠ name
  | _ => True

/-- The host is down and its disk holds a mapping with nothing queued. -/
structure Storage.Rests (name : HostName) (now : κ → Option ν) (s : Storage κ ν ρ) : Prop where
  down : s.alive.get? name = some false
  journal : (s.disk name).journal = []
  overlay : (s.disk name).overlay = .empty
  view : (s.disk name).view = now

theorem rests_crash {rng : RandomSource ρ} {name : HostName} {s s' : Storage κ ν ρ}
    (h : s.exec rng (.crash name) = .ok s') : s'.Rests name (s'.disk name).view := by
  obtain ⟨_, _, rfl⟩ := Storage.exec_ok h
  have hclear := SimDisk.crash_journal rng (s.disk name) s.diskRng
  refine ⟨?_, ?_, ?_, rfl⟩
  · rw [Storage.alive_crashDisk]
    exact Dict.get?_insert_self _ _ _
  · rw [Storage.disk_crashDisk, if_pos rfl]
    exact hclear.1
  · rw [Storage.disk_crashDisk, if_pos rfl]
    exact hclear.2

/-- Flushing an empty queue changes nothing that is read. -/
theorem view_sync {d : SimDisk κ ν} (hj : d.journal = []) (hov : d.overlay = .empty) :
    d.sync.view = d.view := by
  have hc := SimDisk.coherent_of_clear d hj hov
  rw [SimDisk.view_eq_data (SimDisk.coherent_of_clear d.sync rfl rfl) rfl,
    SimDisk.view_eq_data hc hj]
  unfold SimDisk.sync
  rw [hj]
  rfl

/-- A disk that is what it was still rests while the host is down. -/
theorem Storage.Rests.of_disk {name : HostName} {now : κ → Option ν} {s s' : Storage κ ν ρ}
    (h : s.Rests name now) (hdown : s'.alive.get? name = some false)
    (hdisk : s'.disk name = s.disk name) : s'.Rests name now :=
  ⟨hdown, hdisk ▸ h.journal, hdisk ▸ h.overlay, hdisk ▸ h.view⟩

/-- A change of another host's disk. -/
theorem Storage.Rests.setHostDisk {name n : HostName} {now : κ → Option ν} {s : Storage κ ν ρ}
    (h : s.Rests name now) (hn : n ≠ name) (d : SimDisk κ ν) :
    (s.setHostDisk n d).Rests name now :=
  h.of_disk h.down (by rw [Storage.disk_setHostDisk, if_neg hn])

/-- A disk that is flushed has nothing to flush. -/
theorem Storage.Rests.flushed {name : HostName} {now : κ → Option ν} {s : Storage κ ν ρ}
    (h : s.Rests name now) {d : SimDisk κ ν} (hjournal : d.journal = [])
    (hoverlay : d.overlay = .empty) (hview : d.view = (s.disk name).view) :
    (s.setHostDisk name d).Rests name now := by
  refine ⟨h.down, ?_, ?_, ?_⟩ <;> rw [Storage.disk_setHostDisk, if_pos rfl]
  · exact hjournal
  · exact hoverlay
  · exact hview.trans h.view

/-- A quiet call leaves a disk at rest as it is. -/
theorem rests_call (rng : RandomSource ρ) {name : HostName} {now : κ → Option ν}
    {s : Storage κ ν ρ} (h : s.Rests name now) {c : StorageCall κ ν} (hquiet : c.Quiet name) :
    (s.call rng c).Rests name now := by
  unfold Storage.call
  cases hc : s.exec rng c with
  | error e => exact h
  | ok s' =>
      have hok := Storage.exec_ok hc
      cases c with
      | host n =>
          refine h.of_disk ?_ (by rw [Storage.disk, hok.1, Storage.disk])
          simp only [Storage.exec] at hc
          split at hc
          · cases hc
            exact h.down
          · rename_i hnew
            cases hc
            rw [Dict.get?_insert_of_ne _ _ ?_]
            · exact h.down
            · rintro rfl
              exact hnew (by simp [Dict.contains, h.down])
      | assign n key value =>
          obtain rfl : s' = _ := hok
          exact h.setHostDisk hquiet _
      | delete n key =>
          obtain ⟨d, _, rfl⟩ := hok
          exact h.setHostDisk hquiet _
      | sync n =>
          obtain rfl : s' = _ := hok
          by_cases hn : n = name
          · subst hn
            exact h.flushed rfl rfl (view_sync h.journal h.overlay)
          · exact h.setHostDisk hn _
      | setDisk n buffered torn =>
          obtain ⟨_, rfl⟩ := hok
          by_cases hn : n = name
          · subst hn
            exact h.flushed rfl rfl (view_sync h.journal h.overlay)
          · exact h.setHostDisk hn _
      | crash n =>
          obtain ⟨hup, _, rfl⟩ := hok
          have hn : n ≠ name := by
            rintro rfl
            rw [h.down] at hup
            cases hup
          refine h.of_disk ?_ ?_
          · rw [Storage.alive_crashDisk]
            exact (Dict.get?_insert_of_ne _ _ hn).trans h.down
          · rw [Storage.disk_crashDisk, if_neg hn]
            rfl
      | restart n =>
          obtain ⟨_, rfl⟩ := hok
          exact h.of_disk ((Dict.get?_insert_of_ne _ _ hquiet).trans h.down) rfl

/-- **Crash consistency.**  After any sequence of calls on a new network and any draws,
let `name` crash and restart with no write to its disk in between.  The reboot finds the
mapping a reader saw after the first `k` queued writes, for some `k` within the queue;
that is a moment since the last flush.  From a buffered disk that is not torn it finds
what the last flush left, from an unbuffered one the last mapping seen, and keys
untouched since the last flush hold their flushed value in any case.  The torn-write
stream stands still in every call but the crash of a torn disk with writes queued. -/
theorem crash_consistency (rng : RandomSource ρ) (r : ρ) (name : HostName)
    (cs between : List (StorageCall κ ν)) {s s' : Storage κ ν ρ}
    (hcrash : (Watched.after rng r name cs).storage.exec rng (.crash name) = .ok s)
    (hquiet : ∀ c ∈ between, c.Quiet name)
    (hrestart : (between.foldl (Storage.call rng) s).exec rng (.restart name) = .ok s') :
    let w := (Watched.after rng r name cs).watch
    let d := (Watched.after rng r name cs).storage.disk name
    let found := (s'.disk name).view
    (∃ k ≤ d.journal.length,
      w.afterQueued d.journal.length k = some found ∧ found ∈ w.seen) ∧
    (d.buffered = true → d.torn = false → found = w.atFlush) ∧
    (d.buffered = false → found = d.view) ∧
    (∀ key ∉ w.touched, found key = w.atFlush key) ∧
    (∀ c s', (Watched.after rng r name cs).storage.exec rng c = .ok s' →
      (∀ n, c = .crash n →
        ¬ (((Watched.after rng r name cs).storage.disk n).torn = true ∧
          ((Watched.after rng r name cs).storage.disk n).journal ≠ [])) →
      s'.diskRng = (Watched.after rng r name cs).storage.diskRng) := by
  intro w d found
  have hrests : (between.foldl (Storage.call rng) s).Rests name (s.disk name).view := by
    have hstart := rests_crash hcrash
    clear hcrash hrestart
    generalize (s.disk name).view = now at hstart
    induction between generalizing s with
    | nil => exact hstart
    | cons c between ih =>
        rw [List.foldl_cons]
        exact ih (fun c' hc' => hquiet c' (List.mem_cons_of_mem _ hc'))
          (rests_call rng hstart (hquiet c List.mem_cons_self))
  have hfound : found = (s.disk name).view := by
    obtain ⟨_, rfl⟩ := Storage.exec_ok hrestart
    exact hrests.view
  obtain ⟨hmoment, hflushed, hlast, huntouched⟩ :=
    crash_finds (consistent_after rng r name cs) hcrash
  rw [hfound]
  exact ⟨hmoment, hflushed, hlast, huntouched, fun c s' hc hquiet => diskRng_exec hc hquiet⟩

/-- A torn disk with one flushed write and two queued ones. -/
def tornCalls : List (StorageCall Nat Nat) :=
  [.host "a", .setDisk "a" true true, .assign "a" 0 1, .sync "a", .assign "a" 0 2,
    .delete "a" 0]

/-- That disk's host, crashed. -/
def tornCrash : Storage Nat Nat Unit :=
  (Watched.after .least () "a" tornCalls).storage.call .least (.crash "a")

/-- Another host is written to before the restart. -/
theorem crash_consistency_tornCrash :
    ∃ s', ([.host "b", .assign "b" 0 7].foldl (Storage.call .least) tornCrash).exec .least
        (.restart "a") = .ok s' ∧
      (s'.disk "a").view 0 = some 1 ∧
      (s'.disk "a").view ∈ (Watched.after .least () "a" tornCalls).watch.seen := by
  have h := crash_consistency .least () "a" tornCalls [.host "b", .assign "b" 0 7]
    (s := tornCrash) rfl (by simp [StorageCall.Quiet]) rfl
  exact ⟨_, rfl, rfl, h.1.elim fun _ hk => hk.2.2⟩

/-- A buffered disk that is not torn, with one queued write. -/
def bufferedCalls : List (StorageCall Nat Nat) :=
  [.host "a", .setDisk "a" true false, .assign "a" 0 1]

/-- The host crashes, a task that is being cancelled writes, and the restart finds what
nobody had seen before the crash. -/
theorem not_crash_consistency_dyingWrite :
    ∃ s s', (Watched.after .least () "a" bufferedCalls).storage.exec .least (.crash "a") =
        .ok s ∧
      ([.assign "a" 0 2].foldl (Storage.call .least) s).exec .least (.restart "a") = .ok s' ∧
      (s'.disk "a").view 0 = some 2 ∧
      (Watched.after .least () "a" bufferedCalls).watch.atFlush 0 = none ∧
      (s'.disk "a").view ∉ (Watched.after .least () "a" bufferedCalls).watch.seen := by
  refine ⟨_, _, rfl, rfl, rfl, rfl, fun hmem => ?_⟩
  have hnever : ∀ now ∈ (Watched.after .least () "a" bufferedCalls).watch.seen,
      now 0 ≠ some 2 := by
    decide
  exact hnever _ hmem rfl

end SimLoop.Disk
