/-
  Disk/Coherence.lean --- the three parts of a disk describe one set of writes.

  The abstract disk is a flushed mapping and an ordered journal; a reader sees
  the journal replayed over the mapping (`Foundation/Journal.lean`).  `Coherent`
  says that the overlay is the journal keyed for reading and that an unbuffered
  disk queues nothing.  Every method keeps it, and under it `getItem` reads the
  replay, so each method below is an operation of the abstract disk.
-/
import SimLoop.Disk.SimDisk
import SimLoop.Foundation.Journal

set_option autoImplicit false

namespace SimLoop.Disk

open SimLoop.Foundation

variable {κ ν ρ : Type} [DecidableEq κ]

namespace SimDisk

/-- The mapping a reader on the disk's host sees. -/
def view (d : SimDisk κ ν) : κ → Option ν := fun key => (d.getItem key).toOption

/-- The overlay is the journal keyed for reading, and only a buffered disk
queues. -/
structure Coherent (d : SimDisk κ ν) : Prop where
  overlay : ∀ key, d.overlay.get? key = lastWrite d.journal key
  unbuffered : d.buffered = false → d.journal = []

/-! ## Reading -/

theorem get?_applyEntry (data : Dict κ ν) (entry : κ × Option ν) :
    (applyEntry data entry).get? = assign data.get? entry := by
  obtain ⟨key, value⟩ := entry
  funext q
  unfold assign
  by_cases h : key = q
  · subst h
    cases value <;> simp [applyEntry]
  · rw [Function.update_of_ne (Ne.symm h)]
    cases value with
    | none => exact Dict.get?_erase_of_ne data h
    | some x => exact Dict.get?_insert_of_ne data x h

theorem get?_applyEntries (data : Dict κ ν) (entries : List (κ × Option ν)) :
    (applyEntries data entries).get? = replay data.get? entries := by
  induction entries generalizing data with
  | nil => rfl
  | cons entry rest ih =>
      unfold applyEntries replay at *
      rw [List.foldl_cons, List.foldl_cons, ih, get?_applyEntry]

/-- A coherent disk reads as its journal replayed over its durable mapping. -/
theorem view_eq_replay {d : SimDisk κ ν} (h : d.Coherent) :
    d.view = replay d.data.get? d.journal := by
  funext key
  rw [replay_apply, ← h.overlay key]
  unfold view getItem
  cases hov : d.overlay.get? key with
  | none =>
      cases hdata : d.data.get? key with
      | none => rfl
      | some value => rfl
  | some queued =>
      cases queued with
      | none => rfl
      | some value => rfl

theorem view_eq_data {d : SimDisk κ ν} (h : d.Coherent) (hj : d.journal = []) :
    d.view = d.data.get? := by
  rw [view_eq_replay h, hj, replay_nil]

/-! ## The methods keep coherence -/

theorem coherent_of_clear (d : SimDisk κ ν) (hj : d.journal = [])
    (hov : d.overlay = .empty) : d.Coherent where
  overlay := by
    intro key
    rw [hj, hov]
    rfl
  unbuffered := fun _ => hj

theorem new_coherent : (new : SimDisk κ ν).Coherent := coherent_of_clear _ rfl rfl

theorem sync_coherent (d : SimDisk κ ν) : d.sync.Coherent := coherent_of_clear _ rfl rfl

theorem configure_coherent (d : SimDisk κ ν) (buffered torn : Bool) :
    (d.configure buffered torn).Coherent := coherent_of_clear _ rfl rfl

theorem crash_journal (rng : RandomSource ρ) (d : SimDisk κ ν) (r : ρ) :
    (d.crash rng r).1.journal = [] ∧ (d.crash rng r).1.overlay = .empty := by
  unfold crash
  split <;> exact ⟨rfl, rfl⟩

theorem crash_coherent (rng : RandomSource ρ) (d : SimDisk κ ν) (r : ρ) :
    (d.crash rng r).1.Coherent :=
  coherent_of_clear _ (crash_journal rng d r).1 (crash_journal rng d r).2

/-- Queueing one write keeps a buffered disk coherent. -/
theorem queue_coherent {d : SimDisk κ ν} (h : d.Coherent) (hb : d.buffered = true)
    (key : κ) (value : Option ν) :
    ({ d with journal := d.journal ++ [(key, value)]
              overlay := d.overlay.insert key value } : SimDisk κ ν).Coherent where
  overlay := by
    intro q
    show (d.overlay.insert key value).get? q = _
    rw [Dict.get?_insert, lastWrite_concat, h.overlay q]
  unbuffered := by
    intro hu
    rw [hb] at hu
    cases hu

/-- A change of the durable mapping keeps an unbuffered disk coherent. -/
theorem durable_coherent {d : SimDisk κ ν} (h : d.Coherent) (data : Dict κ ν) :
    ({ d with data := data } : SimDisk κ ν).Coherent :=
  ⟨h.overlay, h.unbuffered⟩

theorem setItem_coherent {d : SimDisk κ ν} (h : d.Coherent) (key : κ) (value : ν) :
    (d.setItem key value).Coherent := by
  unfold setItem
  split
  · rename_i hb
    exact queue_coherent h hb key (some value)
  · exact durable_coherent h _

theorem delItem_coherent {d d' : SimDisk κ ν} (h : d.Coherent) {key : κ}
    (hok : d.delItem key = .ok d') : d'.Coherent := by
  unfold delItem at hok
  split at hok
  · rename_i hb
    split at hok
    · cases hok
    · obtain rfl := Except.ok.inj hok
      exact queue_coherent h hb key none
  · split at hok
    · obtain rfl := Except.ok.inj hok
      exact durable_coherent h _
    · cases hok

/-! ## What the methods do to a reader -/

theorem sync_view {d : SimDisk κ ν} (h : d.Coherent) : d.sync.view = d.view := by
  rw [view_eq_data d.sync_coherent rfl, view_eq_replay h]
  exact get?_applyEntries d.data d.journal

theorem configure_view {d : SimDisk κ ν} (h : d.Coherent) (buffered torn : Bool) :
    (d.configure buffered torn).view = d.view := by
  rw [view_eq_data (d.configure_coherent buffered torn) rfl, view_eq_replay h]
  exact get?_applyEntries d.data d.journal

/-- An assignment is one write to the reader's mapping; a buffered disk queues it,
an unbuffered one makes it durable. -/
theorem setItem_view {d : SimDisk κ ν} (h : d.Coherent) (key : κ) (value : ν) :
    (d.setItem key value).view = assign d.view (key, some value) := by
  rw [view_eq_replay (setItem_coherent h key value), view_eq_replay h]
  unfold setItem
  split
  · exact replay_concat _ _ _
  · rename_i hb
    have hj := h.unbuffered (by simpa using hb)
    show replay (d.data.insert key value).get? d.journal = _
    rw [hj, replay_nil, replay_nil]
    exact get?_applyEntry d.data (key, some value)

/-- A deletion that does not raise is one write to the reader's mapping. -/
theorem delItem_view {d d' : SimDisk κ ν} (h : d.Coherent) {key : κ}
    (hok : d.delItem key = .ok d') : d'.view = assign d.view (key, none) := by
  rw [view_eq_replay (delItem_coherent h hok), view_eq_replay h]
  unfold delItem at hok
  split at hok
  · split at hok
    · cases hok
    · obtain rfl := Except.ok.inj hok
      exact replay_concat _ _ _
  · rename_i hb
    have hj := h.unbuffered (by simpa using hb)
    split at hok
    · obtain rfl := Except.ok.inj hok
      show replay (d.data.erase key).get? d.journal = _
      rw [hj, replay_nil, replay_nil]
      exact get?_applyEntry d.data (key, none)
    · cases hok

end SimDisk

end SimLoop.Disk
