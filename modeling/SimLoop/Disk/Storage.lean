/-
  Disk/Storage.lean --- the disks of a network and everything that touches them.

  The part of `SimNetwork` a disk can see: which hosts exist and which of them
  are alive, their disks (created when first asked for), and the one stream the
  torn writes draw from.  `exec` is one call that program code can make, with the
  checks the source makes and in the source's order; a call that raises leaves
  the storage as it was, so `call` keeps the old state there.

  `Watch` is not part of the program: it is what somebody reading one host's disk
  after every call would have written down.
-/
import SimLoop.Loop.Trace
import SimLoop.Disk.Coherence

set_option autoImplicit false

namespace SimLoop.Disk

open SimLoop.Foundation

variable {κ ν ρ : Type}

/-! ## The storage of a network -/

/-- Hosts, liveness, disks and the torn-write stream (`_alive`, `_disks`,
`_disk_rng`). -/
structure Storage (κ ν ρ : Type) where
  alive : Dict HostName Bool
  disks : Dict HostName (SimDisk κ ν)
  diskRng : ρ

/-- What program code can do to the storage. -/
inductive StorageCall (κ ν : Type) where
  | host (name : HostName)
  | assign (name : HostName) (key : κ) (value : ν)
  | delete (name : HostName) (key : κ)
  | sync (name : HostName)
  | setDisk (name : HostName) (buffered torn : Bool)
  | crash (name : HostName)
  | restart (name : HostName)

/-! ## What a reader of one host writes down -/

/-- The notes of somebody who reads one host's disk after every call: the mapping
at the last flush, every mapping seen since (that one first), and the keys
written or deleted since. -/
structure Watch (κ ν : Type) where
  atFlush : κ → Option ν
  seen : List (κ → Option ν)
  touched : List κ

namespace Watch

/-- The notes on a disk nobody has written to. -/
def init : Watch κ ν := ⟨fun _ => none, [fun _ => none], []⟩

/-- A flush: what is seen now is what is flushed. -/
def flush (now : κ → Option ν) : Watch κ ν := ⟨now, [now], []⟩

/-- A call that is not a flush: one more moment, and perhaps one more key. -/
def moment (w : Watch κ ν) (now : κ → Option ν) (key : Option κ) : Watch κ ν :=
  { w with seen := w.seen ++ [now], touched := w.touched ++ key.toList }

/-- The notes after one call that did not raise; `now` is the mapping seen after
it. -/
def note (name : HostName) (w : Watch κ ν) (c : StorageCall κ ν) (now : κ → Option ν) :
    Watch κ ν :=
  match c with
  | .sync other => if other = name then flush now else w
  | .setDisk other _ _ => if other = name then flush now else w
  | .assign other key _ => if other = name then w.moment now (some key) else w
  | .delete other key => if other = name then w.moment now (some key) else w
  | .crash other => if other = name then w.moment now none else w
  | .host _ => w
  | .restart _ => w

/-- The mapping seen after the first `k` of the `queued` writes made since the
queue was last empty; each of these wrote down one moment. -/
def afterQueued (w : Watch κ ν) (queued k : Nat) : Option (κ → Option ν) :=
  w.seen[w.seen.length - 1 - queued + k]?

theorem afterQueued_moment_zero (w : Watch κ ν) (now : κ → Option ν) (key : Option κ) :
    (w.moment now key).afterQueued 0 0 = some now := by
  simp [afterQueued, moment]

/-- The moment a queued write adds is the one after all queued writes. -/
theorem afterQueued_moment_last {w : Watch κ ν} {n : Nat} (now : κ → Option ν)
    (key : Option κ) (hroom : n + 1 ≤ w.seen.length) :
    (w.moment now key).afterQueued (n + 1) (n + 1) = some now := by
  have hidx : (w.seen ++ [now]).length - 1 - (n + 1) + (n + 1) = w.seen.length := by
    simp only [List.length_append, List.length_singleton]
    omega
  unfold afterQueued moment
  rw [hidx, List.getElem?_concat_length]

/-- The moments of earlier queued writes keep their place. -/
theorem afterQueued_moment_of_le {w : Watch κ ν} {n k : Nat} (now : κ → Option ν)
    (key : Option κ) (hroom : n + 1 ≤ w.seen.length) (hk : k ≤ n) :
    (w.moment now key).afterQueued (n + 1) k = w.afterQueued n k := by
  have hidx : (w.seen ++ [now]).length - 1 - (n + 1) + k = w.seen.length - 1 - n + k := by
    simp only [List.length_append, List.length_singleton]
    omega
  unfold afterQueued moment
  rw [hidx, List.getElem?_append_left (by omega)]

end Watch

/-! ## Calls -/

namespace Storage

/-- A new network: the driver host and no disk yet. -/
def init (r : ρ) : Storage κ ν ρ :=
  { alive := Dict.empty.insert driver true, disks := .empty, diskRng := r }

/-- `Host.disk`: `_disks.setdefault(name, SimDisk())`. -/
def disk (s : Storage κ ν ρ) (name : HostName) : SimDisk κ ν :=
  (s.disks.get? name).getD SimDisk.new

/-- Store a host's disk. -/
def setHostDisk (s : Storage κ ν ρ) (name : HostName) (d : SimDisk κ ν) : Storage κ ν ρ :=
  { s with disks := s.disks.insert name d }

@[simp] theorem disk_setHostDisk (s : Storage κ ν ρ) (n m : HostName) (d : SimDisk κ ν) :
    (s.setHostDisk n d).disk m = if n = m then d else s.disk m := by
  unfold disk setHostDisk
  rw [Dict.get?_insert]
  split <;> rfl

end Storage

variable [DecidableEq κ]

namespace Storage

/-- `_require_host`: whether the host is registered, and whether it is alive. -/
def requireHost (s : Storage κ ν ρ) (name : HostName) : Except (DiskError κ) Bool :=
  match s.alive.get? name with
  | some live => .ok live
  | none => .error (.valueError s!"unknown host {name}")

/-- The disk part of `SimNetwork.crash`: an absent disk has nothing to lose. -/
def crashDisk (rng : RandomSource ρ) (s : Storage κ ν ρ) (name : HostName) : Storage κ ν ρ :=
  match s.disks.get? name with
  | none => s
  | some d =>
      let after := d.crash rng s.diskRng
      { s.setHostDisk name after.1 with diskRng := after.2 }

/-- One call on the storage. -/
def exec (rng : RandomSource ρ) (s : Storage κ ν ρ) :
    StorageCall κ ν → Except (DiskError κ) (Storage κ ν ρ)
  | .host name =>
      if s.alive.contains name then .ok s
      else .ok { s with alive := s.alive.insert name true }
  | .assign name key value => do
      let _ ← s.requireHost name
      return s.setHostDisk name ((s.disk name).setItem key value)
  | .delete name key => do
      let _ ← s.requireHost name
      return s.setHostDisk name (← (s.disk name).delItem key)
  | .sync name => do
      let _ ← s.requireHost name
      return s.setHostDisk name (s.disk name).sync
  | .setDisk name buffered torn => do
      let _ ← s.requireHost name
      if torn && !buffered then
        throw (.valueError
          "torn=True needs buffered=True: an unbuffered write is already durable")
      return s.setHostDisk name ((s.disk name).configure buffered torn)
  | .crash name => do
      let live ← s.requireHost name
      if name = driver then throw (.valueError "the driver host cannot crash")
      if !live then throw (.valueError s!"host {name} already crashed")
      return { s with alive := s.alive.insert name false }.crashDisk rng name
  | .restart name => do
      let live ← s.requireHost name
      if live then throw (.valueError s!"host {name} is not crashed")
      return { s with alive := s.alive.insert name true }

/-- The storage after a call, raising or not. -/
def call (rng : RandomSource ρ) (s : Storage κ ν ρ) (c : StorageCall κ ν) : Storage κ ν ρ :=
  match s.exec rng c with
  | .ok s' => s'
  | .error _ => s

end Storage

/-! ## A network and a reader of one host -/

/-- A network's storage together with the notes on one of its hosts. -/
structure Watched (κ ν ρ : Type) where
  storage : Storage κ ν ρ
  watch : Watch κ ν

namespace Watched

/-- One call, raising or not, and the note it leaves. -/
def call (rng : RandomSource ρ) (name : HostName) (w : Watched κ ν ρ)
    (c : StorageCall κ ν) : Watched κ ν ρ :=
  match w.storage.exec rng c with
  | .ok s => ⟨s, w.watch.note name c (s.disk name).view⟩
  | .error _ => w

/-- The storage and the notes after a sequence of calls on a new network. -/
def after (rng : RandomSource ρ) (r : ρ) (name : HostName) (cs : List (StorageCall κ ν)) :
    Watched κ ν ρ :=
  cs.foldl (call rng name) ⟨.init r, .init⟩

end Watched

end SimLoop.Disk
