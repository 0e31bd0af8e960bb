/-
  Disk/SimDisk.lean --- a host's disk as `SimDisk` of `_net.py` computes it.

  A disk is a durable mapping, an ordered journal of the writes a flush has not
  applied yet, and an overlay that holds the same writes keyed for reading.  The
  journal and the overlay write a deletion down as `_DELETED`; here a queued
  value is an `Option`, and `none` is that marker.

  Values are whatever the program stores (`ν`), keys whatever it stores them
  under (`κ`).  The methods that can raise `KeyError` return `Except`.
-/
import SimLoop.Foundation.Dict
import SimLoop.Foundation.Random

set_option autoImplicit false

namespace SimLoop.Disk

open SimLoop.Foundation

variable {κ ν ρ : Type} [DecidableEq κ]

/-- The exceptions the storage layer raises. -/
inductive DiskError (κ : Type) where
  /-- `KeyError(key)` -/
  | keyError (key : κ)
  /-- `ValueError(message)` -/
  | valueError (message : String)
  deriving DecidableEq, Repr

/-- `SimDisk`. -/
structure SimDisk (κ ν : Type) where
  data : Dict κ ν
  buffered : Bool
  torn : Bool
  journal : List (κ × Option ν)
  overlay : Dict κ (Option ν)

namespace SimDisk

/-- `SimDisk.__init__`. -/
def new : SimDisk κ ν :=
  { data := .empty, buffered := false, torn := false, journal := [], overlay := .empty }

/-- One journal entry applied to the durable mapping: a deletion pops the key, a
value is stored. -/
def applyEntry (data : Dict κ ν) (entry : κ × Option ν) : Dict κ ν :=
  match entry.2 with
  | none => data.erase entry.1
  | some value => data.insert entry.1 value

/-- The loop over journal entries that `sync` and `_crash` share. -/
def applyEntries (data : Dict κ ν) (entries : List (κ × Option ν)) : Dict κ ν :=
  entries.foldl applyEntry data

/-- `SimDisk.sync`. -/
def sync (d : SimDisk κ ν) : SimDisk κ ν :=
  { d with data := applyEntries d.data d.journal, journal := [], overlay := .empty }

/-- `SimDisk._configure`. -/
def configure (d : SimDisk κ ν) (buffered torn : Bool) : SimDisk κ ν :=
  { d.sync with buffered := buffered, torn := torn }

/-- How many journal entries a crash keeps, and the stream after the draw. -/
def kept (rng : RandomSource ρ) (d : SimDisk κ ν) (r : ρ) : Nat × ρ :=
  if d.torn then rng.randint r 0 d.journal.length else (0, r)

/-- `SimDisk._crash`. -/
def crash (rng : RandomSource ρ) (d : SimDisk κ ν) (r : ρ) : SimDisk κ ν × ρ :=
  let cleared : SimDisk κ ν := { d with journal := [], overlay := .empty }
  if d.journal.isEmpty then (cleared, r)
  else
    let draw := d.kept rng r
    ({ cleared with data := applyEntries d.data (d.journal.take draw.1) }, draw.2)

/-- `SimDisk.__getitem__`. -/
def getItem (d : SimDisk κ ν) (key : κ) : Except (DiskError κ) ν :=
  match d.overlay.get? key with
  | some (some value) => .ok value
  | some none => .error (.keyError key)
  | none =>
      match d.data.get? key with
      | some value => .ok value
      | none => .error (.keyError key)

/-- `SimDisk.__setitem__`. -/
def setItem (d : SimDisk κ ν) (key : κ) (value : ν) : SimDisk κ ν :=
  if d.buffered then
    { d with journal := d.journal ++ [(key, some value)]
             overlay := d.overlay.insert key (some value) }
  else { d with data := d.data.insert key value }

/-- `SimDisk.__delitem__`. -/
def delItem (d : SimDisk κ ν) (key : κ) : Except (DiskError κ) (SimDisk κ ν) :=
  if d.buffered then
    -- a delete of what is not there raises, buffered or not
    match d.getItem key with
    | .error e => .error e
    | .ok _ =>
        .ok { d with journal := d.journal ++ [(key, none)]
                     overlay := d.overlay.insert key none }
  else if d.data.contains key then .ok { d with data := d.data.erase key }
  else .error (.keyError key)

/-- `self._overlay.get(key, None) is _DELETED`. -/
def pendingDelete (d : SimDisk κ ν) (key : κ) : Bool :=
  match d.overlay.get? key with
  | some none => true
  | _ => false

/-- `SimDisk._merged`: durable keys first, then the keys the queue invented. -/
def merged (d : SimDisk κ ν) : List κ :=
  d.data.keys.filter (fun key => !d.pendingDelete key) ++
    (d.overlay.entries.filter
      (fun e => !d.data.contains e.1 && e.2.isSome)).map Prod.fst

/-- `SimDisk.__iter__`, as the list of keys it yields. -/
def iter (d : SimDisk κ ν) : List κ :=
  if d.overlay.entries.isEmpty then d.data.keys else d.merged

/-- `SimDisk.__len__`. -/
def len (d : SimDisk κ ν) : Nat :=
  if d.overlay.entries.isEmpty then d.data.entries.length else d.merged.length

end SimDisk

end SimLoop.Disk
