/-
  Net/Wire.lean --- hosts, link configuration and the packet pipeline of `SimNetwork`.

  A call that can raise returns the exception together with the state it leaves.
-/
import SimLoop.Net.State

set_option autoImplicit false

namespace SimLoop.Net

open SimLoop.Foundation

variable {ρ : Type}

namespace SimNetwork

/-! ## Hosts -/

/-- `_FORBIDDEN_NAME_CHARS`. -/
def forbiddenNameChars : List Char := ['|', '\n', '>']

/-- `_ADDRESS_LIMIT`. -/
def addressLimit : Nat := 0xFFFE

/-- `_ADDRESS_BASE`. -/
def addressBase : Nat := 0x0A070000

/-- `_format_address`. -/
def formatAddress (index : Nat) : String :=
  let packed := addressBase + index
  ".".intercalate ([24, 16, 8, 0].map fun shift => toString ((packed >>> shift) &&& 0xFF))

/-- How `repr` writes a name. -/
def quoted (text : String) : String := s!"'{text}'"

/-- `_LOCAL_NAMES`. -/
def localNames : List String := ["", "0.0.0.0", "localhost", "127.0.0.1"]

/-- `host`. -/
def host (s : SimNetwork ρ) (name : HostName) : Except Exc Unit × SimNetwork ρ :=
  if s.alive.contains name then (.ok (), s)
  else if name = "" then
    (.error (.error .valueError "host name must be a non-empty string"), s)
  else if name.toList.any (fun ch => ch ∈ forbiddenNameChars) then
    (.error (.error .valueError s!"host name {quoted name} may not contain '|', '>' or newline"), s)
  else
    let index := s.addresses.entries.length + 1
    if index > addressLimit then
      (.error (.error .valueError
        s!"the simulated address range holds at most {addressLimit} hosts"), s)
    else
      let address := formatAddress index
      (.ok (), { s with
        addresses := s.addresses.insert name address
        names := s.names.insert address name
        alive := s.alive.insert name true
        roster := s.roster.insert name [] })

/-- `_require_host`, as a check. -/
def requireHost (s : SimNetwork ρ) (name : HostName) : Except Exc HostName :=
  if s.alive.contains name then .ok name else .error (.error .osError s!"unknown host {quoted name}")

/-- `_resolve`. -/
def resolve (s : SimNetwork ρ) (name : String) : Except Exc HostName :=
  match s.names.get? name with
  | some owner => .ok owner
  | none => s.requireHost name

/-- `_bind_address`. -/
def bindAddress (s : SimNetwork ρ) (host : Option String) (port : Nat) : Except Exc Addr :=
  match host with
  | none => .ok (s.current, port)
  | some h =>
    if h ∈ localNames then .ok (s.current, port)
    else if (s.names.get? h).getD h ≠ s.current then
      .error (.error .osError s!"cannot bind to {quoted h} from host {quoted s.current}")
    else .ok (s.current, port)

/-! ## Configuration -/

/-- `_check_probability`. -/
def checkProbability (name : String) (value : ℚ) : Except Exc ℚ :=
  if 0 ≤ value ∧ value ≤ 1 then .ok value
  else .error (.error .valueError s!"{name} must be within [0.0, 1.0], got {value}")

/-- `_check_latency`. -/
def checkLatency (value : ℚ × ℚ) : Except Exc (ℚ × ℚ) :=
  if value.1 < 0 ∨ value.2 < value.1 then
    .error (.error .valueError s!"latency must satisfy 0 <= lo <= hi, got {value}")
  else .ok value

/-- One optional setting: checked and stored when it is given. -/
def setting {α : Type} (value : Option α) (check : α → Except Exc α)
    (store : α → SimNetwork ρ → SimNetwork ρ) (s : SimNetwork ρ) :
    Except Exc Unit × SimNetwork ρ :=
  match value with
  | none => (.ok (), s)
  | some x =>
    match check x with
    | .error e => (.error e, s)
    | .ok x => (.ok (), store x s)

/-- Go on with the next statement unless the last one raised. -/
def andThen (r : Except Exc Unit × SimNetwork ρ)
    (f : SimNetwork ρ → Except Exc Unit × SimNetwork ρ) : Except Exc Unit × SimNetwork ρ :=
  match r.1 with
  | .error e => (.error e, r.2)
  | .ok () => f r.2

/-- `set_defaults`. -/
def setDefaults (s : SimNetwork ρ) (latency : Option (ℚ × ℚ)) (drop duplicate : Option ℚ) :
    Except Exc Unit × SimNetwork ρ :=
  let r := setting latency checkLatency (fun x s => { s with defaultLatency := x }) s
  let r := andThen r (setting drop (checkProbability "drop")
    fun x s => { s with defaultDrop := x })
  andThen r (setting duplicate (checkProbability "duplicate")
    fun x s => { s with defaultDuplicate := x })

/-- Change the link of one ordered pair of hosts. -/
def setLinkField (src dst : HostName) (f : Link → Link) (s : SimNetwork ρ) : SimNetwork ρ :=
  { s with links := s.links.insert (src, dst) (f ((s.links.get? (src, dst)).getD {})) }

/-- `set_link`. -/
def setLink (s : SimNetwork ρ) (src dst : HostName) (latency : Option (ℚ × ℚ))
    (drop duplicate : Option ℚ) : Except Exc Unit × SimNetwork ρ :=
  match s.requireHost src with
  | .error e => (.error e, s)
  | .ok src =>
    match s.requireHost dst with
    | .error e => (.error e, s)
    | .ok dst =>
      let s := setLinkField src dst id s
      let r := setting latency checkLatency
        (fun x => setLinkField src dst fun l => { l with latency := some x }) s
      let r := andThen r (setting drop (checkProbability "drop")
        fun x => setLinkField src dst fun l => { l with drop := some x })
      andThen r (setting duplicate (checkProbability "duplicate")
        fun x => setLinkField src dst fun l => { l with duplicate := some x })

/-- The hosts of one side of a partition. -/
def requireHosts (s : SimNetwork ρ) : List HostName → Except Exc (List HostName)
  | [] => .ok []
  | name :: rest =>
    match s.requireHost name with
    | .error e => .error e
    | .ok name =>
      match requireHosts s rest with
      | .error e => .error e
      | .ok names => .ok (name :: names)

/-- `partition`. -/
def partition (s : SimNetwork ρ) (groupA groupB : List HostName) :
    Except Exc Unit × SimNetwork ρ :=
  match s.requireHosts groupA with
  | .error e => (.error e, s)
  | .ok sideA =>
    match s.requireHosts groupB with
    | .error e => (.error e, s)
    | .ok sideB =>
      if sideA = [] ∨ sideB = [] then
        (.error (.error .valueError "both partition groups must be non-empty"), s)
      else if sideA.any (fun a => a ∈ sideB) then
        let overlap := (sideA.dedup.filter fun a => a ∈ sideB).mergeSort
        let names := ", ".intercalate (overlap.map quoted)
        (.error (.error .valueError
          s!"hosts cannot be on both sides of a partition: [{names}]"), s)
      else
        let pairs := sideA.flatMap fun a => sideB.map fun b => s(a, b)
        (.ok (), { s with cuts := s.cuts ∪ pairs.toFinset })

/-- `_is_cut`. -/
def isCut (s : SimNetwork ρ) (a b : HostName) : Bool := decide (s(a, b) ∈ s.cuts)

/-- `_resolved`: the latency, drop and duplicate rates of a link. -/
def resolved (s : SimNetwork ρ) (src dst : HostName) : (ℚ × ℚ) × ℚ × ℚ :=
  match s.links.get? (src, dst) with
  | none => (s.defaultLatency, s.defaultDrop, s.defaultDuplicate)
  | some link =>
    (link.latency.getD s.defaultLatency, link.drop.getD s.defaultDrop,
      link.duplicate.getD s.defaultDuplicate)

/-! ## Packet pipeline -/

/-- `_new_uid`. -/
def newUid (s : SimNetwork ρ) : Nat × SimNetwork ρ :=
  (s.nextUid, { s with nextUid := s.nextUid + 1 })

/-- `_ephemeral`. -/
def ephemeral (s : SimNetwork ρ) : Nat × SimNetwork ρ :=
  (s.nextPort, { s with nextPort := s.nextPort + 1 })

/-- `_trace`. -/
def tracePacket (s : SimNetwork ρ) (verb : Verb) (p : Packet) : SimNetwork ρ :=
  { s with trace := s.trace ++ [⟨s.now, p.uid, .packet verb p.src p.dst⟩] }

/-- `_blackhole`. -/
def blackhole (p : Packet) (s : SimNetwork ρ) : SimNetwork ρ :=
  if p.kind = .dgram then s.tracePacket .drop p
  else ({ s with held := s.held ++ [p] } : SimNetwork ρ).tracePacket .hold p

section

variable (R : RandomSource ρ)

/-- `_schedule`. -/
def schedule (p : Packet) (latency : ℚ × ℚ) (s : SimNetwork ρ) : SimNetwork ρ :=
  let s := s.tracePacket .send p
  let (delay, rng) := R.uniform s.rng latency.1 latency.2
  { s with rng := rng, inFlight := s.inFlight ++ [⟨p, s.now + delay⟩] }

/-- `_transmit`. -/
def transmit (p : Packet) (s : SimNetwork ρ) : SimNetwork ρ :=
  if s.isCut p.src p.dst then blackhole p s
  else
    let (latency, drop, duplicate) := s.resolved p.src p.dst
    if p.kind = .dgram then
      let (x, rng) := R.random s.rng
      let s := { s with rng := rng }
      if x < drop then s.tracePacket .drop p
      else
        let (y, rng) := R.random s.rng
        let s := { s with rng := rng }
        let s := if y < duplicate then schedule R p latency (s.tracePacket .dup p) else s
        schedule R p latency s
    else schedule R p latency s

/-- `heal`. -/
def heal (s : SimNetwork ρ) : SimNetwork ρ :=
  s.held.foldl (fun s p => transmit R p (s.tracePacket .release p))
    { s with cuts := ∅, held := [] }

/-- `_send_stream`. -/
def sendStream (kind : PacketKind) (src dst : Addr) (conn seq : Nat) (payload : Bytes)
    (s : SimNetwork ρ) : SimNetwork ρ :=
  let (uid, s) := s.newUid
  let p : Packet := ⟨kind, src.1, dst.1, src.2, dst.2, conn, seq, payload, uid⟩
  transmit R p { s with sent := s.sent ++ [p] }

/-- `_send_datagram`. -/
def sendDatagram (src : Addr) (dst : String × Nat) (payload : Bytes) (s : SimNetwork ρ) :
    Except Exc Unit × SimNetwork ρ :=
  match s.resolve dst.1 with
  | .error e => (.error e, s)
  | .ok name =>
    let (uid, s) := s.newUid
    let p : Packet := ⟨.dgram, src.1, name, src.2, dst.2, 0, 0, payload, uid⟩
    (.ok (), transmit R p { s with sent := s.sent ++ [p] })

end

/-! ## What the configuration leaves alone -/

section

variable {β : Type} {g : SimNetwork ρ → β} (s : SimNetwork ρ)

theorem setting_keeps {α : Type} (value : Option α) (check : α → Except Exc α)
    {store : α → SimNetwork ρ → SimNetwork ρ} (h : ∀ x u, g (store x u) = g u) :
    g (setting value check store s).2 = g s := by
  unfold setting
  split
  · rfl
  · split
    · rfl
    · exact h _ s

variable {s} in
theorem andThen_keeps {r : Except Exc Unit × SimNetwork ρ}
    {f : SimNetwork ρ → Except Exc Unit × SimNetwork ρ} (hr : g r.2 = g s)
    (h : ∀ u, g (f u).2 = g u) : g (andThen r f).2 = g s := by
  unfold andThen
  split
  · exact hr
  · exact (h _).trans hr

/-- Whatever is not a default, `set_defaults` leaves alone. -/
theorem setDefaults_keeps
    (h : ∀ (u : SimNetwork ρ) (latency : ℚ × ℚ) (drop duplicate : ℚ), g { u with
      defaultLatency := latency
      defaultDrop := drop
      defaultDuplicate := duplicate } = g u)
    (latency : Option (ℚ × ℚ)) (drop duplicate : Option ℚ) :
    g (setDefaults s latency drop duplicate).2 = g s := by
  apply andThen_keeps
  · apply andThen_keeps
    · exact setting_keeps s latency _ fun x u => h u x u.defaultDrop u.defaultDuplicate
    · exact fun u => setting_keeps u drop _ fun x v => h v v.defaultLatency x v.defaultDuplicate
  · exact fun u => setting_keeps u duplicate _ fun x v => h v v.defaultLatency v.defaultDrop x

/-- Whatever is not a link, `set_link` leaves alone. -/
theorem setLink_keeps
    (h : ∀ (u : SimNetwork ρ) (links : Dict (HostName × HostName) Link),
      g { u with links := links } = g u)
    (src dst : HostName) (latency : Option (ℚ × ℚ)) (drop duplicate : Option ℚ) :
    g (setLink s src dst latency drop duplicate).2 = g s := by
  have hfield : ∀ (a b : HostName) (f : Link → Link) (u : SimNetwork ρ),
      g (setLinkField a b f u) = g u := fun _ _ _ u => h u _
  unfold setLink
  split
  · rfl
  · split
    · rfl
    · apply andThen_keeps
      · apply andThen_keeps
        · exact (setting_keeps _ latency _ fun _ u => hfield _ _ _ u).trans (hfield _ _ _ s)
        · exact fun u => setting_keeps u drop _ fun _ v => hfield _ _ _ v
      · exact fun u => setting_keeps u duplicate _ fun _ v => hfield _ _ _ v

/-- Whatever is not a cut, `partition` leaves alone. -/
theorem partition_keeps
    (h : ∀ (u : SimNetwork ρ) (cuts : Finset (Sym2 HostName)), g { u with cuts := cuts } = g u)
    (groupA groupB : List HostName) : g (partition s groupA groupB).2 = g s := by
  unfold partition
  split
  · rfl
  · split
    · rfl
    · split
      · rfl
      · split
        · rfl
        · exact h s _

end

end SimNetwork

end SimLoop.Net
