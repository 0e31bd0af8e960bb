/-
  Net/Resolution.lean --- names, synthetic addresses and what an endpoint reaches.

  Three lookups read the host table: `resolve` for endpoints, `lookupAddress` for
  `getaddrinfo`, and `bindAddress`.  `Booked` is what the table looks like after
  any registrations: addresses are numbered, and the two dictionaries are inverse
  to each other.  From it `agrees_iff` says for which strings resolving first and
  using the string directly come out the same.
-/
import SimLoop.Foundation.Precedence
import SimLoop.Net.Machine

set_option autoImplicit false

namespace SimLoop.Net

open SimLoop.Foundation

variable {ρ : Type}

/-! ## Arguments and answers of the resolver -/

/-- A host as `getaddrinfo` is given one. -/
inductive HostArg where
  | none
  | text (name : String)
  | bytes (raw : Bytes)
  deriving DecidableEq, Repr

/-- A port as `getaddrinfo` is given one. -/
inductive Service where
  | none
  | number (n : Int)
  | text (digits : String)
  deriving DecidableEq, Repr

/-- What a lookup raises. -/
inductive LookupError where
  /-- `_gaierror(host)` -/
  | host (what : HostArg)
  /-- `_gaierror(port)` -/
  | service (what : Service)
  /-- `KeyError`, under a context that no machine owns -/
  | keyError (name : HostName)
  deriving DecidableEq, Repr

/-- `_AddrInfo`. -/
structure AddrInfo where
  family : Nat
  kind : Nat
  proto : Nat
  canonname : String
  sockaddr : String × Int
  deriving DecidableEq, Repr

/-- `_decoded`. -/
def decoded : HostArg → HostArg
  | .bytes raw =>
    if raw.all (fun b => b.toNat < 128) then
      .text (String.ofList (raw.map fun b => Char.ofNat b.toNat))
    else .bytes raw
  | host => host

/-- `_service_port`, where a string of digits is one of ASCII digits. -/
def servicePort : Service → Except LookupError Int
  | .none => .ok 0
  | .number n => .ok n
  | .text digits =>
    if digits ≠ "" ∧ digits.toList.all Char.isDigit then
      .ok (digits.toList.foldl (fun n ch => 10 * n + (ch.toNat - '0'.toNat)) 0 : Nat)
    else .error (.service (.text digits))

/-- `socket.AF_INET`. -/
def afInet : Nat := 2

/-- `socket.NI_NUMERICHOST`. -/
def niNumericHost : Nat := 1

/-- `_SOCKET_KINDS`: `SOCK_STREAM` with `IPPROTO_TCP` and `SOCK_DGRAM` with `IPPROTO_UDP`. -/
def socketKinds : List (Nat × Nat) := [(1, 6), (2, 17)]

namespace SimNetwork

/-! ## Lookups -/

/-- `address`. -/
def address (s : SimNetwork ρ) (name : HostName) : Except Exc String :=
  match s.requireHost name with
  | .error e => .error e
  | .ok name =>
    match s.addresses.get? name with
    | some address => .ok address
    | none => .error (.error .keyError (quoted name))

/-- `hostname`. -/
def hostname (s : SimNetwork ρ) (address : String) : Except Exc HostName :=
  match s.names.get? address with
  | some name => .ok name
  | none => .error (.error .osError s!"unknown address {quoted address}")

/-- The address of the machine the calling task is pinned to. -/
def ownAddress (s : SimNetwork ρ) : Except LookupError String :=
  match s.addresses.get? s.current with
  | some address => .ok address
  | none => .error (.keyError s.current)

/-- `_lookup_address`. -/
def lookupAddress (s : SimNetwork ρ) (host : HostArg) : Except LookupError String :=
  match decoded host with
  | .none => s.ownAddress
  | .bytes raw => .error (.host (.bytes raw))
  | .text name =>
    if name ∈ localNames then s.ownAddress
    else if s.names.contains name then .ok name
    else
      match s.addresses.get? name with
      | some address => .ok address
      | none => .error (.host (.text name))

/-- `_getaddrinfo`. -/
def getaddrinfo (s : SimNetwork ρ) (host : HostArg) (port : Service)
    (family kind proto _flags : Nat) : Except LookupError (List AddrInfo) :=
  match s.lookupAddress host with
  | .error e => .error e
  | .ok address =>
    match servicePort port with
    | .error e => .error e
    | .ok number =>
      let rows := (socketKinds.filter fun k =>
        (kind = 0 ∨ kind = k.1) ∧ (proto = 0 ∨ proto = k.2)).map fun k =>
          ({ family := afInet, kind := k.1, proto := k.2, canonname := "",
             sockaddr := (address, number) } : AddrInfo)
      if (family ≠ 0 ∧ family ≠ afInet) ∨ rows = [] then .error (.host host)
      else .ok rows

/-- `_getnameinfo`, of an address and a port. -/
def getnameinfo (s : SimNetwork ρ) (sockaddr : HostArg × Service) (flags : Nat) :
    Except LookupError (String × String) :=
  match sockaddr.1 with
  | .text address =>
    let found : Except LookupError (String × String) :=
      match s.names.get? address with
      | some name => .ok (name, address)
      | none =>
        match s.addresses.get? address with
        | some numeric => .ok (address, numeric)
        | none => .error (.host (.text address))
    match found with
    | .error e => .error e
    | .ok (name, numeric) =>
      match servicePort sockaddr.2 with
      | .error e => .error e
      | .ok port =>
        .ok (if flags &&& niNumericHost ≠ 0 then numeric else name, toString port)
  | what => .error (.host what)

/-! ## Synthetic addresses -/

/-- The number a string of digits writes. -/
def digitsValue (digits : List Char) : Nat :=
  digits.foldl (fun n ch => 10 * n + (ch.toNat - 48)) 0

theorem digitsValue_toDigits (n : Nat) : digitsValue (Nat.toDigits 10 n) = n := by
  induction n using Nat.strongRecOn with
  | ind n ih =>
      rcases Nat.lt_or_ge n 10 with hsmall | hlarge
      · rw [Nat.toDigits_of_lt_base hsmall]
        show 10 * 0 + ((Nat.digitChar n).toNat - 48) = n
        rw [Nat.toNat_digitChar_sub_48_of_lt_ten hsmall]
        omega
      · rw [Nat.toDigits_of_base_le (by decide) hlarge]
        unfold digitsValue at ih ⊢
        rw [List.foldl_concat, ih (n / 10) (by omega),
          Nat.toNat_digitChar_sub_48_of_lt_ten (Nat.mod_lt n (by decide))]
        omega

/-- The four parts of an address. -/
theorem splitOn_formatAddress (index : Nat) :
    (formatAddress index).toList.splitOn '.' =
      [24, 16, 8, 0].map fun shift =>
        Nat.toDigits 10 (((addressBase + index) >>> shift) &&& 0xFF) := by
  unfold formatAddress
  rw [String.toList_intercalate, List.map_map]
  have hdot : ".".toList = ['.'] := rfl
  rw [hdot, List.splitOn_intercalate]
  · apply List.map_congr_left
    intro shift _
    exact Nat.toList_repr
  · intro part hpart hin
    obtain ⟨shift, _, rfl⟩ := List.mem_map.mp hpart
    have hdigits : '.' ∈ Nat.toDigits 10 (((addressBase + index) >>> shift) &&& 0xFF) := by
      rw [← Nat.toList_repr]
      exact hin
    have hdigit := Nat.isDigit_of_mem_toDigits (by decide) (by decide) hdigits
    exact absurd hdigit (by decide)
  · simp

/-- Within the range, no two hosts get one address. -/
theorem formatAddress_injective {i j : Nat} (hi : i ≤ addressLimit) (hj : j ≤ addressLimit)
    (h : formatAddress i = formatAddress j) : i = j := by
  have hparts := splitOn_formatAddress i
  rw [h, splitOn_formatAddress j] at hparts
  simp only [List.map_cons, List.map_nil, List.cons.injEq, and_true] at hparts
  obtain ⟨_, _, hhigh, hlow⟩ := hparts
  have hbyte : ∀ {m n : Nat}, Nat.toDigits 10 (m &&& 0xFF) = Nat.toDigits 10 (n &&& 0xFF) →
      m % 256 = n % 256 := by
    intro m n hmn
    have hmod : ∀ k, k &&& 0xFF = k % 256 := fun k => Nat.and_two_pow_sub_one_eq_mod k 8
    rw [hmod, hmod] at hmn
    rw [← digitsValue_toDigits (m % 256), hmn, digitsValue_toDigits (n % 256)]
  have hhigh := hbyte hhigh
  have hlow := hbyte hlow
  unfold addressLimit at hi hj
  unfold addressBase at hhigh hlow
  simp only [Nat.shiftRight_eq_div_pow] at hhigh hlow
  omega

/-- No address is a word for the calling machine. -/
theorem formatAddress_not_local {index : Nat} (hindex : index ≤ addressLimit) :
    formatAddress index ∉ localNames := by
  intro hlocal
  have hparts := splitOn_formatAddress index
  have hfirst : ((addressBase + index) >>> 24) &&& 0xFF = 10 := by
    have hmod : ∀ k, k &&& 0xFF = k % 256 := fun k => Nat.and_two_pow_sub_one_eq_mod k 8
    rw [hmod, Nat.shiftRight_eq_div_pow]
    unfold addressLimit at hindex
    unfold addressBase
    omega
  have hhead : ((formatAddress index).toList.splitOn '.').head? = some ['1', '0'] := by
    rw [hparts]
    simp only [List.map_cons, List.head?_cons, hfirst]
    rfl
  have hnone : ∀ name ∈ localNames, (name.toList.splitOn '.').head? ≠ some ['1', '0'] := by
    decide
  exact hnone _ hlocal hhead

/-! ## The host table -/

/-- The host table: addresses are handed out in order, and each dictionary is the
other one's inverse. -/
structure Booked (s : SimNetwork ρ) : Prop where
  room : s.addresses.entries.length ≤ addressLimit
  numbered : ∀ n a, s.addresses.get? n = some a →
    ∃ i ≤ s.addresses.entries.length, a = formatAddress i
  inverse : ∀ a n, s.names.get? a = some n ↔ s.addresses.get? n = some a
  alive : ∀ n, s.alive.contains n = s.addresses.contains n

theorem booked_host {s : SimNetwork ρ} (h : Booked s) (name : HostName) :
    Booked (host s name).2 := by
  unfold host
  split
  · exact h
  split
  · exact h
  split
  · exact h
  rename_i hnew _ _
  simp only
  split
  · exact h
  rename_i hroom
  have hlength : s.addresses.entries.length + 1 ≤ addressLimit := Nat.not_lt.mp hroom
  have hunknown : s.addresses.get? name = none := by
    rw [h.alive] at hnew
    simpa [Dict.contains] using hnew
  -- the next address is none of those given out
  have hfresh : s.names.get? (formatAddress (s.addresses.entries.length + 1)) = none := by
    rw [Option.eq_none_iff_forall_ne_some]
    intro n hn
    obtain ⟨i, hi, heq⟩ := h.numbered n _ ((h.inverse _ n).mp hn)
    have := formatAddress_injective hlength (by omega) heq
    omega
  have hcount : (s.addresses.insert name
      (formatAddress (s.addresses.entries.length + 1))).entries.length =
        s.addresses.entries.length + 1 := by
    have hkeys := Dict.keys_insert s.addresses name
      (formatAddress (s.addresses.entries.length + 1))
    rw [if_neg (Dict.get?_eq_none_iff.mp hunknown)] at hkeys
    have hlen := congrArg List.length hkeys
    simpa [Dict.keys] using hlen
  constructor
  · simp only [hcount]
    exact hlength
  · intro n a hn
    simp only [Dict.get?_insert] at hn
    simp only [hcount]
    split at hn
    · exact ⟨_, Nat.le_refl _, (Option.some.inj hn).symm⟩
    · obtain ⟨i, hi, ha⟩ := h.numbered n a hn
      exact ⟨i, by omega, ha⟩
  · intro a n
    simp only [Dict.get?_insert]
    split
    · rename_i ha
      subst ha
      split
      · rename_i hn
        subst hn
        simp
      · rename_i hn
        constructor
        · intro heq
          exact absurd (Option.some.inj heq) hn
        · intro hold
          rw [(h.inverse _ n).mpr hold] at hfresh
          cases hfresh
    · rename_i ha
      split
      · rename_i hn
        subst hn
        constructor
        · intro hold
          rw [(h.inverse a name).mp hold] at hunknown
          cases hunknown
        · intro heq
          exact absurd (Option.some.inj heq) ha
      · exact h.inverse a n
  · intro n
    have halive := h.alive n
    unfold Dict.contains at halive ⊢
    simp only [Dict.get?_insert]
    split
    · rfl
    · exact halive

/-- The table after registering a sequence of names. -/
def hostTable (R : RandomSource ρ) (seed : Int) (names : List HostName) : SimNetwork ρ :=
  names.foldl (fun s name => (host s name).2) (init R seed)

theorem booked_hostTable (R : RandomSource ρ) (seed : Int) (names : List HostName) :
    Booked (hostTable R seed names) := by
  unfold hostTable
  induction names using List.reverseRecOn with
  | nil =>
      apply booked_host
      exact ⟨Nat.zero_le _, fun _ _ h => by simp at h, fun _ _ => by simp, fun _ => rfl⟩
  | append_singleton names name ih =>
      rw [List.foldl_concat]
      exact booked_host ih name

/-! ## What an endpoint reaches -/

section

variable (R : RandomSource ρ)

/-- Used as a remote host, the string reaches machine `m`: a connection sends its
`syn` there, and a datagram goes there. -/
structure Reaches (s : SimNetwork ρ) (text : String) (m : HostName) : Prop where
  connection : ∀ port, ∃ p, (openConnection R text port s).sent = s.sent ++ [p] ∧
    p.kind = .syn ∧ p.src = s.current ∧ p.dst = m ∧ p.dstPort = port
  datagram : ∀ src port payload, ∃ p,
    (sendDatagram R src (text, port) payload s).2.sent = s.sent ++ [p] ∧
    p.kind = .dgram ∧ p.dst = m ∧ p.dstPort = port ∧ p.payload = payload

/-- Used as a remote host, the string is turned down and nothing is sent. -/
structure Rejected (s : SimNetwork ρ) (text : String) : Prop where
  connection : ∀ port, ∃ e, openConnection R text port s = s.throw e
  datagram : ∀ src port payload, ∃ e,
    sendDatagram R src (text, port) payload s = (.error e, s)

theorem sent_schedule (p : Packet) (latency : ℚ × ℚ) (s : SimNetwork ρ) :
    (schedule R p latency s).sent = s.sent := rfl

theorem sent_transmit (p : Packet) (s : SimNetwork ρ) : (transmit R p s).sent = s.sent := by
  unfold transmit
  split
  · unfold blackhole
    split <;> rfl
  simp only
  split
  · split
    · rfl
    · rw [sent_schedule]
      split <;> rfl
  · rfl

theorem sent_sourcePort (text : String) (port : Nat) (s : SimNetwork ρ) :
    (sourcePort text port s).2.sent = s.sent := by
  unfold sourcePort ephemeral
  simp only
  split <;> rfl

theorem openConnection_ok {s : SimNetwork ρ} {text : String} {m : HostName}
    (h : s.resolve text = .ok m) (port : Nat) :
    ∃ p, (openConnection R text port s).sent = s.sent ++ [p] ∧
      p.kind = .syn ∧ p.src = s.current ∧ p.dst = m ∧ p.dstPort = port := by
  let p : Packet := ⟨.syn, s.current, m, (sourcePort m port s).1, port, s.nextConn, 0, [],
    (sourcePort m port s).2.nextUid⟩
  refine ⟨p, ?_, rfl, rfl, rfl, rfl⟩
  unfold openConnection
  rw [h]
  unfold sendStream back
  simp only [sent_transmit]
  unfold newUid
  simp only [sent_sourcePort]
  rfl

theorem sendDatagram_ok {s : SimNetwork ρ} {text : String} {m : HostName}
    (h : s.resolve text = .ok m) (src : Addr) (port : Nat) (payload : Bytes) :
    ∃ p, (sendDatagram R src (text, port) payload s).2.sent = s.sent ++ [p] ∧
      p.kind = .dgram ∧ p.dst = m ∧ p.dstPort = port ∧ p.payload = payload := by
  refine ⟨⟨.dgram, src.1, m, src.2, port, 0, 0, payload, s.nextUid⟩, ?_, rfl, rfl, rfl, rfl⟩
  unfold sendDatagram
  rw [h]
  simp only [sent_transmit]
  rfl

/-- A string reaches the machine it resolves to, and no other. -/
theorem reaches_iff {s : SimNetwork ρ} {text : String} {m : HostName} :
    Reaches R s text m ↔ s.resolve text = .ok m := by
  constructor
  · intro h
    obtain ⟨p, hsent, _, _, hdst, _⟩ := h.connection 0
    cases hres : s.resolve text with
    | error e =>
        unfold openConnection at hsent
        rw [hres] at hsent
        have hlen := congrArg List.length hsent
        simp [throw] at hlen
    | ok m' =>
        obtain ⟨p', hsent', _, _, hdst', _⟩ := openConnection_ok R hres 0
        rw [hsent'] at hsent
        obtain rfl : p' = p := by simpa using hsent
        rw [← hdst, ← hdst']
  · intro h
    exact ⟨openConnection_ok R h, sendDatagram_ok R h⟩

theorem rejected_iff {s : SimNetwork ρ} {text : String} :
    Rejected R s text ↔ ∃ e, s.resolve text = .error e := by
  constructor
  · intro h
    cases hres : s.resolve text with
    | error e => exact ⟨e, rfl⟩
    | ok m =>
        obtain ⟨e, he⟩ := h.connection 0
        obtain ⟨p, hsent, _⟩ := openConnection_ok R hres 0
        rw [he] at hsent
        have hlen := congrArg List.length hsent
        simp [throw] at hlen
  · rintro ⟨e, he⟩
    constructor
    · intro port
      unfold openConnection
      rw [he]
      exact ⟨e, rfl⟩
    · intro src port payload
      unfold sendDatagram
      rw [he]
      exact ⟨e, rfl⟩

end

/-! ## Resolving first and using the string directly -/

/-- `getaddrinfo` of the string gives an address, in some row of some request. -/
def Yields (s : SimNetwork ρ) (text address : String) : Prop :=
  ∃ port family kind proto flags rows row,
    s.getaddrinfo (.text text) port family kind proto flags = .ok rows ∧ row ∈ rows ∧
      row.sockaddr.1 = address

theorem yields_iff {s : SimNetwork ρ} {text address : String} :
    s.Yields text address ↔ s.lookupAddress (.text text) = .ok address := by
  constructor
  · rintro ⟨port, family, kind, proto, flags, rows, row, hrows, hrow, rfl⟩
    unfold getaddrinfo at hrows
    cases hlookup : s.lookupAddress (.text text) with
    | error e =>
        rw [hlookup] at hrows
        cases hrows
    | ok found =>
        rw [hlookup] at hrows
        simp only at hrows
        split at hrows
        · cases hrows
        split at hrows
        · cases hrows
        · obtain rfl := Except.ok.inj hrows
          obtain ⟨k, _, rfl⟩ := List.mem_map.mp hrow
          rfl
  · intro h
    let row (k : Nat × Nat) : AddrInfo := ⟨afInet, k.1, k.2, "", (address, 0)⟩
    refine ⟨.none, 0, 0, 0, 0, socketKinds.map row, row (1, 6), ?_, List.mem_cons_self, rfl⟩
    unfold getaddrinfo
    rw [h]
    rfl

/-- What resolving first and using the string directly owe each other, on the machine
of the calling task. -/
structure Agrees (R : RandomSource ρ) (s : SimNetwork ρ) (text : String) : Prop where
  /-- what `getaddrinfo` yields reaches the machine that the string itself reaches -/
  resolved : ∀ a, s.Yields text a → ∃ m, s.hostname a = .ok m ∧
    Reaches R s text m ∧ Reaches R s a m
  /-- a registered name reaches its machine, and its address leads back to it -/
  registered : s.alive.contains text = true →
    Reaches R s text text ∧ (∃ a, s.address text = .ok a ∧ s.hostname a = .ok text) ∧
    ∃ a, s.Yields text a ∧ ∀ port flags, flags &&& niNumericHost = 0 →
      s.getnameinfo (.text a, .number port) flags = .ok (text, toString port)
  /-- what `getaddrinfo` turns down is turned down as an endpoint -/
  rejected : (∀ a, ¬ s.Yields text a) → Rejected R s text

section

variable {R : RandomSource ρ} {s : SimNetwork ρ} {text : String}

theorem resolve_of_address {n : HostName} (h : s.names.get? text = some n) :
    s.resolve text = .ok n := by
  unfold resolve
  rw [h]

theorem resolve_of_name (h : s.names.get? text = none) :
    s.resolve text = s.requireHost text := by
  unfold resolve
  rw [h]

theorem requireHost_of_alive (h : s.alive.contains text = true) :
    s.requireHost text = .ok text := if_pos h

theorem hostname_ok_iff {m : HostName} :
    s.hostname text = .ok m ↔ s.names.get? text = some m := by
  unfold hostname
  split
  · rename_i name hname
    rw [hname, Except.ok.injEq, Option.some.injEq]
  · rename_i hname
    rw [hname]
    simp

theorem getnameinfo_of_address {name : HostName} (h : s.names.get? text = some name) (port : Int)
    {flags : Nat} (hflags : flags &&& niNumericHost = 0) :
    s.getnameinfo (.text text, .number port) flags = .ok (name, toString port) := by
  unfold getnameinfo
  simp [h, servicePort, hflags]

/-- The three ways a string is looked up. -/
theorem lookupAddress_text (s : SimNetwork ρ) (text : String) :
    s.lookupAddress (.text text) =
      if text ∈ localNames then s.ownAddress
      else if s.names.contains text then .ok text
      else
        match s.addresses.get? text with
        | some address => .ok address
        | none => .error (.host (.text text)) := rfl

/-- A registered name reaches its machine, where it is not the address of another. -/
theorem resolve_registered (halive : s.alive.contains text = true)
    (hother : ∀ n, s.names.get? text = some n → n = text) : s.resolve text = .ok text := by
  cases hname : s.names.get? text with
  | some n => rw [resolve_of_address hname, hother n hname]
  | none => rw [resolve_of_name hname, requireHost_of_alive halive]

namespace Booked

/-- A word for the calling machine is nobody's address. -/
theorem local_not_address (h : Booked s) (hlocal : text ∈ localNames) :
    s.names.get? text = none := by
  rw [Option.eq_none_iff_forall_ne_some]
  intro n hn
  obtain ⟨i, hi, rfl⟩ := h.numbered n text ((h.inverse text n).mp hn)
  exact formatAddress_not_local (Nat.le_trans hi h.room) hlocal

/-- A registered name has an address, and the address is its own. -/
theorem address_of_alive (h : Booked s) (halive : s.alive.contains text = true) :
    ∃ a, s.addresses.get? text = some a ∧ s.names.get? a = some text := by
  rw [h.alive] at halive
  obtain ⟨a, ha⟩ := Option.isSome_iff_exists.mp halive
  exact ⟨a, ha, (h.inverse a text).mpr ha⟩

theorem alive_of_address (h : Booked s) {a : String} (ha : s.addresses.get? text = some a) :
    s.alive.contains text = true := by
  rw [h.alive]
  unfold Dict.contains
  rw [ha]
  rfl

theorem ownAddress_ok (h : Booked s) (hcurrent : s.alive.contains s.current = true) :
    ∃ a, s.ownAddress = .ok a ∧ s.names.get? a = some s.current := by
  obtain ⟨a, ha, hname⟩ := h.address_of_alive hcurrent
  unfold ownAddress
  rw [ha]
  exact ⟨a, rfl, hname⟩

/-- What a string resolves to reaches what the string reaches, where the string is not a
loopback word of another machine. -/
theorem resolved (h : Booked s) (hcurrent : s.alive.contains s.current = true)
    (hlocal : text ∈ localNames → text = s.current) {a : String} (ha : s.Yields text a) :
    ∃ m, s.hostname a = .ok m ∧ s.resolve text = .ok m ∧ s.resolve a = .ok m := by
  rw [yields_iff, lookupAddress_text] at ha
  split at ha
  · rename_i hword
    obtain ⟨own, hown, hname⟩ := h.ownAddress_ok hcurrent
    obtain rfl : own = a := Except.ok.inj (hown.symm.trans ha)
    refine ⟨s.current, hostname_ok_iff.mpr hname, ?_, resolve_of_address hname⟩
    rw [hlocal hword, resolve_of_name]
    · exact requireHost_of_alive hcurrent
    · rw [← hlocal hword]
      exact h.local_not_address hword
  split at ha
  · rename_i hin
    obtain rfl := Except.ok.inj ha
    obtain ⟨n, hn⟩ := Option.isSome_iff_exists.mp hin
    exact ⟨n, hostname_ok_iff.mpr hn, resolve_of_address hn, resolve_of_address hn⟩
  split at ha
  · rename_i hout _ found hfound
    obtain rfl := Except.ok.inj ha
    have hname := (h.inverse found text).mpr hfound
    refine ⟨text, hostname_ok_iff.mpr hname, ?_, resolve_of_address hname⟩
    rw [resolve_of_name (by simpa [Dict.contains] using hout)]
    exact requireHost_of_alive (h.alive_of_address hfound)
  · cases ha

/-- A registered name resolves to an address that leads back to it. -/
theorem leads_back (h : Booked s) (halive : s.alive.contains text = true)
    (hlocal : text ∈ localNames → text = s.current)
    (hother : ∀ n, s.names.get? text = some n → n = text) :
    ∃ a, s.Yields text a ∧ s.names.get? a = some text := by
  obtain ⟨own, hown, hname⟩ := h.address_of_alive halive
  simp only [yields_iff, lookupAddress_text]
  split
  · rename_i hword
    unfold ownAddress
    rw [← hlocal hword, hown]
    exact ⟨own, rfl, hname⟩
  split
  · rename_i hin
    obtain ⟨n, hn⟩ := Option.isSome_iff_exists.mp hin
    exact ⟨text, rfl, by rw [hn, hother n hn]⟩
  · rw [hown]
    exact ⟨own, rfl, hname⟩

/-- What `getaddrinfo` turns down is not registered and nobody's address. -/
theorem turned_down (h : Booked s) (hcurrent : s.alive.contains s.current = true)
    (hnone : ∀ a, ¬ s.Yields text a) : ∃ e, s.resolve text = .error e := by
  simp only [yields_iff, lookupAddress_text] at hnone
  split at hnone
  · obtain ⟨own, hown, _⟩ := h.ownAddress_ok hcurrent
    exact absurd hown (hnone own)
  split at hnone
  · exact absurd rfl (hnone text)
  rename_i hout
  cases hfound : s.addresses.get? text with
  | some a =>
      rw [hfound] at hnone
      exact absurd rfl (hnone a)
  | none =>
      rw [resolve_of_name (by simpa [Dict.contains] using hout)]
      have hdead : ¬ s.alive.contains text = true := by
        rw [h.alive]
        simp [Dict.contains, hfound]
      exact ⟨_, if_neg hdead⟩

theorem agrees_iff (h : Booked s) (hcurrent : s.alive.contains s.current = true) :
    Agrees R s text ↔
      (text ∈ localNames → text = s.current) ∧
      (s.alive.contains text = true → ∀ n, s.names.get? text = some n → n = text) := by
  constructor
  · intro hagrees
    constructor
    · intro hword
      obtain ⟨own, hown, hname⟩ := h.ownAddress_ok hcurrent
      have hyields : s.Yields text own := by
        rw [yields_iff, lookupAddress_text, if_pos hword]
        exact hown
      obtain ⟨m, hm, htext, _⟩ := hagrees.resolved own hyields
      rw [hostname_ok_iff, hname, Option.some.injEq] at hm
      -- the word is nobody's address, so it is taken as a name
      rw [reaches_iff, resolve_of_name (h.local_not_address hword)] at htext
      unfold requireHost at htext
      split at htext
      · rw [hm]
        exact Except.ok.inj htext
      · cases htext
    · intro halive n hn
      have hreach := (reaches_iff R).mp (hagrees.registered halive).1
      rw [resolve_of_address hn] at hreach
      exact Except.ok.inj hreach
  · rintro ⟨hlocal, hother⟩
    constructor
    · intro a ha
      obtain ⟨m, hm, htext, haddress⟩ := h.resolved hcurrent hlocal ha
      exact ⟨m, hm, (reaches_iff R).mpr htext, (reaches_iff R).mpr haddress⟩
    · intro halive
      refine ⟨(reaches_iff R).mpr (resolve_registered halive (hother halive)), ?_, ?_⟩
      · obtain ⟨a, ha, hname⟩ := h.address_of_alive halive
        refine ⟨a, ?_, hostname_ok_iff.mpr hname⟩
        unfold address
        rw [requireHost_of_alive halive]
        simp only [ha]
      · obtain ⟨a, hyields, hname⟩ := h.leads_back halive hlocal (hother halive)
        exact ⟨a, hyields, fun port flags hflags => getnameinfo_of_address hname port hflags⟩
    · intro hnone
      exact (rejected_iff R).mpr (h.turned_down hcurrent hnone)

end Booked

end

/-- A table with a host whose name is the address of the next one. -/
def borrowedName : SimNetwork Unit := hostTable .least 0 ["10.7.0.3", "server"]

/-- A table with nobody but the driver. -/
def driverAlone : SimNetwork Unit := hostTable .least 0 []

/-- Neither a loopback word nor a name that is another host's address is the same
resolved and used directly. -/
theorem not_agrees :
    ¬ Agrees .least driverAlone "localhost" ∧ ¬ Agrees .least borrowedName "10.7.0.3" := by
  constructor
  · intro h
    have hlocal := (((booked_hostTable _ _ _).agrees_iff (by decide)).mp h).1
    exact absurd (hlocal (by decide)) (by decide)
  · intro h
    have hother := (((booked_hostTable _ _ _).agrees_iff (by decide)).mp h).2
    exact absurd (hother (by decide) "server" (by decide)) (by decide)

/-- **Resolving first and connecting directly.**  For the table left by any
registrations, any host of it that calls and any string, the two agree if and only if
the string is no loopback word (or the caller's own name) and no registered name that
is the synthetic address of another host. -/
theorem names_and_addresses_agree_iff (R : RandomSource ρ) (seed : Int) (names : List HostName)
    {caller : HostName} (hcaller : (hostTable R seed names).alive.contains caller = true)
    (text : String) :
    let s : SimNetwork ρ := { hostTable R seed names with current := caller }
    Agrees R s text ↔
      (text ∈ localNames → text = caller) ∧
      (s.alive.contains text = true → ∀ n, s.names.get? text = some n → n = text) := by
  intro s
  have hbooked : Booked s := by
    have h := booked_hostTable R seed names
    exact ⟨h.room, h.numbered, h.inverse, h.alive⟩
  exact hbooked.agrees_iff hcaller

theorem names_and_addresses_agree_server :
    Agrees .least ({ hostTable .least 0 ["server"] with current := "server" } : SimNetwork Unit)
      "10.7.0.2" :=
  (names_and_addresses_agree_iff .least 0 ["server"]
    (by decide : (hostTable .least 0 ["server"]).alive.contains "server" = true)
    "10.7.0.2").mpr ⟨by decide, by decide⟩

end SimNetwork

end SimLoop.Net
