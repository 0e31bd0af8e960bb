/-
  Net/Switchboard.lean --- what a network is doing with its connections.

  A switchboard keeps the packets, the stream transports and their registry, the queues
  that put packets in order again and the connects; and what is being done, which is the
  stack of frames, the scheduled callbacks and the calls made so far.  Its moves are
  elementary; that every step of the network is a sequence of them is shown in
  Net/Switching.
-/
import SimLoop.Net.Ledger
import SimLoop.Net.Wire

set_option autoImplicit false

namespace SimLoop.Net

open SimLoop.Foundation

/-! ## What is not on the board -/

/-- What a move may need besides the switchboard it starts from. -/
inductive Occasion where
  /-- An exception leaves this frame. -/
  | unwound (f : Frame)
  /-- `resume_reading` is called on this transport. -/
  | resumed (t : Nat)
  /-- The future of this connect is cancelled. -/
  | cancelled (conn : Nat)
  /-- This host is being crashed. -/
  | crashed (name : HostName)
  /-- From here on the network works under this host. -/
  | entered (host : HostName)
  /-- These bytes are written to this transport. -/
  | wrote (t : Nat) (data : Bytes)
  /-- The protocol of this transport offers no room for what arrived. -/
  | starved (t : Nat)
  /-- Write buffers are filled or emptied. -/
  | metered

/-- Calls that have to do with no stream transport. -/
def Call.Aside : Call → Prop
  | .datagramMade _ => True
  | .datagramReceived _ _ _ => True
  | .datagramLost _ => True
  | .factory => True
  | .exceptionHandler => True
  | _ => False

/-- Frames that have nothing left to do with inbound data or connects. -/
def Frame.Aside : Frame → Prop
  | .flowCall => True
  | .report => True
  | .release _ => True
  | .datagramFactory _ => True
  | _ => False

/-- Frames that go on to fill or empty write buffers. -/
def Frame.Meters : Frame → Prop
  | .consumed _ _ => True
  | .release _ => True
  | _ => False

/-- A host can have this name. -/
def Nameable (name : HostName) : Prop :=
  name ≠ "" ∧ ∀ ch ∈ name.toList, ch ∉ SimNetwork.forbiddenNameChars

/-! ## Packets and transports -/

/-- Where a packet comes from. -/
def Packet.source (p : Packet) : Addr := (p.src, p.srcPort)

/-- Where a packet goes. -/
def Packet.target (p : Packet) : Addr := (p.dst, p.dstPort)

theorem Packet.key_eq (p : Packet) : p.key = (p.conn, p.target) := rfl

/-- The answer to a syn. -/
def Packet.reply (p : Packet) (kind : PacketKind) (uid : Nat) : Packet :=
  ⟨kind, p.dst, p.src, p.dstPort, p.srcPort, p.conn, 0, [], uid⟩

namespace Traffic

/-- A new packet is made and handed over to be sent. -/
def Posted (p : Packet) (w w' : Traffic) : Prop :=
  p.uid = w.nextUid ∧ ∃ time, Dispatch time p (w.stamp p) w'

/-- The first of the held packets is handed over again. -/
def Released (w w' : Traffic) : Prop :=
  ∃ time p rest, w.held = p :: rest ∧
    Dispatch time p (({ w with held := rest } : Traffic).note time .release p) w'

end Traffic

namespace StreamTransport

/-- The next packet of an end. -/
def packet (T : StreamTransport) (kind : PacketKind) (payload : Bytes) (uid : Nat) : Packet :=
  ⟨kind, T.loc.1, T.remote.1, T.loc.2, T.remote.2, T.conn, T.outSeq, payload, uid⟩

/-- A transport without what flow control looks at, and without what its peer has done. -/
def core (T : StreamTransport) : StreamTransport :=
  { T with
    writeBuffer := 0
    protocolPaused := false
    limits := none
    peerClosed := false }

def numbered (T : StreamTransport) : StreamTransport := { T with outSeq := T.outSeq + 1 }

/-- A transport that has sent one more packet. -/
def posted (kind : PacketKind) (T : StreamTransport) : StreamTransport :=
  { T with outSeq := T.outSeq + 1, eofSent := T.eofSent || decide (kind = .fin) }

def shut (T : StreamTransport) : StreamTransport := { T with closing := true }

def peerGone (T : StreamTransport) : StreamTransport := { T with peerClosed := true }

/-- What `_finish` leaves of a transport. -/
def finished (T : StreamTransport) : StreamTransport :=
  { T with
    closed := true
    closing := true
    writeBuffer := 0
    protocolPaused := false
    protocol := none
    buffered := false }

def adopted (protocol : Protocol) (T : StreamTransport) : StreamTransport :=
  { T with protocol := some protocol, buffered := protocol.buffered }

def started (protocol : Protocol) (T : StreamTransport) : StreamTransport :=
  { adopted protocol T with begun := true }

def reading (paused : Bool) (T : StreamTransport) : StreamTransport :=
  { T with readPaused := paused }

def backlogged (chunks : List Bytes) (T : StreamTransport) : StreamTransport :=
  { T with backlog := chunks }

def ending (pending : Bool) (T : StreamTransport) : StreamTransport :=
  { T with eofPending := pending }

/-! ### Flow control -/

def charged (count : Nat) (T : StreamTransport) : StreamTransport :=
  { T with writeBuffer := T.writeBuffer + count }

def credited (count : Nat) (T : StreamTransport) : StreamTransport :=
  { T with writeBuffer := T.writeBuffer - count }

/-- A transport whose protocol may write again. -/
def freed (count : Nat) (T : StreamTransport) : StreamTransport :=
  { T with writeBuffer := T.writeBuffer - count, protocolPaused := false }

def limited (limits : Nat × Nat) (T : StreamTransport) : StreamTransport :=
  { T with limits := some limits }

/-- A transport whose protocol must not write. -/
def choked (T : StreamTransport) : StreamTransport := { T with protocolPaused := true }

/-- What `_release_flow_control` leaves of a transport. -/
def emptied (T : StreamTransport) : StreamTransport :=
  { T with writeBuffer := 0, protocolPaused := false }

/-- A transport as `_handle_syn` and the accept branch make it. -/
def fresh (conn : Nat) (loc remote : Addr) (born : Nat) : StreamTransport :=
  { conn := conn, loc := loc, remote := remote, born := born }

end StreamTransport

/-- The future is resolved, unless it is done. -/
def Connect.settle (fut : Fut) (x : Connect) : Connect :=
  if x.fut = .pending then { x with fut := fut } else x

/-! ## Switchboards -/

structure Switchboard where
  traffic : Traffic
  alive : Dict HostName Bool
  owners : Dict String HostName
  sockets : List HostName
  transports : List StreamTransport
  streams : Dict Key Nat
  inbound : Dict Key InOrder
  connects : List Connect
  pending : Dict Nat Unit
  soon : List (Handle × HostName)
  stack : List Frame
  calls : List (HostName × Call)
  current : HostName

namespace Switchboard

def down (w : Switchboard) (name : HostName) : Prop := w.alive.get? name = some false

/-- A name that a lookup can find. -/
def Known (w : Switchboard) (name : HostName) : Prop :=
  w.alive.contains name = true ∨ ∃ address, w.owners.get? address = some name

/-- Change one transport. -/
def modify (w : Switchboard) (t : Nat) (f : StreamTransport → StreamTransport) : Switchboard :=
  { w with transports := w.transports.modify t f }

/-- Frames that have to wait. -/
def push (w : Switchboard) (frames : List Frame) : Switchboard :=
  { w with stack := frames ++ w.stack }

/-- Call into the program; `frames` wait for what comes back. -/
def call (w : Switchboard) (x : Call) (frames : List Frame) : Switchboard :=
  { w with stack := .code :: frames ++ w.stack, calls := w.calls ++ [(w.current, x)] }

/-- A stream transport is made and registered. -/
def attach (w : Switchboard) (T : StreamTransport) : Switchboard :=
  { w with
    transports := w.transports ++ [T]
    streams := w.streams.insert T.key w.transports.length }

/-- A packet waits in the queue of its direction. -/
def arrive (w : Switchboard) (p : Packet) : Switchboard :=
  let queue := (w.inbound.get? p.key).getD ⟨0, Dict.empty⟩
  let queue : InOrder := { queue with early := queue.early.insert p.seq p }
  { w with inbound := w.inbound.insert p.key queue }

/-- The next packet leaves the queue of a direction. -/
def take (w : Switchboard) (k : Key) (q : InOrder) : Switchboard :=
  let queue : InOrder := { q with next := q.next + 1, early := q.early.erase q.next }
  { w with inbound := w.inbound.insert k queue }

/-- The packet is next in its direction. -/
def Ready (w : Switchboard) (k : Key) (q : InOrder) (p : Packet) : Prop :=
  w.inbound.get? k = some q ∧ q.early.get? q.next = some p

/-- `_finish` of an open transport. -/
def finish (w : Switchboard) (t : Nat) (T : StreamTransport) (exc : Option Exc) : Switchboard :=
  let w : Switchboard := { w.modify t .finished with streams := w.streams.erase T.key }
  match T.protocol with
  | none => w
  | some _ => w.call (.connectionLost t exc) []

/-- The connect no longer waits for an answer. -/
def forget (w : Switchboard) (conn : Nat) : Switchboard :=
  { w with pending := w.pending.erase conn }

/-- Change one connect. -/
def connect (w : Switchboard) (conn : Nat) (f : Connect → Connect) : Switchboard :=
  { w with connects := w.connects.modify conn f }

/-- What a frame waits for has come to an end. -/
def Done (w : Switchboard) : Frame → Prop
  | .push k => ∀ q, w.inbound.get? k = some q → q.early.get? q.next = none
  | .drain t => ∀ T, w.transports[t]? = some T →
      T.readPaused = true ∨ T.closed = true ∨ T.backlog = [] ∧ T.eofPending = false
  | .bufferUpdated t view => view = [] ∨ w.transports[t]?.bind (·.protocol) = none
  | .getBuffer t _ => w.transports[t]?.bind (·.protocol) = none
  | .acceptMade conn _ => ∀ x, w.connects[conn]? = some x → x.fut ≠ .pending
  | .acceptFactory _ _ => False
  | .synFactory _ => False
  | .deliver => False
  | _ => True

/-- What a scheduled callback is for has been done. -/
def Settled (w : Switchboard) : Handle → Prop
  | .finish t _ => ∀ T, w.transports[t]? = some T → T.closed = true
  | .lost _ => True

/-! ## Moves -/

/-- What flow control can do with a transport, and whom it calls. -/
inductive Meter (A : Occasion → Prop) (t : Nat) (T : StreamTransport) :
    (StreamTransport → StreamTransport) → Option Call → Prop
  | charged (count : Nat) (hopen : T.closed = false) (hA : A .metered) :
      Meter A t T (.charged count) none
  | credited (count : Nat) (hopen : T.closed = false)
      (hstill : T.protocolPaused = true → count < T.writeBuffer) (hA : A .metered) :
      Meter A t T (.credited count) none
  | freed (count : Nat) (hopen : T.closed = false) (hpaused : T.protocolPaused = true)
      (hprotocol : T.protocol ≠ none) (hA : A .metered) :
      Meter A t T (.freed count) (some (.resumeWriting t))
  | hushed (count : Nat) (hopen : T.closed = false) (hpaused : T.protocolPaused = true)
      (hprotocol : T.protocol = none) (hA : A .metered) : Meter A t T (.freed count) none
  | limited (limits : Nat × Nat) : Meter A t T (.limited limits) none
  | choked (hfree : T.protocolPaused = false) (hprotocol : T.protocol ≠ none)
      (hfull : 0 < T.writeBuffer) : Meter A t T .choked (some (.pauseWriting t))
  | emptied (hfree : T.protocolPaused = false ∨ T.protocol = none) (hA : A .metered) :
      Meter A t T .emptied none
  | letGo (hpaused : T.protocolPaused = true) (hprotocol : T.protocol ≠ none)
      (hA : A .metered) : Meter A t T .emptied (some (.resumeWriting t))

namespace Meter

variable {A : Occasion → Prop} {t : Nat} {T : StreamTransport}
  {f : StreamTransport → StreamTransport}

/-- Flow control changes nothing but its own fields. -/
theorem core {x : Option Call} (h : Meter A t T f x) (U : StreamTransport) :
    (f U).core = U.core := by
  cases h <;> rfl

/-- It calls nothing but `pause_writing` and `resume_writing`. -/
theorem calls {x : Call} (h : Meter A t T f (some x)) :
    x = .pauseWriting t ∨ x = .resumeWriting t := by
  cases h with
  | freed => exact .inr rfl
  | choked => exact .inl rfl
  | letGo => exact .inr rfl

end Meter

/-- What `_deliver` of a transport can do with the bytes of one packet. -/
inductive Hand (t : Nat) (data : Bytes) (w : Switchboard) : Switchboard → Prop
  | unknown (hT : w.transports[t]? = none) : Hand t data w w
  | refused {T : StreamTransport} (hT : w.transports[t]? = some T) (hprotocol : T.protocol = none) :
      Hand t data w w
  | whole {T : StreamTransport} (hT : w.transports[t]? = some T) (hbuffered : T.buffered = false)
      (hprotocol : T.protocol ≠ none) : Hand t data w (w.call (.dataReceived t data) [])
  | parts {T : StreamTransport} (hT : w.transports[t]? = some T) (hbuffered : T.buffered = true) :
      Hand t data w (w.push [.bufferUpdated t data])

/-- What `_eof_arrived` can do. -/
inductive Ending (t : Nat) (w : Switchboard) : Switchboard → Prop
  | unknown (hT : w.transports[t]? = none) : Ending t w w
  | late {T : StreamTransport} (hT : w.transports[t]? = some T) (hclosed : T.closed = true) :
      Ending t w (w.modify t .peerGone)
  | kept {T : StreamTransport} (hT : w.transports[t]? = some T) (hopen : T.closed = false)
      (hpaused : T.readPaused = true) :
      Ending t w ((w.modify t .peerGone).modify t (.ending true))
  | refused {T : StreamTransport} (hT : w.transports[t]? = some T) (hopen : T.closed = false)
      (hreading : T.readPaused = false) (hprotocol : T.protocol = none) :
      Ending t w (w.modify t .peerGone)
  | told {T : StreamTransport} (hT : w.transports[t]? = some T) (hopen : T.closed = false)
      (hreading : T.readPaused = false) (hprotocol : T.protocol ≠ none) :
      Ending t w ((w.modify t .peerGone).call (.eofReceived t) [.eofReceived t])

/-- What `_dispatch_ready` can do with a packet. -/
inductive Dispatched (p : Packet) (w : Switchboard) : Switchboard → Prop
  | ignored (hsyn : p.kind ≠ .syn)
      (hanswer : p.kind = .accept ∨ p.kind = .refuse →
        w.pending.get? p.conn = none ∨ w.connects[p.conn]? = none)
      (hdeaf : p.kind = .data ∨ p.kind = .fin ∨ p.kind = .rst → ∀ t T,
        w.streams.get? p.key = some t → w.transports[t]? = some T → T.closed = true) :
      Dispatched p w w
  | heard (hkind : p.kind = .syn) (born : Nat) {tr : Traffic}
      (hpost : Traffic.Posted (p.reply .accept w.traffic.nextUid) w.traffic tr) :
      Dispatched p w
        (({ w.attach (.fresh p.conn p.target p.source born) with traffic := tr } :
          Switchboard).call .factory [.synFactory w.transports.length])
  | unheard (hkind : p.kind = .syn) {tr : Traffic}
      (hpost : Traffic.Posted (p.reply .refuse w.traffic.nextUid) w.traffic tr) :
      Dispatched p w { w with traffic := tr }
  | late {x : Connect} (hkind : p.kind = .accept ∨ p.kind = .refuse)
      (hpending : w.pending.get? p.conn = some ()) (hx : w.connects[p.conn]? = some x)
      (hfut : x.fut ≠ .pending) : Dispatched p w (w.forget p.conn)
  | accepted {x : Connect} (hkind : p.kind = .accept)
      (hpending : w.pending.get? p.conn = some ()) (hx : w.connects[p.conn]? = some x)
      (hfut : x.fut = .pending) (born : Nat) :
      Dispatched p w
        (((w.forget p.conn).attach (.fresh p.conn x.loc x.remote born)).call .factory
          [.acceptFactory p.conn w.transports.length])
  | refused {x : Connect} (hkind : p.kind = .refuse)
      (hpending : w.pending.get? p.conn = some ()) (hx : w.connects[p.conn]? = some x)
      (hfut : x.fut = .pending) (e : Exc) :
      Dispatched p w ((w.forget p.conn).connect p.conn (.settle (.failed e)))
  | queued {t : Nat} {T : StreamTransport} (hkind : p.kind = .data)
      (ht : w.streams.get? p.key = some t) (hT : w.transports[t]? = some T)
      (hopen : T.closed = false) (hpaused : T.readPaused = true) :
      Dispatched p w (w.modify t fun T => T.backlogged (T.backlog ++ [p.payload]))
  | data {t : Nat} {T : StreamTransport} {w' : Switchboard} (hkind : p.kind = .data)
      (ht : w.streams.get? p.key = some t) (hT : w.transports[t]? = some T)
      (hopen : T.closed = false) (hreading : T.readPaused = false)
      (hhand : Hand t p.payload (w.push [.consumed t p.payload.length]) w') :
      Dispatched p w w'
  | fin {t : Nat} {w' : Switchboard} (hkind : p.kind = .fin)
      (ht : w.streams.get? p.key = some t) (hending : Ending t w w') : Dispatched p w w'
  | rst {t : Nat} {T : StreamTransport} (hkind : p.kind = .rst)
      (ht : w.streams.get? p.key = some t) (hT : w.transports[t]? = some T)
      (hopen : T.closed = false) (exc : Option Exc) :
      Dispatched p w ((w.modify t .peerGone).finish t T exc)
  | rstLate {t : Nat} {T : StreamTransport} (hkind : p.kind = .rst)
      (ht : w.streams.get? p.key = some t) (hT : w.transports[t]? = some T)
      (hclosed : T.closed = true) : Dispatched p w (w.modify t .peerGone)

/-- The elementary changes; `A` says which occasions there are. -/
inductive Move (A : Occasion → Prop) : Switchboard → Switchboard → Prop
  -- packets
  | datagram (w : Switchboard) {p : Packet} {tr : Traffic} (hkind : p.kind = .dgram)
      (hsrc : p.src ∈ w.sockets) (hdst : w.Known p.dst)
      (hpost : Traffic.Posted p w.traffic tr) : Move A w { w with traffic := tr }
  | sent (w : Switchboard) {t : Nat} {T : StreamTransport} {kind : PacketKind} {payload : Bytes}
      {tr : Traffic} (hT : w.transports[t]? = some T)
      (hkind : kind = .data ∨ kind = .fin ∨ kind = .rst)
      (heof : kind ≠ .rst → T.eofSent = false) (hdata : kind = .data → A (.wrote t payload))
      (hpost : Traffic.Posted (T.packet kind payload w.traffic.nextUid) w.traffic tr) :
      Move A w { w.modify t (.posted kind) with traffic := tr }
  | released (w : Switchboard) {tr : Traffic} (hrelease : Traffic.Released w.traffic tr) :
      Move A w { w with traffic := tr }
  | lost (w : Switchboard) (time : ℚ) {i : Nat} {f : Flight} (hi : w.traffic.inFlight[i]? = some f)
      (hdown : w.down f.packet.src ∨ w.down f.packet.dst) (hA : A (.entered wire)) :
      Move A w { w with
        traffic := (w.traffic.fire i f.packet).note time .lost f.packet, current := wire }
  | parked (w : Switchboard) (time : ℚ) {i : Nat} {f : Flight}
      (hi : w.traffic.inFlight[i]? = some f) (hkind : f.packet.kind ≠ .dgram)
      (hA : A (.entered wire)) :
      Move A w { w with
        traffic := (w.traffic.fire i f.packet).park time f.packet, current := wire }
  | dropped (w : Switchboard) (time : ℚ) {i : Nat} {f : Flight}
      (hi : w.traffic.inFlight[i]? = some f) (hkind : f.packet.kind = .dgram)
      (hA : A (.entered wire)) :
      Move A w { w with
        traffic := (w.traffic.fire i f.packet).note time .drop f.packet, current := wire }
  | landed (w : Switchboard) (time : ℚ) {i : Nat} {f : Flight}
      (hi : w.traffic.inFlight[i]? = some f) (hkind : f.packet.kind ≠ .dgram)
      (hstack : w.stack = []) (hA : A (.entered f.packet.dst)) :
      Move A w ((({ w with
        traffic := (w.traffic.fire i f.packet).note time .deliver f.packet
        current := f.packet.dst } : Switchboard).arrive f.packet).push
          [.push f.packet.key, .deliver])
  | reached (w : Switchboard) (time : ℚ) {i : Nat} {f : Flight}
      (hi : w.traffic.inFlight[i]? = some f) (hkind : f.packet.kind = .dgram)
      (hstack : w.stack = []) (hA : A (.entered f.packet.dst)) :
      Move A w (({ w with
        traffic := (w.traffic.fire i f.packet).note time .deliver f.packet
        current := f.packet.dst } : Switchboard).push [.deliver])
  | missed (w : Switchboard) (time : ℚ) {i : Nat} {f : Flight}
      (hi : w.traffic.inFlight[i]? = some f) (hkind : f.packet.kind = .dgram)
      (hstack : w.stack = []) (hA : A (.entered f.packet.dst)) :
      Move A w (({ w with
        traffic := ((w.traffic.fire i f.packet).note time .deliver f.packet).note time .lost
          f.packet
        current := f.packet.dst } : Switchboard).push [.deliver])
  | purged (w : Switchboard) (time : ℚ) {name : HostName} (hA : A (.crashed name)) :
      Move A w { w with traffic := w.traffic.purge time name }
  -- hosts
  | enlisted (w : Switchboard) {name : HostName} (address : String)
      (hnew : w.alive.contains name = false) (hname : Nameable name) :
      Move A w { w with
        owners := w.owners.insert address name, alive := w.alive.insert name true }
  | downed (w : Switchboard) {name : HostName} (hA : A (.crashed name)) :
      Move A w { w with alive := w.alive.insert name false }
  | restarted (w : Switchboard) (time : ℚ) {name : HostName}
      (hname : w.alive.contains name = true) :
      Move A w { w with
        traffic := w.traffic.restart time name, alive := w.alive.insert name true }
  | bound (w : Switchboard) : Move A w { w with sockets := w.sockets ++ [w.current] }
  -- control
  | started (w : Switchboard) {host : HostName} (hstack : w.stack = [])
      (hA : A (.entered host)) : Move A w { w with stack := [.code], current := host }
  | switched (w : Switchboard) {host : HostName} (hstack : w.stack = [])
      (hA : A (.entered host)) : Move A w { w with current := host }
  | popped (w : Switchboard) {f : Frame} {rest : List Frame} (hstack : w.stack = f :: rest)
      (hdone : w.Done f) : Move A w { w with stack := rest }
  | unwound (w : Switchboard) {f : Frame} {rest : List Frame} (hstack : w.stack = f :: rest)
      (hA : A (.unwound f)) : Move A w { w with stack := rest }
  | starved (w : Switchboard) {t : Nat} {view : Bytes} {rest : List Frame}
      (hstack : w.stack = .getBuffer t view :: rest) (hA : A (.starved t)) :
      Move A w { w with stack := rest }
  | left (w : Switchboard) {rest : List Frame} (hstack : w.stack = .deliver :: rest)
      (hA : A (.entered wire)) : Move A w { w with stack := rest, current := wire }
  | called (w : Switchboard) {x : Call} {frames : List Frame} (hx : x.Aside)
      (hframes : ∀ f ∈ frames, f.Aside) : Move A w (w.call x frames)
  | pushed (w : Switchboard) {f : Frame} (hf : f.Aside) : Move A w (w.push [f])
  | crashing (w : Switchboard) {name : HostName} (keys : List Key) (hA : A (.crashed name)) :
      Move A w (w.push [.crash name keys])
  -- scheduled callbacks
  | scheduled (w : Switchboard) (h : Handle) :
      Move A w { w with soon := w.soon ++ [(h, w.current)] }
  | ran (w : Switchboard) {i : Nat} {h : Handle} {host : HostName}
      (hi : w.soon[i]? = some (h, host)) (hsettled : w.Settled h) :
      Move A w { w with soon := w.soon.eraseIdx i }
  -- transports
  | metered (w : Switchboard) {t : Nat} {T : StreamTransport}
      {f : StreamTransport → StreamTransport} (hT : w.transports[t]? = some T)
      (hmeter : Meter A t T f none) : Move A w (w.modify t f)
  | flowed (w : Switchboard) {t : Nat} {T : StreamTransport}
      {f : StreamTransport → StreamTransport} {x : Call} (hT : w.transports[t]? = some T)
      (hmeter : Meter A t T f (some x)) : Move A w ((w.modify t f).call x [.flowCall])
  | wrote (w : Switchboard) {t : Nat} {data : Bytes} (hA : A (.wrote t data)) :
      Move A w { w with calls := w.calls ++ [(w.current, .wrote t data)] }
  | adopted (w : Switchboard) {t : Nat} (protocol : Protocol)
      (hbegun : ∀ T, w.transports[t]? = some T → T.begun = true) :
      Move A w (w.modify t (.adopted protocol))
  | shut (w : Switchboard) {t : Nat} {exc : Option Exc} {host : HostName}
      (hsoon : (.finish t exc, host) ∈ w.soon) : Move A w (w.modify t .shut)
  | finished (w : Switchboard) {t : Nat} {T : StreamTransport} (hT : w.transports[t]? = some T)
      (hopen : T.closed = false) (exc : Option Exc)
      (hcause : w.stack = [] ∨ ∃ name, A (.crashed name)) : Move A w (w.finish t T exc)
  -- inbound
  | paused (w : Switchboard) {t : Nat} {T : StreamTransport} (hT : w.transports[t]? = some T)
      (hopen : T.closed = false) : Move A w (w.modify t (.reading true))
  | resumed (w : Switchboard) {t : Nat} {T : StreamTransport} (hT : w.transports[t]? = some T)
      (hopen : T.closed = false) (hA : A (.resumed t)) :
      Move A w ((w.modify t (.reading false)).push [.drain t])
  | next (w : Switchboard) {k : Key} {rest : List Frame} {q : InOrder} {p : Packet}
      {w' : Switchboard} (hstack : w.stack = .push k :: rest) (hready : w.Ready k q p)
      (hdispatch : Dispatched p (w.take k q) w') : Move A w w'
  | drained (w : Switchboard) {t : Nat} {rest : List Frame} {T : StreamTransport} {chunk : Bytes}
      {chunks : List Bytes} {w' : Switchboard} (hstack : w.stack = .drain t :: rest)
      (hT : w.transports[t]? = some T) (hopen : T.closed = false)
      (hreading : T.readPaused = false) (hbacklog : T.backlog = chunk :: chunks)
      (hhand : Hand t chunk
        ((w.modify t (.backlogged chunks)).push [.consumed t chunk.length]) w') : Move A w w'
  | ended (w : Switchboard) {t : Nat} {rest : List Frame} {T : StreamTransport} {w' : Switchboard}
      (hstack : w.stack = .drain t :: rest) (hT : w.transports[t]? = some T)
      (hopen : T.closed = false) (hreading : T.readPaused = false) (hbacklog : T.backlog = [])
      (heof : T.eofPending = true)
      (hending : Ending t (({ w with stack := rest } : Switchboard).modify t (.ending false)) w') :
      Move A w w'
  | fed (w : Switchboard) {t : Nat} {view : Bytes} {rest : List Frame}
      (hstack : w.stack = .bufferUpdated t view :: rest) (hview : view ≠ []) :
      Move A w (({ w with stack := rest } : Switchboard).call (.getBuffer t view.length)
        [.getBuffer t view])
  | roomed (w : Switchboard) {t : Nat} {view : Bytes} {rest : List Frame} (taken : Nat)
      (hstack : w.stack = .getBuffer t view :: rest) :
      Move A w (({ w with stack := rest } : Switchboard).call (.bufferUpdated t (view.take taken))
        [.bufferUpdated t (view.drop taken)])
  -- connects
  | opened (w : Switchboard) {x : Connect} {uid : Nat} {tr : Traffic} (hfut : x.fut = .pending)
      (hends : x.loc ≠ x.remote) (hloc : x.loc.1 = w.current) (hremote : w.Known x.remote.1)
      (hpost : Traffic.Posted ⟨.syn, x.loc.1, x.remote.1, x.loc.2, x.remote.2, w.connects.length, 0,
        [], uid⟩ w.traffic tr) :
      Move A w { w with
        connects := w.connects ++ [x]
        pending := w.pending.insert w.connects.length ()
        traffic := tr }
  | cancelled (w : Switchboard) {conn : Nat} (hA : A (.cancelled conn)) :
      Move A w (w.connect conn (.settle .cancelled))
  | begunClient (w : Switchboard) {conn t : Nat} {rest : List Frame} (protocol : Protocol)
      (hstack : w.stack = .acceptFactory conn t :: rest) :
      Move A w ((({ w with stack := rest } : Switchboard).modify t (.started protocol)).call
        (.connectionMade t) [.acceptMade conn t])
  | begunServer (w : Switchboard) {t : Nat} {rest : List Frame} (protocol : Protocol)
      (hstack : w.stack = .synFactory t :: rest) :
      Move A w ((({ w with stack := rest } : Switchboard).modify t (.started protocol)).call
        (.connectionMade t) [])
  | connected (w : Switchboard) {conn t : Nat} {rest : List Frame}
      (hstack : w.stack = .acceptMade conn t :: rest) :
      Move A w (w.connect conn (.settle (.connected t)))
  | answered (w : Switchboard) {conn : Nat} {x : Connect} (hx : w.connects[conn]? = some x)
      (hfut : x.fut ≠ .pending) : Move A w (w.connect conn fun x => { x with awaited := false })
  | forgotten (w : Switchboard) {conn : Nat} {x : Connect} (hx : w.connects[conn]? = some x)
      (hfut : x.fut ≠ .pending) : Move A w (w.forget conn)

/-- Any number of moves. -/
def Moves (A : Occasion → Prop) : Switchboard → Switchboard → Prop :=
  Relation.ReflTransGen (Move A)

variable {A : Occasion → Prop}

theorem Moves.refl (w : Switchboard) : Moves A w w := Relation.ReflTransGen.refl

theorem Moves.of_eq {w w' : Switchboard} (heq : w' = w) : Moves A w w' := by
  rw [heq]
  exact .refl w

theorem Move.moves {w w' : Switchboard} (hmove : Move A w w') : Moves A w w' :=
  Relation.ReflTransGen.single hmove

theorem Moves.trans {w w' w'' : Switchboard} (h : Moves A w w') (h' : Moves A w' w'') :
    Moves A w w'' :=
  Relation.ReflTransGen.trans h h'

/-- What every move keeps, the moves keep. -/
theorem Moves.invariant {I : Switchboard → Prop} (hmove : ∀ w w', Move A w w' → I w → I w')
    {w w' : Switchboard} (hmoves : Moves A w w') (hw : I w) : I w' := by
  induction hmoves with
  | refl => exact hw
  | tail _ hlast ih => exact hmove _ _ hlast ih

end Switchboard

/-! ## The switchboard of a network -/

variable {ρ : Type}

/-- The switchboard of a network. -/
def SimNetwork.board (s : SimNetwork ρ) : Switchboard where
  traffic := s.traffic
  alive := s.alive
  owners := s.names
  sockets := s.datagramTransports.map (·.loc.1)
  transports := s.transports
  streams := s.streams
  inbound := s.inbound
  connects := s.connects
  pending := s.pending
  soon := s.soon
  stack := s.stack
  calls := s.calls
  current := s.current

end SimLoop.Net
