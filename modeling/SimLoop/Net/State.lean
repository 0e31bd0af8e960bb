/-
  Net/State.lean --- the state of a `SimNetwork` and of the objects it owns
  (`_net.py`, `_transports.py`).

  Protocols, factories and tasks are code of the program and stay open: whenever
  the network calls one of them, control passes to the program, and a stack of
  `Frame`s says where the network goes on once it returns or raises.  The loop is
  open in the same way: its timers and scheduled callbacks are kept here as the
  packets in flight and the handles still to run, and it may run them in any order.

  Some fields are kept for the reader and read by no function of the source: `sent`
  (every packet, in the order it was made), `landed` (every delivery step that was
  run), `calls` (every call across the protocol interface), how often `crash` asked a
  task to cancel and, on hosts and endpoints, the incarnation.
-/
import SimLoop.Loop.Trace
import SimLoop.Foundation.Dict
import SimLoop.Foundation.Random
import Mathlib.Data.Finset.Basic
import Mathlib.Data.Sym.Sym2

set_option autoImplicit false

namespace SimLoop.Net

open SimLoop.Foundation

/-! ## Packets -/

/-- `_Addr`: a host and a port. -/
abbrev Addr := HostName × Nat

/-- The payload of a packet. -/
abbrev Bytes := List UInt8

/-- `_Packet.kind`. -/
inductive PacketKind where
  | dgram
  | syn
  | accept
  | refuse
  | data
  | fin
  | rst
  deriving DecidableEq, Repr

/-- `_Packet`.  `conn` and `seq` are -1 for datagrams in the source, where nothing reads
them; here they are 0. -/
structure Packet where
  kind : PacketKind
  src : HostName
  dst : HostName
  srcPort : Nat
  dstPort : Nat
  conn : Nat
  seq : Nat
  payload : Bytes
  uid : Nat
  deriving DecidableEq, Repr

/-- One direction of a connection, named by the end it leads to: the keys of `_streams`
and `_inbound`. -/
abbrev Key := Nat × Addr

/-- The direction a stream packet travels in. -/
def Packet.key (p : Packet) : Key := (p.conn, (p.dst, p.dstPort))

/-- A packet on its way: the timer that will deliver it. -/
structure Flight where
  packet : Packet
  due : ℚ
  deriving DecidableEq

/-- `_Link`: what is set for one ordered pair of hosts. -/
structure Link where
  latency : Option (ℚ × ℚ) := none
  drop : Option ℚ := none
  duplicate : Option ℚ := none
  deriving DecidableEq

/-- `_InOrder`. -/
structure InOrder where
  next : Nat
  early : Dict Nat Packet

/-! ## Trace events -/

/-- What happened to a packet. -/
inductive Verb where
  | send
  | drop
  | dup
  | hold
  | release
  | lost
  | deliver
  deriving DecidableEq, Repr

/-- The label of a net event. -/
inductive NetLabel where
  | packet (verb : Verb) (src dst : HostName)
  | crash (name : HostName)
  | restart (name : HostName)
  deriving DecidableEq, Repr

/-- An event of kind `net`. -/
structure NetEvent where
  when_ : ℚ
  uid : Nat
  label : NetLabel
  deriving DecidableEq

/-! ## Exceptions and values -/

/-- The classes of the exceptions the network raises itself. -/
inductive ErrorClass where
  | valueError
  | typeError
  | osError
  | runtimeError
  | keyError
  | attributeError
  | connectionRefused
  | connectionReset
  | cancelled
  | invalidState
  deriving DecidableEq, Repr

/-- An exception: `SystemExit` or `KeyboardInterrupt`, another one of the program, or
one of the network's own. -/
inductive Exc where
  | exit
  | user
  | error (cls : ErrorClass) (message : String)
  deriving DecidableEq, Repr

/-- What the network reads off a value that program code returns: whether it is a
`BufferedProtocol`, its length and its truth value. -/
structure Value where
  buffered : Bool := false
  len : Nat := 0
  truth : Bool := false
  deriving DecidableEq, Repr

/-! ## Endpoints -/

/-- A protocol object, as far as a transport looks at it. -/
structure Protocol where
  buffered : Bool
  deriving DecidableEq, Repr

/-- `_SimStreamTransport`.  `begun` says that `connection_made` has been called, which is
when program code gets hold of the transport. -/
structure StreamTransport where
  conn : Nat
  loc : Addr
  remote : Addr
  protocol : Option Protocol := none
  buffered : Bool := false
  outSeq : Nat := 1
  closing : Bool := false
  closed : Bool := false
  eofSent : Bool := false
  readPaused : Bool := false
  backlog : List Bytes := []
  eofPending : Bool := false
  writeBuffer : Nat := 0
  protocolPaused : Bool := false
  limits : Option (Nat × Nat) := none
  peerClosed : Bool := false
  begun : Bool := false
  born : Nat
  deriving DecidableEq

namespace StreamTransport

/-- The direction that leads to this end. -/
def key (T : StreamTransport) : Key := (T.conn, T.loc)

/-- The direction that leads to the other end. -/
def outKey (T : StreamTransport) : Key := (T.conn, T.remote)

end StreamTransport

/-- `_SimDatagramTransport`. -/
structure DatagramTransport where
  loc : Addr
  remote : Option Addr
  protocol : Option Protocol := none
  closing : Bool := false
  begun : Bool := false
  born : Nat
  deriving DecidableEq

/-- `SimServer`; `closed` says that `_closed_fut` is done. -/
structure Server where
  host : HostName
  port : Nat
  closed : Bool := false
  born : Nat
  deriving DecidableEq

/-- The future of a `_Connect`. -/
inductive Fut where
  | pending
  | connected (t : Nat)
  | failed (e : Exc)
  | cancelled
  deriving DecidableEq, Repr

/-- `_Connect`, and whether the coroutine that waits for it still does. -/
structure Connect where
  fut : Fut := .pending
  loc : Addr
  remote : Addr
  awaited : Bool := true
  deriving DecidableEq

/-! ## Tasks -/

/-- A task made by `create_task`: the host it is registered with, the one its context is
pinned to, under which its steps run, whether it is done, and how often a crash asked it
to cancel. -/
structure Task where
  registered : HostName
  pinned : HostName
  done : Bool := false
  asked : Nat := 0
  deriving DecidableEq

/-! ## Control -/

/-- Where the network goes on when the code above returns. -/
inductive Frame where
  /-- Code of the program: a protocol's method, a factory, a handler or a task's step. -/
  | code
  /-- `_deliver`, about to reset the current host. -/
  | deliver
  /-- The loop of `_InOrder.push`. -/
  | push (k : Key)
  /-- The accept branch of `_dispatch_ready`, waiting for the factory. -/
  | acceptFactory (conn t : Nat)
  /-- The same branch, waiting for `connection_made`. -/
  | acceptMade (conn t : Nat)
  /-- `_handle_syn`, waiting for the factory. -/
  | synFactory (t : Nat)
  /-- `_deliver` of a transport, waiting for `get_buffer`; `view` is still to be taken. -/
  | getBuffer (t : Nat) (view : Bytes)
  /-- The same loop, waiting for `buffer_updated`; `view` is what comes after. -/
  | bufferUpdated (t : Nat) (view : Bytes)
  /-- `_data_arrived` or `resume_reading`, about to credit the sender. -/
  | consumed (t : Nat) (count : Nat)
  /-- The loop of `resume_reading`. -/
  | drain (t : Nat)
  /-- `_eof_arrived`, waiting for `eof_received`. -/
  | eofReceived (t : Nat)
  /-- `pause_writing` or `resume_writing` inside their `try`. -/
  | flowCall
  /-- `call_exception_handler`, waiting for the program's handler. -/
  | report
  /-- The loop of `set_flow_control(enabled=False)`. -/
  | release (ts : List Nat)
  /-- The loop over the streams in `crash`. -/
  | crash (name : HostName) (keys : List Key)
  /-- `_open_datagram_endpoint`, waiting for the factory. -/
  | datagramFactory (d : Nat)
  deriving DecidableEq

/-- Who is at work: the program (or the loop, when the stack is empty), or the network,
with what the code above the top frame came back with. -/
inductive Signal where
  | run
  | returned (v : Value)
  | raised (e : Exc)
  deriving DecidableEq

/-- A call across the protocol interface, or a `write` that was accepted. -/
inductive Call where
  | wrote (t : Nat) (data : Bytes)
  | connectionMade (t : Nat)
  | dataReceived (t : Nat) (data : Bytes)
  | getBuffer (t : Nat) (hint : Nat)
  | bufferUpdated (t : Nat) (data : Bytes)
  | eofReceived (t : Nat)
  | connectionLost (t : Nat) (exc : Option Exc)
  | pauseWriting (t : Nat)
  | resumeWriting (t : Nat)
  | datagramMade (d : Nat)
  | datagramReceived (d : Nat) (data : Bytes) (addr : Addr)
  | datagramLost (d : Nat)
  | factory
  | exceptionHandler
  deriving DecidableEq

/-- A delivery step that was run: the packet, and how long the trace was when it began. -/
structure Landing where
  packet : Packet
  start : Nat
  deriving DecidableEq

/-- A callback the network has scheduled with `call_soon`. -/
inductive Handle where
  | finish (t : Nat) (exc : Option Exc)
  | lost (d : Nat)
  deriving DecidableEq

/-! ## The network -/

/-- `SimNetwork`. -/
structure SimNetwork (ρ : Type) where
  rng : ρ
  now : ℚ
  trace : List NetEvent
  -- hosts
  addresses : Dict HostName String
  names : Dict String HostName
  alive : Dict HostName Bool
  incarnation : HostName → Nat
  -- configuration
  defaultLatency : ℚ × ℚ
  defaultDrop : ℚ
  defaultDuplicate : ℚ
  flowControl : Bool
  flowDefaults : Nat × Nat
  links : Dict (HostName × HostName) Link
  cuts : Finset (Sym2 HostName)
  -- the wire
  inFlight : List Flight
  held : List Packet
  sent : List Packet
  landed : List Landing
  nextUid : Nat
  nextPort : Nat
  -- endpoints
  transports : List StreamTransport
  datagramTransports : List DatagramTransport
  servers : List Server
  connects : List Connect
  streams : Dict Key Nat
  inbound : Dict Key InOrder
  datagrams : Dict Addr Nat
  listeners : Dict Addr Nat
  pending : Dict Nat Unit
  -- tasks
  tasks : List Task
  roster : Dict HostName (List Nat)
  -- control
  soon : List (Handle × HostName)
  current : HostName
  stack : List Frame
  signal : Signal
  calls : List (HostName × Call)

variable {ρ : Type}

namespace SimNetwork

/-- `_next_conn`: connections are numbered as they are opened. -/
def nextConn (s : SimNetwork ρ) : Nat := s.connects.length

/-- A host is registered and alive. -/
def isAlive (s : SimNetwork ρ) (name : HostName) : Bool := (s.alive.get? name).getD false

/-- A host is registered and was crashed.  Both ends of a packet are registered, so that
for them this is the opposite of `isAlive`. -/
def isDown (s : SimNetwork ρ) (name : HostName) : Bool := s.alive.get? name = some false

/-- Change one stream transport. -/
def setTransport (s : SimNetwork ρ) (t : Nat) (f : StreamTransport → StreamTransport) :
    SimNetwork ρ :=
  { s with transports := s.transports.modify t f }

/-- Change one datagram transport. -/
def setDatagram (s : SimNetwork ρ) (d : Nat) (f : DatagramTransport → DatagramTransport) :
    SimNetwork ρ :=
  { s with datagramTransports := s.datagramTransports.modify d f }

/-- Call into the program: `frames` wait for what comes back. -/
def call (s : SimNetwork ρ) (c : Call) (frames : List Frame) : SimNetwork ρ :=
  { s with
    stack := .code :: frames ++ s.stack
    signal := .run
    calls := s.calls ++ [(s.current, c)] }

/-- Return to the frame on top. -/
def back (s : SimNetwork ρ) (v : Value := {}) : SimNetwork ρ :=
  { s with signal := .returned v }

/-- Raise to the frame on top. -/
def throw (s : SimNetwork ρ) (e : Exc) : SimNetwork ρ :=
  { s with signal := .raised e }

/-- `loop.call_soon`: the handle runs under the host that schedules it. -/
def callSoon (s : SimNetwork ρ) (h : Handle) : SimNetwork ρ :=
  { s with soon := s.soon ++ [(h, s.current)] }

end SimNetwork

end SimLoop.Net
