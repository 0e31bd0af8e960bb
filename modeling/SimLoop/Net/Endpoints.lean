/-
  Net/Endpoints.lean --- dispatch of arriving packets, connections, servers, datagram
  endpoints, `crash` and `restart` (`_net.py`, and `_SimDatagramTransport` of
  `_transports.py`).
-/
import SimLoop.Net.Streams

set_option autoImplicit false

namespace SimLoop.Net

open SimLoop.Foundation

variable {ρ : Type}

namespace SimNetwork

section

variable (R : RandomSource ρ)

/-! ## Dispatch of stream packets -/

/-- A new stream transport, registered under its own key. -/
def register (T : StreamTransport) (s : SimNetwork ρ) : SimNetwork ρ :=
  { s with
    transports := s.transports ++ [T]
    streams := s.streams.insert T.key s.transports.length }

/-- Resolve the future of a connect, unless it is done. -/
def setFut (conn : Nat) (fut : Fut) (s : SimNetwork ρ) : SimNetwork ρ :=
  { s with
    connects := s.connects.modify conn fun c =>
      if c.fut = .pending then { c with fut := fut } else c }

/-- `_handle_syn`. -/
def handleSyn (p : Packet) (s : SimNetwork ρ) : SimNetwork ρ :=
  let loc : Addr := (p.dst, p.dstPort)
  let remote : Addr := (p.src, p.srcPort)
  match s.listeners.get? loc with
  | none => (sendStream R .refuse loc remote p.conn 0 [] s).back
  | some _ =>
    let t := s.transports.length
    let s := register { conn := p.conn, loc := loc, remote := remote,
                        born := s.incarnation loc.1 } s
    (sendStream R .accept loc remote p.conn 0 [] s).call .factory [.synFactory t]

/-- The accept and refuse branch of `_dispatch_ready`. -/
def handleAnswer (p : Packet) (s : SimNetwork ρ) : SimNetwork ρ :=
  match s.pending.get? p.conn, s.connects[p.conn]? with
  | some (), some c =>
    let s := { s with pending := s.pending.erase p.conn }
    if c.fut ≠ .pending then s.back
    else if p.kind = .accept then
      let t := s.transports.length
      (register { conn := p.conn, loc := c.loc, remote := c.remote,
                  born := s.incarnation c.loc.1 } s).call .factory [.acceptFactory p.conn t]
    else
      (setFut p.conn (.failed (.error .connectionRefused
        s!"connect to {c.remote} refused")) s).back
  | _, _ => s.back

/-- `_dispatch_ready`. -/
def dispatchReady (p : Packet) (s : SimNetwork ρ) : SimNetwork ρ :=
  match p.kind with
  | .syn => handleSyn R p s
  | .accept => handleAnswer p s
  | .refuse => handleAnswer p s
  | _ =>
    match s.streams.get? p.key with
    | none => s.back
    | some t =>
      match p.kind with
      | .data => dataArrived t p.payload s
      | .fin => eofArrived t s
      | .rst => resetArrived t s
      | _ => s.back

/-- One turn of the loop of `_InOrder.push`. -/
def pushNext (k : Key) (s : SimNetwork ρ) : SimNetwork ρ :=
  match s.inbound.get? k with
  | none => s.back
  | some queue =>
    match queue.early.get? queue.next with
    | none => s.back
    | some p =>
      let queue := { queue with next := queue.next + 1, early := queue.early.erase queue.next }
      dispatchReady R p
        { s with inbound := s.inbound.insert k queue, stack := .push k :: s.stack }

/-- `_dispatch_stream`. -/
def dispatchStream (p : Packet) (s : SimNetwork ρ) : SimNetwork ρ :=
  let queue := (s.inbound.get? p.key).getD ⟨0, Dict.empty⟩
  let queue := { queue with early := queue.early.insert p.seq p }
  pushNext R p.key { s with inbound := s.inbound.insert p.key queue }

/-! ## Connections -/

/-- The port a new connection leaves from.  The ends of a self-connection cannot share
theirs. -/
def sourcePort (host : HostName) (port : Nat) (s : SimNetwork ρ) : Nat × SimNetwork ρ :=
  let (srcPort, s) := s.ephemeral
  if host = s.current ∧ srcPort = port then s.ephemeral else (srcPort, s)

/-- `_open_connection`, up to the point where it waits. -/
def openConnection (host : String) (port : Nat) (s : SimNetwork ρ) : SimNetwork ρ :=
  match s.resolve host with
  | .error e => s.throw e
  | .ok host =>
    let src : Addr := (s.current, (sourcePort host port s).1)
    let conn := s.nextConn
    let s := (sourcePort host port s).2
    let s := { s with
      connects := s.connects ++ [{ loc := src, remote := (host, port) }]
      pending := s.pending.insert conn () }
    (sendStream R .syn src (host, port) conn 0 [] s).back

/-- `_open_connection`, from the point where its future is done: `thrown` says that the
waiting task was cancelled and gets `CancelledError` in place of the result. -/
def resumeConnection (conn : Nat) (thrown : Bool) (s : SimNetwork ρ) : SimNetwork ρ :=
  match s.connects[conn]? with
  | none => s.back
  | some c =>
    if !c.awaited ∨ c.fut = .pending then s.back
    else
      let s := { s with connects := s.connects.modify conn fun c => { c with awaited := false } }
      let cancelledError : Exc := .error .cancelled ""
      match thrown, c.fut with
      | true, .connected t =>
        ({ abort R t s with pending := s.pending.erase conn } : SimNetwork ρ).throw cancelledError
      | true, _ => ({ s with pending := s.pending.erase conn } : SimNetwork ρ).throw cancelledError
      | false, .failed e => ({ s with pending := s.pending.erase conn } : SimNetwork ρ).throw e
      | false, .cancelled =>
        ({ s with pending := s.pending.erase conn } : SimNetwork ρ).throw cancelledError
      | false, _ => ({ s with pending := s.pending.erase conn } : SimNetwork ρ).back

end

/-! ## Servers -/

/-- `_start_server`. -/
def startServer (host : Option String) (port : Nat) (s : SimNetwork ρ) : SimNetwork ρ :=
  match s.bindAddress host port with
  | .error e => s.throw e
  | .ok bind =>
    if s.listeners.contains bind then
      s.throw (.error .osError s!"address {quoted bind.1}:{bind.2} already in use")
    else
      ({ s with
        listeners := s.listeners.insert bind s.servers.length
        servers := s.servers ++
          [{ host := bind.1, port := bind.2, born := s.incarnation bind.1 }] } :
        SimNetwork ρ).back

/-- `SimServer.close`. -/
def closeServer (v : Nat) (s : SimNetwork ρ) : SimNetwork ρ :=
  match s.servers[v]? with
  | none => s
  | some server =>
    if server.closed then s
    else { s with
      listeners := s.listeners.erase (server.host, server.port)
      servers := s.servers.modify v fun x => { x with closed := true } }

/-- The transports `close_clients` and `abort_clients` go through. -/
def clients (v : Nat) (s : SimNetwork ρ) : List Nat :=
  match s.servers[v]? with
  | none => []
  | some server =>
    (s.streams.entries.map (·.2)).filter fun t =>
      match s.transports[t]? with
      | none => false
      | some T => decide (T.loc = (server.host, server.port))

/-- `SimServer.close_clients`. -/
def closeClients (R : RandomSource ρ) (v : Nat) (s : SimNetwork ρ) : SimNetwork ρ :=
  (s.clients v).foldl (fun s t => close R t s) s

/-- `SimServer.abort_clients`. -/
def abortClients (R : RandomSource ρ) (v : Nat) (s : SimNetwork ρ) : SimNetwork ρ :=
  (s.clients v).foldl (fun s t => abort R t s) s

/-! ## Datagram endpoints -/

/-- `_open_datagram_endpoint`, up to the call of the factory. -/
def openDatagramEndpoint (loc : Option (Option String × Nat)) (remote : Option (String × Nat))
    (s : SimNetwork ρ) : SimNetwork ρ :=
  let bound : Except Exc Addr × SimNetwork ρ :=
    match loc with
    | none =>
      let (port, s) := s.ephemeral
      (.ok (s.current, port), s)
    | some (host, port) => (s.bindAddress host port, s)
  let s := bound.2
  match bound.1 with
  | .error e => s.throw e
  | .ok bind =>
    if s.datagrams.contains bind then
      s.throw (.error .osError s!"address {quoted bind.1}:{bind.2} already in use")
    else
      let peer : Except Exc (Option Addr) :=
        match remote with
        | none => .ok none
        | some (host, port) =>
          match s.resolve host with
          | .error e => .error e
          | .ok name => .ok (some (name, port))
      match peer with
      | .error e => s.throw e
      | .ok peer =>
        let d := s.datagramTransports.length
        ({ s with
          datagramTransports := s.datagramTransports ++
            [{ loc := bind, remote := peer, born := s.incarnation bind.1 }]
          datagrams := s.datagrams.insert bind d } : SimNetwork ρ).call
            .factory [.datagramFactory d]

/-- `_begin` of a datagram transport. -/
def beginDatagram (d : Nat) (protocol : Protocol) (s : SimNetwork ρ) : SimNetwork ρ :=
  (s.setDatagram d fun D => { D with protocol := some protocol, begun := true }).call
    (.datagramMade d) []

/-- `_datagram_arrived`. -/
def datagramArrived (d : Nat) (data : Bytes) (addr : Addr) (s : SimNetwork ρ) : SimNetwork ρ :=
  match s.datagramTransports[d]? with
  | none => s.back
  | some D =>
    if D.closing then s.back
    else if D.remote.any (fun r => r ≠ addr) then s.back
    else
      match D.protocol with
      | none => s.throw (noProtocol "datagram_received")
      | some _ => s.call (.datagramReceived d data addr) []

/-- `sendto`. -/
def sendto (R : RandomSource ρ) (d : Nat) (data : Bytes) (addr : Option (String × Nat))
    (s : SimNetwork ρ) : SimNetwork ρ :=
  match s.datagramTransports[d]? with
  | none => s.back
  | some D =>
    if D.closing then s.throw (.error .runtimeError "Cannot send on closing transport")
    else
      match addr.or D.remote with
      | none => s.throw (.error .valueError "no address is set")
      | some target =>
        if D.remote.any (fun r => target ≠ r) then
          s.throw (.error .valueError s!"Invalid address: must be None or {D.remote}")
        else
          match sendDatagram R D.loc target data s with
          | (.error e, s) => s.throw e
          | (.ok (), s) => s.back

/-- `close` of a datagram transport. -/
def closeDatagram (d : Nat) (s : SimNetwork ρ) : SimNetwork ρ :=
  match s.datagramTransports[d]? with
  | none => s
  | some D =>
    if D.closing then s
    else
      let s := s.setDatagram d fun D => { D with closing := true }
      ({ s with datagrams := s.datagrams.erase D.loc } : SimNetwork ρ).callSoon (.lost d)

/-- `_lost`. -/
def lost (d : Nat) (s : SimNetwork ρ) : SimNetwork ρ :=
  match s.datagramTransports[d]? with
  | none => s.back
  | some D =>
    let s := s.setDatagram d fun D => { D with protocol := none }
    match D.protocol with
    | none => s.back
    | some _ => s.call (.datagramLost d) []

/-! ## Tasks -/

/-- `_register_task`. -/
def registerTask (pinned : HostName) (s : SimNetwork ρ) : SimNetwork ρ :=
  match s.roster.get? s.current with
  | none => s.throw (.error .keyError (quoted s.current))
  | some owner =>
    ({ s with
      tasks := s.tasks ++ [{ registered := s.current, pinned := pinned }]
      roster := s.roster.insert s.current (owner ++ [s.tasks.length]) } : SimNetwork ρ).back

/-- `create_task`: without a factory the task takes the context it is given, or a copy of
the one it is made in; `made` is the host that the context of a factory's task names. -/
def createTask (made context : Option HostName) (s : SimNetwork ρ) : SimNetwork ρ :=
  registerTask (made.getD (context.getD s.current)) s

/-- `Host.create_task`. -/
def hostCreateTask (name : HostName) (made : Option HostName) (s : SimNetwork ρ) :
    SimNetwork ρ :=
  { createTask made none { s with current := name } with current := s.current }

/-- `task.cancel()`, as far as `crash` asks for it. -/
def cancelTask (i : Nat) (s : SimNetwork ρ) : SimNetwork ρ :=
  { s with tasks := s.tasks.modify i fun T => if T.done then T else { T with asked := T.asked + 1 } }

/-- The done callback of a registered task, `owner.remove`. -/
def forgetTask (i : Nat) (s : SimNetwork ρ) : SimNetwork ρ :=
  match s.tasks[i]? with
  | none => s
  | some T =>
    { s with roster := s.roster.insert T.registered (((s.roster.get? T.registered).getD []).erase i) }

/-! ## Crash and restart -/

/-- What `crash` does once the streams are gone: the held packets of the host are lost. -/
def crashEnd (name : HostName) (s : SimNetwork ρ) : SimNetwork ρ :=
  let gone := fun (p : Packet) => decide (name = p.src ∨ name = p.dst)
  let s := (s.held.filter gone).foldl (fun s p => s.tracePacket .lost p) s
  let (uid, s) := s.newUid
  ({ s with
    held := s.held.filter (fun p => !gone p)
    trace := s.trace ++ [⟨s.now, uid, .crash name⟩] } : SimNetwork ρ).back

/-- One turn of the loop over the streams in `crash`. -/
def crashNext (name : HostName) (keys : List Key) (s : SimNetwork ρ) : SimNetwork ρ :=
  match keys with
  | [] => crashEnd name s
  | k :: rest =>
    match s.streams.get? k with
    | none => s.throw (.error .keyError s!"{k}")
    | some t => finish t none { s with stack := .crash name rest :: s.stack }

/-- What `crash` does before it gets to the streams, but for the disk of the host.
Cancelling a task cancels the future it waits for: `waiting` are the connects that the
tasks of the host were waiting for. -/
def crashBegin (name : HostName) (waiting : List Nat) (s : SimNetwork ρ) : SimNetwork ρ :=
  let s := { s with alive := s.alive.insert name false }
  let s := ((s.roster.get? name).getD []).foldl (fun s i => cancelTask i s) s
  let s := waiting.foldl (fun s conn => setFut conn .cancelled s) s
  let s := ((s.listeners.entries.filter fun e => e.1.1 = name).map (·.2)).foldl
    (fun s v => closeServer v s) s
  ((s.datagrams.keys.filter fun a => a.1 = name)).foldl
    (fun (s : SimNetwork ρ) a => { s with datagrams := s.datagrams.erase a }) s

/-- `crash`. -/
def crash (name : HostName) (waiting : List Nat) (s : SimNetwork ρ) : SimNetwork ρ :=
  match s.requireHost name with
  | .error e => s.throw e
  | .ok name =>
    if name = driver then s.throw (.error .valueError "the driver host cannot crash")
    else if !s.isAlive name then
      s.throw (.error .valueError s!"host {quoted name} already crashed")
    else
      let s := crashBegin name waiting s
      crashNext name (s.streams.keys.filter fun k => k.2.1 = name) s

/-- `restart`. -/
def restart (name : HostName) (s : SimNetwork ρ) : SimNetwork ρ :=
  match s.requireHost name with
  | .error e => s.throw e
  | .ok name =>
    if s.isAlive name then s.throw (.error .valueError s!"host {quoted name} is not crashed")
    else
      let (uid, s) := s.newUid
      ({ s with
        alive := s.alive.insert name true
        incarnation := fun h => if h = name then s.incarnation h + 1 else s.incarnation h
        trace := s.trace ++ [⟨s.now, uid, .restart name⟩] } : SimNetwork ρ).back

end SimNetwork

end SimLoop.Net
