/-
  Net/Streams.lean --- `_SimStreamTransport` (`_transports.py`).

  A method of the transport `t` is a function of the network.  A method that may
  call the program ends with a signal: it returns, it raises, or it calls and leaves
  the frame that goes on.  `close`, `abort` and `_send` call nothing.
-/
import SimLoop.Net.Wire

set_option autoImplicit false

namespace SimLoop.Net

open SimLoop.Foundation

variable {ρ : Type}

namespace SimNetwork

/-- `_check_limits`: the pair is (low, high), as in the source. -/
def checkLimits (high low : Option Int) : Except Exc (Nat × Nat) :=
  let high := high.getD (match low with | none => 64 * 1024 | some low => 4 * low)
  let low := low.getD (high / 4)
  if high ≥ low ∧ low ≥ 0 then .ok (low.toNat, high.toNat)
  else .error (.error .valueError s!"high ({high}) must be >= low ({low}) must be >= 0")

/-! ## Outbound -/

section

variable (R : RandomSource ρ)

/-- `_send`. -/
def send (t : Nat) (kind : PacketKind) (payload : Bytes) (s : SimNetwork ρ) : SimNetwork ρ :=
  match s.transports[t]? with
  | none => s
  | some T =>
    sendStream R kind T.loc T.remote T.conn T.outSeq payload
      (s.setTransport t fun T => { T with outSeq := T.outSeq + 1 })

/-- `write_eof`. -/
def writeEof (t : Nat) (s : SimNetwork ρ) : SimNetwork ρ :=
  match s.transports[t]? with
  | none => s
  | some T =>
    if T.eofSent ∨ T.closed then s
    else send R t .fin [] (s.setTransport t fun T => { T with eofSent := true })

/-- `close`. -/
def close (t : Nat) (s : SimNetwork ρ) : SimNetwork ρ :=
  match s.transports[t]? with
  | none => s
  | some T =>
    if T.closing ∨ T.closed then s
    else
      let s := s.setTransport t fun T => { T with closing := true }
      let s := if T.eofSent then s
        else send R t .fin [] (s.setTransport t fun T => { T with eofSent := true })
      s.callSoon (.finish t none)

/-- `_force_close`. -/
def forceClose (t : Nat) (exc : Option Exc) (s : SimNetwork ρ) : SimNetwork ρ :=
  match s.transports[t]? with
  | none => s
  | some T =>
    if T.closed then s
    else
      let s := s.setTransport t fun T => { T with closing := true }
      (send R t .rst [] s).callSoon (.finish t exc)

/-- `abort`. -/
def abort (t : Nat) (s : SimNetwork ρ) : SimNetwork ρ :=
  forceClose R t none s

end

/-- `_finish`. -/
def finish (t : Nat) (exc : Option Exc) (s : SimNetwork ρ) : SimNetwork ρ :=
  match s.transports[t]? with
  | none => s.back
  | some T =>
    if T.closed then s.back
    else
      let s := s.setTransport t fun T =>
        { T with
          closed := true
          closing := true
          writeBuffer := 0
          protocolPaused := false
          protocol := none
          buffered := false }
      let s := { s with streams := s.streams.erase T.key }
      match T.protocol with
      | none => s.back
      | some _ => s.call (.connectionLost t exc) []

/-! ## Write flow control -/

/-- `_effective_limits`. -/
def effectiveLimits (s : SimNetwork ρ) (T : StreamTransport) : Nat × Nat :=
  T.limits.getD s.flowDefaults

/-- `_maybe_pause_protocol`. -/
def maybePauseProtocol (t : Nat) (s : SimNetwork ρ) : SimNetwork ρ :=
  match s.transports[t]? with
  | none => s.back
  | some T =>
    if T.writeBuffer ≤ (s.effectiveLimits T).2 ∨ T.protocolPaused ∨ T.protocol = none then s.back
    else (s.setTransport t fun T => { T with protocolPaused := true }).call
      (.pauseWriting t) [.flowCall]

/-- `_maybe_resume_protocol`. -/
def maybeResumeProtocol (t : Nat) (s : SimNetwork ρ) : SimNetwork ρ :=
  match s.transports[t]? with
  | none => s.back
  | some T =>
    if !T.protocolPaused ∨ T.writeBuffer > (s.effectiveLimits T).1 then s.back
    else
      let s := s.setTransport t fun T => { T with protocolPaused := false }
      if T.protocol = none then s.back
      else s.call (.resumeWriting t) [.flowCall]

/-- `_charge`. -/
def charge (t count : Nat) (s : SimNetwork ρ) : SimNetwork ρ :=
  if !s.flowControl then s.back
  else maybePauseProtocol t
    (s.setTransport t fun T => { T with writeBuffer := T.writeBuffer + count })

/-- `_credit`. -/
def credit (t count : Nat) (s : SimNetwork ρ) : SimNetwork ρ :=
  match s.transports[t]? with
  | none => s.back
  | some T =>
    if !s.flowControl ∨ T.closed then s.back
    else maybeResumeProtocol t
      (s.setTransport t fun T => { T with writeBuffer := T.writeBuffer - count })

/-- `_consumed`. -/
def consumed (t count : Nat) (s : SimNetwork ρ) : SimNetwork ρ :=
  if !s.flowControl then s.back
  else
    match s.transports[t]? with
    | none => s.back
    | some T =>
      match s.streams.get? T.outKey with
      | none => s.back
      | some peer => credit peer count s

/-- One turn of the loop of `set_flow_control`: `_release_flow_control` of the next
transport. -/
def releaseNext (ts : List Nat) (s : SimNetwork ρ) : SimNetwork ρ :=
  match ts with
  | [] => s.back
  | t :: rest =>
    let s := { s with stack := .release rest :: s.stack }
    match s.transports[t]? with
    | none => s.back
    | some T =>
      let s := s.setTransport t fun T =>
        { T with writeBuffer := 0, protocolPaused := false }
      if !T.protocolPaused ∨ T.protocol = none then s.back
      else s.call (.resumeWriting t) [.flowCall]

/-- `set_flow_control`. -/
def setFlowControl (enabled : Bool) (high low : Option Int) (s : SimNetwork ρ) : SimNetwork ρ :=
  let limits := if high.isSome ∨ low.isSome then checkLimits high low else .ok s.flowDefaults
  match limits with
  | .error e => s.throw e
  | .ok limits =>
    let s := { s with flowDefaults := limits, flowControl := enabled }
    if enabled then s.back
    else releaseNext (s.streams.entries.map (·.2)) s

/-- `set_write_buffer_limits`. -/
def setWriteBufferLimits (t : Nat) (high low : Option Int) (s : SimNetwork ρ) : SimNetwork ρ :=
  match checkLimits high low with
  | .error e => s.throw e
  | .ok limits => maybePauseProtocol t (s.setTransport t fun T => { T with limits := some limits })

/-- `write`. -/
def write (R : RandomSource ρ) (t : Nat) (data : Bytes) (s : SimNetwork ρ) : SimNetwork ρ :=
  match s.transports[t]? with
  | none => s.back
  | some T =>
    if T.eofSent ∨ T.closing ∨ T.closed then
      s.throw (.error .runtimeError "Cannot write to closing transport")
    else
      let s := { s with calls := s.calls ++ [(s.current, .wrote t data)] }
      if data = [] then s.back
      else charge t data.length (send R t .data data s)

/-! ## Inbound -/

/-- What `self._protocol.method(...)` raises once the protocol is gone. -/
def noProtocol (method : String) : Exc :=
  .error .attributeError s!"'NoneType' object has no attribute {quoted method}"

/-- The head of the loop of `_deliver`: ask for room as long as something is left. -/
def feed (t : Nat) (view : Bytes) (s : SimNetwork ρ) : SimNetwork ρ :=
  if view = [] then s.back
  else
    match s.transports[t]?.bind (·.protocol) with
    | none => s.throw (noProtocol "get_buffer")
    | some _ => s.call (.getBuffer t view.length) [.getBuffer t view]

/-- `_deliver`. -/
def deliverBytes (t : Nat) (data : Bytes) (s : SimNetwork ρ) : SimNetwork ρ :=
  match s.transports[t]? with
  | none => s.back
  | some T =>
    if T.buffered then feed t data s
    else
      match T.protocol with
      | none => s.throw (noProtocol "data_received")
      | some _ => s.call (.dataReceived t data) []

/-- The loop of `_deliver` once `get_buffer` has answered. -/
def takeRoom (t : Nat) (view : Bytes) (room : Nat) (s : SimNetwork ρ) : SimNetwork ρ :=
  if room = 0 then
    s.throw (.error .runtimeError "get_buffer() returned an empty buffer")
  else
    match s.transports[t]?.bind (·.protocol) with
    | none => s.throw (noProtocol "buffer_updated")
    | some _ =>
      let taken := min room view.length
      s.call (.bufferUpdated t (view.take taken)) [.bufferUpdated t (view.drop taken)]

/-- `_data_arrived`. -/
def dataArrived (t : Nat) (data : Bytes) (s : SimNetwork ρ) : SimNetwork ρ :=
  match s.transports[t]? with
  | none => s.back
  | some T =>
    if T.closed then s.back
    else if T.readPaused then
      (s.setTransport t fun T => { T with backlog := T.backlog ++ [data] }).back
    else
      deliverBytes t data { s with stack := .consumed t data.length :: s.stack }

/-- `_eof_arrived`. -/
def eofArrived (t : Nat) (s : SimNetwork ρ) : SimNetwork ρ :=
  match s.transports[t]? with
  | none => s.back
  | some T =>
    let s := s.setTransport t fun T => { T with peerClosed := true }
    if T.closed then s.back
    else if T.readPaused then (s.setTransport t fun T => { T with eofPending := true }).back
    else
      match T.protocol with
      | none => s.throw (noProtocol "eof_received")
      | some _ => s.call (.eofReceived t) [.eofReceived t]

/-- `_reset_arrived`. -/
def resetArrived (t : Nat) (s : SimNetwork ρ) : SimNetwork ρ :=
  match s.transports[t]? with
  | none => s.back
  | some T =>
    let s := s.setTransport t fun T => { T with peerClosed := true }
    if T.closed then s.back
    else finish t (some (.error .connectionReset "Connection reset by peer")) s

/-! ## Read flow control -/

/-- `pause_reading`. -/
def pauseReading (t : Nat) (s : SimNetwork ρ) : SimNetwork ρ :=
  match s.transports[t]? with
  | none => s
  | some T =>
    if T.closed ∨ T.readPaused then s
    else s.setTransport t fun T => { T with readPaused := true }

/-- The loop of `resume_reading` and what follows it. -/
def drainNext (t : Nat) (s : SimNetwork ρ) : SimNetwork ρ :=
  match s.transports[t]? with
  | none => s.back
  | some T =>
    if T.readPaused ∨ T.closed then s.back
    else
      match T.backlog with
      | chunk :: rest =>
        let s := s.setTransport t fun T => { T with backlog := rest }
        deliverBytes t chunk
          { s with stack := .consumed t chunk.length :: .drain t :: s.stack }
      | [] =>
        if T.eofPending then
          eofArrived t (s.setTransport t fun T => { T with eofPending := false })
        else s.back

/-- `resume_reading`. -/
def resumeReading (t : Nat) (s : SimNetwork ρ) : SimNetwork ρ :=
  match s.transports[t]? with
  | none => s.back
  | some T =>
    if T.closed ∨ !T.readPaused then s.back
    else drainNext t (s.setTransport t fun T => { T with readPaused := false })

/-! ## Protocols -/

/-- `_adopt`. -/
def adopt (t : Nat) (protocol : Protocol) (s : SimNetwork ρ) : SimNetwork ρ :=
  s.setTransport t fun T => { T with protocol := some protocol, buffered := protocol.buffered }

/-- `_begin`. -/
def begin (t : Nat) (protocol : Protocol) (frames : List Frame) (s : SimNetwork ρ) :
    SimNetwork ρ :=
  ((adopt t protocol s).setTransport t fun T => { T with begun := true }).call
    (.connectionMade t) frames

end SimNetwork

end SimLoop.Net
