/-
  Net/Machine.lean --- the network as a machine.

  The network works in ticks: `turn` gives the frame on top what the code above it
  came back with.  Between ticks the program is at work, or, with nothing on the
  stack, the loop.  What either may do is an `Act`; which one is done is open, so a
  theorem about every run is about every program, every order of callbacks and every
  draw.
-/
import SimLoop.Foundation.Machine
import SimLoop.Net.Endpoints

set_option autoImplicit false

namespace SimLoop.Net

open SimLoop.Foundation

variable {ρ : Type}

namespace SimNetwork

/-! ## Ticks -/

section

variable (R : RandomSource ρ)

/-- What a frame does with a value; the frame is off the stack already. -/
def proceed (f : Frame) (v : Value) (s : SimNetwork ρ) : SimNetwork ρ :=
  match f with
  | .code => { s with stack := .code :: s.stack, signal := .run }
  | .deliver => ({ s with current := wire } : SimNetwork ρ).back
  | .push k => pushNext R k s
  | .acceptFactory conn t => begin t ⟨v.buffered⟩ [.acceptMade conn t] s
  | .acceptMade conn t =>
    if s.connects[conn]?.any (fun c => c.fut = .pending) then
      (setFut conn (.connected t) s).back
    else s.throw (.error .invalidState "invalid state")
  | .synFactory t => begin t ⟨v.buffered⟩ [] s
  | .getBuffer t view => takeRoom t view v.len s
  | .bufferUpdated t view => feed t view s
  | .consumed t count => consumed t count s
  | .drain t => drainNext t s
  | .eofReceived t => if v.truth then s.back else (close R t s).back
  | .flowCall => s.back
  | .report => s.back
  | .release ts => releaseNext ts s
  | .crash name keys => crashNext name keys s
  | .datagramFactory d => beginDatagram d ⟨v.buffered⟩ s

/-- What a frame does with an exception; the frame is off the stack already. -/
def unwind (f : Frame) (e : Exc) (s : SimNetwork ρ) : SimNetwork ρ :=
  match f with
  | .code => { s with stack := .code :: s.stack, signal := .run }
  | .deliver => ({ s with current := wire } : SimNetwork ρ).throw e
  | .flowCall => if e = .exit then s.throw e else s.call .exceptionHandler [.report]
  | .report => if e = .exit then s.throw e else s.back
  | _ => s.throw e

/-- One tick of the network. -/
def turn (s : SimNetwork ρ) : SimNetwork ρ :=
  match s.signal, s.stack with
  | .run, _ => s
  | _, [] => { s with signal := .run }
  | .returned v, f :: rest => proceed R f v { s with stack := rest }
  | .raised e, f :: rest => unwind f e { s with stack := rest }

/-- Code of the program goes on with whatever it gets. -/
theorem turn_of_code {s : SimNetwork ρ} {rest : List Frame} (h : s.stack = .code :: rest) :
    turn R s = { s with signal := .run } := by
  cases hsignal : s.signal with
  | run =>
      simp only [turn, hsignal]
      rw [← hsignal]
  | returned v => simp only [turn, hsignal, h, proceed]
  | raised e => simp only [turn, hsignal, h, unwind]

/-! ## The loop -/

/-- `_deliver`. -/
def deliver (p : Packet) (s : SimNetwork ρ) : SimNetwork ρ :=
  if s.isDown p.src || s.isDown p.dst then (s.tracePacket .lost p).back
  else if s.isCut p.src p.dst then (blackhole p s).back
  else
    let s := { s.tracePacket .deliver p with
      current := p.dst
      stack := .deliver :: s.stack }
    if p.kind = .dgram then
      match s.datagrams.get? (p.dst, p.dstPort) with
      | none => (s.tracePacket .lost p).back
      | some d => datagramArrived d p.payload (p.src, p.srcPort) s
    else dispatchStream R p s

end

/-- What the loop and the program can do. -/
inductive Act where
  -- the network goes on
  | tick
  -- the loop
  | advance (time : ℚ)
  | fire (i : Nat)
  | runSoon (i : Nat)
  | step (i : Nat)
  | callback (host : HostName)
  | forget (i : Nat)
  -- the program
  | ret (v : Value)
  | raise (e : Exc)
  | write (t : Nat) (data : Bytes)
  | writeEof (t : Nat)
  | close (t : Nat)
  | forceClose (t : Nat) (exc : Option Exc)
  | pauseReading (t : Nat)
  | resumeReading (t : Nat)
  | setWriteBufferLimits (t : Nat) (high low : Option Int)
  | setProtocol (t : Nat) (protocol : Protocol)
  | sendto (d : Nat) (data : Bytes) (addr : Option (String × Nat))
  | closeDatagram (d : Nat)
  | host (name : HostName)
  | setDefaults (latency : Option (ℚ × ℚ)) (drop duplicate : Option ℚ)
  | setLink (src dst : HostName) (latency : Option (ℚ × ℚ)) (drop duplicate : Option ℚ)
  | setFlowControl (enabled : Bool) (high low : Option Int)
  | partition (groupA groupB : List HostName)
  | heal
  | crash (name : HostName) (waiting : List Nat)
  | restart (name : HostName)
  | openConnection (host : String) (port : Nat)
  | cancelConnection (conn : Nat)
  | resumeConnection (conn : Nat) (thrown : Bool)
  | startServer (host : Option String) (port : Nat)
  | closeServer (v : Nat)
  | closeClients (v : Nat)
  | abortClients (v : Nat)
  | openDatagramEndpoint (loc : Option (Option String × Nat)) (remote : Option (String × Nat))
  | createTask (made context : Option HostName)
  | hostCreateTask (name : HostName) (made : Option HostName)
  | settle (i : Nat)

/-- Back to the program with the outcome of a call that is over. -/
def answer (r : Except Exc Unit × SimNetwork ρ) : SimNetwork ρ :=
  match r.1 with
  | .ok () => r.2.back
  | .error e => r.2.throw e

/-- The program has got hold of the stream transport. -/
def exposed (s : SimNetwork ρ) (t : Nat) : Bool := s.transports[t]?.any (·.begun)

/-- The program has got hold of the datagram transport. -/
def exposedDatagram (s : SimNetwork ρ) (d : Nat) : Bool := s.datagramTransports[d]?.any (·.begun)

section

variable (R : RandomSource ρ)

/-- A context can be pinned to a registered host only. -/
def contextOk (s : SimNetwork ρ) (context : Option HostName) : Bool :=
  context.all s.alive.contains

/-- An act of the loop, with nothing on the stack. -/
def loopAct (s : SimNetwork ρ) : Act → Option (SimNetwork ρ)
  | .advance time => if s.now ≤ time then some { s with now := time } else none
  | .fire i =>
    match s.inFlight[i]? with
    | none => none
    | some f =>
      if f.due ≤ s.now then
        some (deliver R f.packet { s with
          inFlight := s.inFlight.eraseIdx i
          landed := s.landed ++ [⟨f.packet, s.trace.length⟩]
          current := wire })
      else none
  | .runSoon i =>
    match s.soon[i]? with
    | none => none
    | some (handle, host) =>
      let s := { s with soon := s.soon.eraseIdx i, current := host }
      match handle with
      | .finish t exc => some (finish t exc s)
      | .lost d => some (lost d s)
  | .step i =>
    match s.tasks[i]? with
    | none => none
    | some T => if T.done then none else some { s with stack := [.code], current := T.pinned }
  | .callback host =>
    if s.alive.contains host then some { s with stack := [.code], current := host } else none
  | .forget i => if s.tasks[i]?.any (·.done) then some (forgetTask i s) else none
  | _ => none

/-- An act of the program; `rest` is the stack below its code.  A coroutine goes on in the
task that awaits it, so a connection is resumed under the host that opened it. -/
def codeAct (rest : List Frame) (s : SimNetwork ρ) : Act → Option (SimNetwork ρ)
  | .ret v => some (({ s with stack := rest } : SimNetwork ρ).back v)
  | .raise e => some (({ s with stack := rest } : SimNetwork ρ).throw e)
  | .write t data => if s.exposed t then some (write R t data s) else none
  | .writeEof t => if s.exposed t then some (writeEof R t s).back else none
  | .close t => if s.exposed t then some (close R t s).back else none
  | .forceClose t exc => if s.exposed t then some (forceClose R t exc s).back else none
  | .pauseReading t => if s.exposed t then some (pauseReading t s).back else none
  | .resumeReading t => if s.exposed t then some (resumeReading t s) else none
  | .setWriteBufferLimits t high low =>
    if s.exposed t then some (setWriteBufferLimits t high low s) else none
  | .setProtocol t protocol => if s.exposed t then some (adopt t protocol s).back else none
  | .sendto d data addr => if s.exposedDatagram d then some (sendto R d data addr s) else none
  | .closeDatagram d => if s.exposedDatagram d then some (closeDatagram d s).back else none
  | .host name => some (answer (host s name))
  | .setDefaults latency drop duplicate => some (answer (setDefaults s latency drop duplicate))
  | .setLink src dst latency drop duplicate =>
    some (answer (setLink s src dst latency drop duplicate))
  | .setFlowControl enabled high low => some (setFlowControl enabled high low s)
  | .partition groupA groupB => some (answer (partition s groupA groupB))
  | .heal => some (heal R s).back
  | .crash name waiting => some (crash name waiting s)
  | .restart name => some (restart name s)
  | .openConnection host port => some (openConnection R host port s)
  | .cancelConnection conn => some (setFut conn .cancelled s).back
  | .resumeConnection conn thrown =>
    if s.connects[conn]?.all (fun c => c.loc.1 = s.current) then
      some (resumeConnection R conn thrown s)
    else none
  | .startServer host port => some (startServer host port s)
  | .closeServer v => some (closeServer v s).back
  | .closeClients v => some (closeClients R v s).back
  | .abortClients v => some (abortClients R v s).back
  | .openDatagramEndpoint loc remote => some (openDatagramEndpoint loc remote s)
  | .createTask made context =>
    if s.contextOk made && s.contextOk context then some (createTask made context s) else none
  | .hostCreateTask name made =>
    if s.alive.contains name && s.contextOk made then some (hostCreateTask name made s) else none
  | .settle i =>
    some ({ s with tasks := s.tasks.modify i fun T => { T with done := true } } :
      SimNetwork ρ).back
  | _ => none

/-- One act, when it is that party's turn. -/
def perform (s : SimNetwork ρ) (a : Act) : Option (SimNetwork ρ) :=
  match s.signal, s.stack, a with
  | .run, [], a => loopAct R s a
  | .run, .code :: rest, a => codeAct R rest s a
  | .run, _, _ => none
  | _, _, .tick => some (turn R s)
  | _, _, _ => none

/-- The machine. -/
def Step (s : SimNetwork ρ) (a : Act) (s' : SimNetwork ρ) : Prop :=
  perform R s a = some s'

/-- A step is the loop's, with nothing on the stack, the program's, with its code on top,
or a tick. -/
theorem step_cases {s s' : SimNetwork ρ} {a : Act} (h : Step R s a s') :
    (s.signal = .run ∧ s.stack = [] ∧ loopAct R s a = some s') ∨
    (∃ rest, s.signal = .run ∧ s.stack = .code :: rest ∧ codeAct R rest s a = some s') ∨
    (a = .tick ∧ s.signal ≠ .run ∧ s' = turn R s) := by
  unfold Step perform at h
  split at h
  · rename_i hsignal hstack
    exact .inl ⟨hsignal, hstack, h⟩
  · rename_i rest hsignal hstack
    exact .inr (.inl ⟨rest, hsignal, hstack, h⟩)
  · cases h
  · rename_i hsignal _ _
    exact .inr (.inr ⟨rfl, hsignal, (Option.some.inj h).symm⟩)
  · cases h

/-- Acts in a row, each of which has to pass a check. -/
def performsWhile (check : SimNetwork ρ → Act → Bool) (s : SimNetwork ρ) :
    List Act → Option (SimNetwork ρ)
  | [] => some s
  | a :: as =>
    if check s a then
      match perform R s a with
      | none => none
      | some s => performsWhile check s as
    else none

theorem run_of_performsWhile {check : SimNetwork ρ → Act → Bool} {acts : List Act}
    {s s' : SimNetwork ρ} (h : performsWhile R check s acts = some s') :
    Run (restrict (Step R) fun s a => check s a) s acts s' := by
  induction acts generalizing s with
  | nil =>
      obtain rfl := Option.some.inj h
      exact .nil s
  | cons a acts ih =>
      unfold performsWhile at h
      split at h
      · rename_i hcheck
        cases hstep : perform R s a with
        | none =>
            rw [hstep] at h
            cases h
        | some t =>
            rw [hstep] at h
            exact (Run.snoc (.nil s) ⟨hstep, hcheck⟩).append (ih h)
      · cases h

/-- Acts in a row. -/
def performs (s : SimNetwork ρ) (acts : List Act) : Option (SimNetwork ρ) :=
  performsWhile R (fun _ _ => true) s acts

theorem run_of_performs {acts : List Act} {s s' : SimNetwork ρ}
    (h : performs R s acts = some s') : Run (Step R) s acts s' :=
  (run_of_performsWhile R h).of_restrict

end

/-- `__init__`, with the clock at 0: a network that knows the driver and nothing else. -/
def init (R : RandomSource ρ) (seed : Int) : SimNetwork ρ :=
  (host
    { rng := R.seeded s!"{seed}:net"
      now := 0
      trace := []
      addresses := Dict.empty
      names := Dict.empty
      alive := Dict.empty
      incarnation := fun _ => 0
      defaultLatency := (0, 0)
      defaultDrop := 0
      defaultDuplicate := 0
      flowControl := false
      flowDefaults := (16 * 1024, 64 * 1024)
      links := Dict.empty
      cuts := ∅
      inFlight := []
      held := []
      sent := []
      landed := []
      nextUid := 0
      nextPort := 49152
      transports := []
      datagramTransports := []
      servers := []
      connects := []
      streams := Dict.empty
      inbound := Dict.empty
      datagrams := Dict.empty
      listeners := Dict.empty
      pending := Dict.empty
      tasks := []
      roster := Dict.empty
      soon := []
      current := driver
      stack := []
      signal := .run
      calls := [] } driver).2

end SimNetwork

end SimLoop.Net
