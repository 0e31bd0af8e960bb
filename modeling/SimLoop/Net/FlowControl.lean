/-
  Net/FlowControl.lean --- flow control that nobody needs.

  What flow control keeps, the write buffers, the marks and which writers are paused, is
  read by flow control alone.  Blurring it commutes with everything else that happens, so
  that two networks that differ in nothing else stay alike as long as no writer is paused.
-/
import SimLoop.Foundation.Roll
import SimLoop.Net.Machine

set_option autoImplicit false

namespace SimLoop.Net

open SimLoop.Foundation

variable {ρ : Type}

/-! ## Blurring -/

/-- A call that flow control makes. -/
def Call.Flow : Call → Prop
  | .pauseWriting _ => True
  | .resumeWriting _ => True
  | _ => False

/-- A frame that flow control has nothing to do with. -/
def Frame.Plain : Frame → Prop
  | .consumed _ _ => False
  | .release _ => False
  | _ => True

/-- What is left of each thing that flow control keeps, and of the calls it makes.  New and
finished transports look the same as before. -/
structure Blur where
  buffer : Nat → Nat
  paused : Bool → Bool
  limits : Option (Nat × Nat) → Option (Nat × Nat)
  control : Bool → Bool
  defaults : Nat × Nat → Nat × Nat
  voice : Call → Call
  buffer_zero : buffer 0 = 0
  paused_false : paused false = false
  limits_none : limits none = none
  voice_plain : ∀ x : Call, ¬ x.Flow → voice x = x

def StreamTransport.blur (B : Blur) (T : StreamTransport) : StreamTransport :=
  { T with
    writeBuffer := B.buffer T.writeBuffer
    protocolPaused := B.paused T.protocolPaused
    limits := B.limits T.limits }

namespace SimNetwork

/-- A network as it looks to someone who does not see what flow control keeps. -/
def blur (B : Blur) (s : SimNetwork ρ) : SimNetwork ρ :=
  { s with
    transports := s.transports.map (StreamTransport.blur B)
    flowControl := B.control s.flowControl
    flowDefaults := B.defaults s.flowDefaults
    calls := s.calls.map fun x => (x.1, B.voice x.2) }

variable (B : Blur) (s : SimNetwork ρ)

section Reads

@[simp] theorem blur_transports_length :
    (s.blur B).transports.length = s.transports.length :=
  List.length_map _

@[simp] theorem blur_getElem? (t : Nat) :
    (s.blur B).transports[t]? = s.transports[t]?.map (StreamTransport.blur B) :=
  List.getElem?_map ..

@[simp] theorem blur_rng : (s.blur B).rng = s.rng := rfl

@[simp] theorem blur_signal : (s.blur B).signal = s.signal := rfl

@[simp] theorem blur_stack : (s.blur B).stack = s.stack := rfl

@[simp] theorem blur_streams : (s.blur B).streams = s.streams := rfl

@[simp] theorem blur_isCut (a b : HostName) : (s.blur B).isCut a b = s.isCut a b := rfl

@[simp] theorem blur_isDown (name : HostName) : (s.blur B).isDown name = s.isDown name := rfl

@[simp] theorem blur_resolved (a b : HostName) : (s.blur B).resolved a b = s.resolved a b := rfl

@[simp] theorem blur_resolve (name : String) : (s.blur B).resolve name = s.resolve name := rfl

/-- A function that looks at one transport, and does the same with what is left of it. -/
theorem blur_at {t : Nat} {x y : SimNetwork ρ} {g h : StreamTransport → SimNetwork ρ}
    (hnone : y = x.blur B) (hsome : ∀ T, g (T.blur B) = (h T).blur B) :
    (match (s.blur B).transports[t]? with
      | none => y
      | some T => g T) =
      (match s.transports[t]? with
        | none => x
        | some T => h T : SimNetwork ρ).blur B := by
  rw [blur_getElem?]
  cases s.transports[t]? with
  | none => exact hnone
  | some T => exact hsome T

/-- Whatever else calls the program is heard as before. -/
theorem blur_call {x : Call} (hx : ¬ x.Flow) (frames : List Frame) :
    (s.call x frames).blur B = (s.blur B).call x frames := by
  simp only [call, blur, List.map_append, List.map_singleton, B.voice_plain x hx]

/-- Changing a transport and blurring it. -/
theorem blur_setTransport {f : StreamTransport → StreamTransport}
    (hf : ∀ T, (f T).blur B = f (T.blur B)) (t : Nat) :
    (s.setTransport t f).blur B = (s.blur B).setTransport t f := by
  simp only [blur, setTransport, map_modify_of hf]

theorem blur_finished (T : StreamTransport) :
    ({ T with
        closed := true
        closing := true
        writeBuffer := 0
        protocolPaused := false
        protocol := none
        buffered := false } : StreamTransport).blur B =
      { T.blur B with
        closed := true
        closing := true
        writeBuffer := 0
        protocolPaused := false
        protocol := none
        buffered := false } := by
  simp only [StreamTransport.blur, B.buffer_zero, B.paused_false]

end Reads

/-! ## What blurring commutes with -/

section Wire

variable (R : RandomSource ρ)

theorem blur_transmit (p : Packet) : transmit R p (s.blur B) = (transmit R p s).blur B := by
  unfold transmit
  rw [blur_isCut, blur_resolved]
  split
  · unfold blackhole
    split <;> rfl
  · dsimp only [blur_rng]
    split
    · split
      · rfl
      · split <;> rfl
    · rfl

theorem blur_sendStream (kind : PacketKind) (src dst : Addr) (conn seq : Nat) (payload : Bytes) :
    sendStream R kind src dst conn seq payload (s.blur B) =
      (sendStream R kind src dst conn seq payload s).blur B := by
  unfold sendStream newUid
  let p : Packet := ⟨kind, src.1, dst.1, src.2, dst.2, conn, seq, payload, s.nextUid⟩
  exact blur_transmit B { s with nextUid := s.nextUid + 1, sent := s.sent ++ [p] } R p

theorem blur_heal : heal R (s.blur B) = (heal R s).blur B := by
  unfold heal
  have hrelease : ∀ (l : List Packet) (u : SimNetwork ρ),
      l.foldl (fun s p => transmit R p (s.tracePacket .release p)) (u.blur B) =
        (l.foldl (fun s p => transmit R p (s.tracePacket .release p)) u).blur B := by
    intro l
    induction l with
    | nil => exact fun _ => rfl
    | cons p l ih =>
        intro u
        rw [List.foldl_cons, List.foldl_cons, ← ih]
        exact congrArg (l.foldl fun s p => transmit R p (s.tracePacket .release p))
          (blur_transmit B (u.tracePacket .release p) R p)
  exact hrelease s.held { s with cuts := ∅, held := [] }

theorem blur_send (t : Nat) (kind : PacketKind) (payload : Bytes) :
    send R t kind payload (s.blur B) = (send R t kind payload s).blur B := by
  unfold send
  refine blur_at B s rfl fun T => ?_
  dsimp only [StreamTransport.blur]
  rw [← blur_setTransport]
  · exact blur_sendStream B _ R _ _ _ _ _ _
  · exact fun _ => rfl

theorem blur_writeEof (t : Nat) : writeEof R t (s.blur B) = (writeEof R t s).blur B := by
  unfold writeEof
  refine blur_at B s rfl fun T => ?_
  dsimp only [StreamTransport.blur]
  split
  · rfl
  · rw [← blur_setTransport]
    · exact blur_send B _ R _ _ _
    · exact fun _ => rfl

theorem blur_close (t : Nat) : close R t (s.blur B) = (close R t s).blur B := by
  unfold close
  refine blur_at B s rfl fun T => ?_
  dsimp only [StreamTransport.blur]
  split
  · rfl
  · rw [← blur_setTransport]
    · split
      · rfl
      · rw [← blur_setTransport, blur_send]
        · rfl
        · exact fun _ => rfl
    · exact fun _ => rfl

theorem blur_forceClose (t : Nat) (exc : Option Exc) :
    forceClose R t exc (s.blur B) = (forceClose R t exc s).blur B := by
  unfold forceClose
  refine blur_at B s rfl fun T => ?_
  dsimp only [StreamTransport.blur]
  split
  · rfl
  · rw [← blur_setTransport, blur_send]
    · rfl
    · exact fun _ => rfl

end Wire

section Transports

theorem blur_finish (t : Nat) (exc : Option Exc) :
    finish t exc (s.blur B) = (finish t exc s).blur B := by
  unfold finish
  refine blur_at B s rfl fun T => ?_
  dsimp only [StreamTransport.blur]
  split
  · rfl
  · rw [← blur_setTransport _ _ (blur_finished B)]
    split
    · rfl
    · exact .symm (blur_call B _ id _)

theorem blur_feed (t : Nat) (view : Bytes) : feed t view (s.blur B) = (feed t view s).blur B := by
  unfold feed
  rw [blur_getElem?]
  split
  · rfl
  · cases s.transports[t]? with
    | none => rfl
    | some T =>
        dsimp only [Option.map_some, Option.bind_some, StreamTransport.blur]
        split
        · rfl
        · exact .symm (blur_call B _ id _)

theorem blur_deliverBytes (t : Nat) (data : Bytes) :
    deliverBytes t data (s.blur B) = (deliverBytes t data s).blur B := by
  unfold deliverBytes
  refine blur_at B s rfl fun T => ?_
  dsimp only [StreamTransport.blur]
  split
  · exact blur_feed B s t data
  · split
    · rfl
    · exact .symm (blur_call B _ id _)

theorem blur_takeRoom (t : Nat) (view : Bytes) (room : Nat) :
    takeRoom t view room (s.blur B) = (takeRoom t view room s).blur B := by
  unfold takeRoom
  rw [blur_getElem?]
  split
  · rfl
  · cases s.transports[t]? with
    | none => rfl
    | some T =>
        dsimp only [Option.map_some, Option.bind_some, StreamTransport.blur]
        split
        · rfl
        · exact .symm (blur_call B _ id _)

theorem blur_dataArrived (t : Nat) (data : Bytes) :
    dataArrived t data (s.blur B) = (dataArrived t data s).blur B := by
  unfold dataArrived
  refine blur_at B s rfl fun T => ?_
  dsimp only [StreamTransport.blur]
  split
  · rfl
  · split
    · rw [← blur_setTransport]
      · rfl
      · exact fun _ => rfl
    · exact blur_deliverBytes B { s with stack := .consumed t data.length :: s.stack } t data

theorem blur_eofArrived (t : Nat) : eofArrived t (s.blur B) = (eofArrived t s).blur B := by
  unfold eofArrived
  refine blur_at B s rfl fun T => ?_
  dsimp only [StreamTransport.blur]
  rw [← blur_setTransport]
  · split
    · rfl
    · split
      · rw [← blur_setTransport]
        · rfl
        · exact fun _ => rfl
      · split
        · rfl
        · exact .symm (blur_call B _ id _)
  · exact fun _ => rfl

theorem blur_resetArrived (t : Nat) : resetArrived t (s.blur B) = (resetArrived t s).blur B := by
  unfold resetArrived
  refine blur_at B s rfl fun T => ?_
  dsimp only [StreamTransport.blur]
  rw [← blur_setTransport]
  · split
    · rfl
    · exact blur_finish B _ t _
  · exact fun _ => rfl

theorem blur_pauseReading (t : Nat) : pauseReading t (s.blur B) = (pauseReading t s).blur B := by
  unfold pauseReading
  refine blur_at B s rfl fun T => ?_
  dsimp only [StreamTransport.blur]
  split
  · rfl
  · rw [← blur_setTransport]
    exact fun _ => rfl

theorem blur_drainNext (t : Nat) : drainNext t (s.blur B) = (drainNext t s).blur B := by
  unfold drainNext
  refine blur_at B s rfl fun T => ?_
  dsimp only [StreamTransport.blur]
  split
  · rfl
  · split
    · rename_i chunk rest _
      rw [← blur_setTransport]
      · let u := s.setTransport t fun T => { T with backlog := rest }
        exact blur_deliverBytes B
          { u with stack := .consumed t chunk.length :: .drain t :: u.stack } t chunk
      · exact fun _ => rfl
    · split
      · rw [← blur_setTransport]
        · exact blur_eofArrived B _ t
        · exact fun _ => rfl
      · rfl

theorem blur_resumeReading (t : Nat) :
    resumeReading t (s.blur B) = (resumeReading t s).blur B := by
  unfold resumeReading
  refine blur_at B s rfl fun T => ?_
  dsimp only [StreamTransport.blur]
  split
  · rfl
  · rw [← blur_setTransport]
    · exact blur_drainNext B _ t
    · exact fun _ => rfl

theorem blur_adopt (t : Nat) (protocol : Protocol) :
    adopt t protocol (s.blur B) = (adopt t protocol s).blur B := by
  unfold adopt
  rw [← blur_setTransport]
  exact fun _ => rfl

theorem blur_begin (t : Nat) (protocol : Protocol) (frames : List Frame) :
    begin t protocol frames (s.blur B) = (begin t protocol frames s).blur B := by
  unfold begin
  rw [blur_adopt, ← blur_setTransport]
  · exact .symm (blur_call B _ id _)
  · exact fun _ => rfl

theorem blur_register {T : StreamTransport} (hT : T.blur B = T) :
    register T (s.blur B) = (register T s).blur B := by
  have htransports : (s.blur B).transports ++ [T] =
      (s.transports ++ [T]).map (StreamTransport.blur B) := by
    rw [List.map_append, List.map_singleton, hT]
    rfl
  simp only [register, htransports, blur_transports_length]
  rfl

end Transports

section Dispatch

variable (R : RandomSource ρ)

/-- A new transport looks the same as before. -/
theorem blur_fresh (conn : Nat) (loc remote : Addr) (born : Nat) :
    StreamTransport.blur B { conn := conn, loc := loc, remote := remote, born := born } =
      { conn := conn, loc := loc, remote := remote, born := born } := by
  simp only [StreamTransport.blur, B.buffer_zero, B.paused_false, B.limits_none]

theorem blur_handleSyn (p : Packet) : handleSyn R p (s.blur B) = (handleSyn R p s).blur B := by
  unfold handleSyn
  dsimp only
  rw [show (s.blur B).listeners = s.listeners from rfl]
  split
  · rw [blur_sendStream]
    rfl
  · rw [show (s.blur B).incarnation = s.incarnation from rfl, blur_register B s (blur_fresh ..),
      blur_sendStream, blur_transports_length]
    exact .symm (blur_call B _ id _)

theorem blur_handleAnswer (p : Packet) :
    handleAnswer p (s.blur B) = (handleAnswer p s).blur B := by
  unfold handleAnswer
  rw [show (s.blur B).pending = s.pending from rfl,
    show (s.blur B).connects = s.connects from rfl]
  split
  · rename_i c _ _
    dsimp only
    split
    · rfl
    · split
      · let u : SimNetwork ρ := { s with pending := s.pending.erase p.conn }
        have hregister := blur_register B u (blur_fresh B p.conn c.loc c.remote
          (s.incarnation c.loc.1))
        rw [blur_transports_length]
        refine .trans ?_ (.symm (blur_call B _ id _))
        exact congrArg (fun v => v.call .factory [.acceptFactory p.conn s.transports.length])
          hregister
      · rfl
  · rfl

theorem blur_dispatchReady (p : Packet) :
    dispatchReady R p (s.blur B) = (dispatchReady R p s).blur B := by
  unfold dispatchReady
  rw [blur_streams]
  split
  · exact blur_handleSyn B s R p
  · exact blur_handleAnswer B s p
  · exact blur_handleAnswer B s p
  · split
    · rfl
    · split
      · exact blur_dataArrived B s _ _
      · exact blur_eofArrived B s _
      · exact blur_resetArrived B s _
      · rfl

theorem blur_pushNext (k : Key) : pushNext R k (s.blur B) = (pushNext R k s).blur B := by
  unfold pushNext
  rw [show (s.blur B).inbound = s.inbound from rfl]
  split
  · rfl
  · rename_i queue _
    split
    · rfl
    · rename_i p _
      dsimp only
      let queue' : InOrder :=
        { queue with next := queue.next + 1, early := queue.early.erase queue.next }
      exact blur_dispatchReady B { s with
        inbound := s.inbound.insert k queue'
        stack := .push k :: s.stack } R p

theorem blur_dispatchStream (p : Packet) :
    dispatchStream R p (s.blur B) = (dispatchStream R p s).blur B := by
  unfold dispatchStream
  dsimp only
  let queue := (s.inbound.get? p.key).getD ⟨0, Dict.empty⟩
  let queue' : InOrder := { queue with early := queue.early.insert p.seq p }
  exact blur_pushNext B { s with inbound := s.inbound.insert p.key queue' } R p.key

theorem blur_openConnection (host : String) (port : Nat) :
    openConnection R host port (s.blur B) = (openConnection R host port s).blur B := by
  unfold openConnection
  rw [blur_resolve]
  split
  · rfl
  · rename_i name _
    have hsource : sourcePort name port (s.blur B) =
        ((sourcePort name port s).1, (sourcePort name port s).2.blur B) := by
      unfold sourcePort ephemeral
      dsimp only
      rw [show (s.blur B).current = s.current from rfl,
        show (s.blur B).nextPort = s.nextPort from rfl]
      split <;> rfl
    dsimp only
    rw [hsource]
    rcases sourcePort name port s with ⟨srcPort, u⟩
    dsimp only
    have hsent := blur_sendStream B { u with
      connects := u.connects ++ [{ loc := (s.current, srcPort), remote := (name, port) }]
      pending := u.pending.insert s.nextConn () } R .syn (s.current, srcPort) (name, port)
      s.nextConn 0 []
    exact congrArg back hsent

theorem blur_resumeConnection (conn : Nat) (thrown : Bool) :
    resumeConnection R conn thrown (s.blur B) = (resumeConnection R conn thrown s).blur B := by
  unfold resumeConnection
  rw [show (s.blur B).connects = s.connects from rfl]
  split
  · rfl
  · split
    · rfl
    · dsimp only
      split
      · rename_i t _
        let u : SimNetwork ρ := { s with
          connects := s.connects.modify conn fun c => { c with awaited := false } }
        have habort : abort R t (u.blur B) = (abort R t u).blur B := blur_forceClose B u R t none
        exact congrArg (fun v : SimNetwork ρ => ({ v with
          pending := s.pending.erase conn } : SimNetwork ρ).throw (.error .cancelled "")) habort
      all_goals rfl

theorem blur_startServer (host : Option String) (port : Nat) :
    startServer host port (s.blur B) = (startServer host port s).blur B := by
  unfold startServer
  rw [show (s.blur B).bindAddress host port = s.bindAddress host port from rfl]
  split
  · rfl
  · rw [show (s.blur B).listeners = s.listeners from rfl]
    split <;> rfl

theorem blur_closeServer (v : Nat) : closeServer v (s.blur B) = (closeServer v s).blur B := by
  unfold closeServer
  rw [show (s.blur B).servers = s.servers from rfl]
  split
  · rfl
  · split <;> rfl

theorem blur_clients (v : Nat) : (s.blur B).clients v = s.clients v := by
  unfold clients
  rw [show (s.blur B).servers = s.servers from rfl, blur_streams]
  cases s.servers[v]? with
  | none => rfl
  | some server =>
      refine congrArg (fun p => List.filter p _) (funext fun t => ?_)
      rw [blur_getElem?]
      cases s.transports[t]? <;> rfl

/-- What commutes with blurring step by step commutes with it in a row. -/
theorem blur_foldl {α : Type} {f : SimNetwork ρ → α → SimNetwork ρ}
    (hf : ∀ u x, f (blur B u) x = (f u x).blur B) (l : List α) :
    ∀ u, l.foldl f (blur B u) = (l.foldl f u).blur B := by
  induction l with
  | nil => exact fun _ => rfl
  | cons x l ih =>
      intro u
      rw [List.foldl_cons, List.foldl_cons, hf, ih]

theorem blur_openDatagramEndpoint (loc : Option (Option String × Nat))
    (remote : Option (String × Nat)) :
    openDatagramEndpoint loc remote (s.blur B) = (openDatagramEndpoint loc remote s).blur B := by
  unfold openDatagramEndpoint
  cases loc with
  | none =>
      dsimp only [ephemeral]
      rw [show (s.blur B).datagrams = s.datagrams from rfl,
        show (s.blur B).current = s.current from rfl,
        show (s.blur B).nextPort = s.nextPort from rfl]
      split
      · rfl
      · cases remote with
        | none => exact .symm (blur_call B _ id _)
        | some r =>
            dsimp only [resolve, requireHost]
            rw [show (s.blur B).names = s.names from rfl,
              show (s.blur B).alive = s.alive from rfl]
            cases s.names.get? r.1 with
            | some name => exact .symm (blur_call B _ id _)
            | none =>
                dsimp only
                cases s.alive.contains r.1 with
                | false => rfl
                | true => exact .symm (blur_call B _ id _)
  | some addr =>
      dsimp only
      rw [show (s.blur B).bindAddress addr.1 addr.2 = s.bindAddress addr.1 addr.2 from rfl]
      split
      · rfl
      · rw [show (s.blur B).datagrams = s.datagrams from rfl]
        split
        · rfl
        · cases remote with
          | none => exact .symm (blur_call B _ id _)
          | some r =>
              dsimp only
              rw [blur_resolve]
              cases s.resolve r.1 with
              | error e => rfl
              | ok name => exact .symm (blur_call B _ id _)

theorem blur_datagramArrived (d : Nat) (data : Bytes) (addr : Addr) :
    datagramArrived d data addr (s.blur B) = (datagramArrived d data addr s).blur B := by
  unfold datagramArrived
  rw [show (s.blur B).datagramTransports = s.datagramTransports from rfl]
  split
  · rfl
  · split
    · rfl
    · split
      · rfl
      · split
        · rfl
        · exact .symm (blur_call B _ id _)

theorem blur_sendto (d : Nat) (data : Bytes) (addr : Option (String × Nat)) :
    sendto R d data addr (s.blur B) = (sendto R d data addr s).blur B := by
  have hsend : ∀ src dst, sendDatagram R src dst data (s.blur B) =
      ((sendDatagram R src dst data s).1, (sendDatagram R src dst data s).2.blur B) := by
    intro src dst
    unfold sendDatagram
    rw [blur_resolve]
    split
    · rfl
    · rename_i name _
      let p : Packet := ⟨.dgram, src.1, name, src.2, dst.2, 0, 0, data, s.nextUid⟩
      have hsent := blur_transmit B
        { s with nextUid := s.nextUid + 1, sent := s.sent ++ [p] } R p
      exact congrArg (Prod.mk _) hsent
  unfold sendto
  rw [show (s.blur B).datagramTransports = s.datagramTransports from rfl]
  split
  · rfl
  · split
    · rfl
    · split
      · rfl
      · split
        · rfl
        · rename_i D _ _ _ target _ _
          rw [hsend]
          rcases sendDatagram R D.loc target data s with ⟨e | _, u⟩ <;> rfl

theorem blur_closeDatagram (d : Nat) :
    closeDatagram d (s.blur B) = (closeDatagram d s).blur B := by
  unfold closeDatagram
  rw [show (s.blur B).datagramTransports = s.datagramTransports from rfl]
  split
  · rfl
  · split <;> rfl

theorem blur_lost (d : Nat) : lost d (s.blur B) = (lost d s).blur B := by
  unfold lost
  rw [show (s.blur B).datagramTransports = s.datagramTransports from rfl]
  split
  · rfl
  · dsimp only
    split
    · rfl
    · exact .symm (blur_call B _ id _)

theorem blur_registerTask (pinned : HostName) :
    registerTask pinned (s.blur B) = (registerTask pinned s).blur B := by
  unfold registerTask
  rw [show (s.blur B).roster = s.roster from rfl, show (s.blur B).current = s.current from rfl]
  split <;> rfl

theorem blur_forgetTask (i : Nat) : forgetTask i (s.blur B) = (forgetTask i s).blur B := by
  unfold forgetTask
  rw [show (s.blur B).tasks = s.tasks from rfl]
  split <;> rfl

theorem blur_crashNext (name : HostName) (keys : List Key) :
    crashNext name keys (s.blur B) = (crashNext name keys s).blur B := by
  unfold crashNext
  rw [blur_streams]
  split
  · unfold crashEnd
    dsimp only
    have hlost := blur_foldl B (f := fun s p => s.tracePacket .lost p) (fun _ _ => rfl)
      (s.held.filter fun p => decide (name = p.src ∨ name = p.dst)) s
    rw [show (s.blur B).held = s.held from rfl, hlost]
    rfl
  · rename_i k rest
    split
    · rfl
    · rename_i t _
      exact blur_finish B { s with stack := .crash name rest :: s.stack } t none

theorem blur_crash (name : HostName) (waiting : List Nat) :
    crash name waiting (s.blur B) = (crash name waiting s).blur B := by
  have hbegin : ∀ n, crashBegin n waiting (s.blur B) = (crashBegin n waiting s).blur B := by
    intro n
    unfold crashBegin
    dsimp only
    rw [show ({ s.blur B with alive := (s.blur B).alive.insert n false } : SimNetwork ρ) =
        blur B { s with alive := s.alive.insert n false } from rfl,
      blur_foldl B (f := fun s i => cancelTask i s) (fun _ _ => rfl),
      blur_foldl B (f := fun s conn => setFut conn .cancelled s) (fun _ _ => rfl),
      blur_foldl B (f := fun s v => closeServer v s) (fun u v => blur_closeServer B u v),
      blur_foldl B (f := fun (s : SimNetwork ρ) a => { s with
        datagrams := s.datagrams.erase a }) (fun _ _ => rfl)]
    rfl
  unfold crash
  rw [show (s.blur B).requireHost name = s.requireHost name from rfl]
  split
  · rfl
  · rw [show ∀ n, (s.blur B).isAlive n = s.isAlive n from fun _ => rfl]
    split
    · rfl
    · split
      · rfl
      · dsimp only
        rw [hbegin, blur_streams, blur_crashNext]

theorem blur_restart (name : HostName) : restart name (s.blur B) = (restart name s).blur B := by
  unfold restart
  rw [show (s.blur B).requireHost name = s.requireHost name from rfl]
  split
  · rfl
  · rw [show ∀ n, (s.blur B).isAlive n = s.isAlive n from fun _ => rfl]
    split <;> rfl

theorem blur_deliver (p : Packet) : deliver R p (s.blur B) = (deliver R p s).blur B := by
  unfold deliver
  rw [blur_isDown, blur_isDown, blur_isCut]
  split
  · rfl
  · split
    · unfold blackhole
      split <;> rfl
    · dsimp only
      let u : SimNetwork ρ := { s.tracePacket .deliver p with
        current := p.dst
        stack := .deliver :: s.stack }
      split
      · rw [show (tracePacket (s.blur B) .deliver p).datagrams = s.datagrams from rfl,
          show (tracePacket s .deliver p).datagrams = s.datagrams from rfl]
        split
        · rfl
        · exact blur_datagramArrived B u _ _ _
      · exact blur_dispatchStream B u R p

end Dispatch

/-! ## Steps that have nothing to do with flow control -/

/-- A configuration call that does not see flow control. -/
def Blind (f : SimNetwork ρ → Except Exc Unit × SimNetwork ρ) : Prop :=
  ∀ u, f (blur B u) = ((f u).1, (f u).2.blur B)

variable {B} in
theorem blind_setting {α : Type} (value : Option α) (check : α → Except Exc α)
    {store : α → SimNetwork ρ → SimNetwork ρ} (h : ∀ x u, store x (blur B u) = (store x u).blur B) :
    Blind B (setting value check store) := by
  intro u
  unfold setting
  cases value with
  | none => rfl
  | some x =>
      dsimp only
      cases check x with
      | error e => rfl
      | ok x => exact congrArg (Prod.mk _) (h x u)

variable {B} in
theorem Blind.andThen {f g : SimNetwork ρ → Except Exc Unit × SimNetwork ρ} (hf : Blind B f)
    (hg : Blind B g) : Blind B fun u => SimNetwork.andThen (f u) g := by
  intro u
  dsimp only
  rw [hf u]
  unfold SimNetwork.andThen
  dsimp only
  split
  · rfl
  · exact hg (f u).2

theorem blind_host (name : HostName) : Blind B fun u : SimNetwork ρ => host u name := by
  intro u
  unfold host
  dsimp only
  rw [show (u.blur B).alive = u.alive from rfl]
  split
  · rfl
  · split
    · rfl
    · split
      · rfl
      · rw [show (u.blur B).addresses = u.addresses from rfl]
        split <;> rfl

theorem blind_setDefaults (latency : Option (ℚ × ℚ)) (drop duplicate : Option ℚ) :
    Blind B fun u : SimNetwork ρ => setDefaults u latency drop duplicate := by
  apply Blind.andThen
  · apply Blind.andThen
    · exact blind_setting latency _ fun _ _ => rfl
    · exact blind_setting drop _ fun _ _ => rfl
  · exact blind_setting duplicate _ fun _ _ => rfl

theorem blind_setLink (src dst : HostName) (latency : Option (ℚ × ℚ))
    (drop duplicate : Option ℚ) :
    Blind B fun u : SimNetwork ρ => setLink u src dst latency drop duplicate := by
  have hfield : ∀ (a b : HostName) (f : Link → Link) (u : SimNetwork ρ),
      setLinkField a b f (u.blur B) = (setLinkField a b f u).blur B := fun _ _ _ _ => rfl
  intro u
  unfold setLink
  dsimp only
  rw [show (u.blur B).requireHost src = u.requireHost src from rfl]
  cases u.requireHost src with
  | error e => rfl
  | ok src =>
      dsimp only
      rw [show (u.blur B).requireHost dst = u.requireHost dst from rfl]
      cases u.requireHost dst with
      | error e => rfl
      | ok dst =>
          dsimp only
          rw [hfield]
          refine Blind.andThen (Blind.andThen ?_ ?_) ?_ (setLinkField src dst id u)
          · exact blind_setting latency _ fun _ v => hfield _ _ _ v
          · exact blind_setting drop _ fun _ v => hfield _ _ _ v
          · exact blind_setting duplicate _ fun _ v => hfield _ _ _ v

theorem blind_partition (groupA groupB : List HostName) :
    Blind B fun u : SimNetwork ρ => partition u groupA groupB := by
  intro u
  have hrequire : ∀ l, (u.blur B).requireHosts l = u.requireHosts l := by
    intro l
    induction l with
    | nil => rfl
    | cons n l ih =>
        unfold requireHosts
        rw [show (u.blur B).requireHost n = u.requireHost n from rfl, ih]
  unfold partition
  dsimp only
  rw [hrequire, hrequire]
  cases u.requireHosts groupA with
  | error e => rfl
  | ok sideA =>
      dsimp only
      cases u.requireHosts groupB with
      | error e => rfl
      | ok sideB =>
          dsimp only
          split
          · rfl
          · split <;> rfl

variable {B} in
theorem Blind.answer {f : SimNetwork ρ → Except Exc Unit × SimNetwork ρ} (hf : Blind B f)
    (u : SimNetwork ρ) : SimNetwork.answer (f (blur B u)) = (SimNetwork.answer (f u)).blur B := by
  rw [hf u]
  unfold SimNetwork.answer
  dsimp only
  split <;> rfl

variable (R : RandomSource ρ)

theorem blur_unwind (f : Frame) (e : Exc) : unwind f e (s.blur B) = (unwind f e s).blur B := by
  cases f with
  | flowCall =>
      unfold unwind
      dsimp only
      split
      · rfl
      · exact .symm (blur_call B _ id _)
  | report =>
      unfold unwind
      dsimp only
      split <;> rfl
  | _ => rfl

theorem blur_proceed {f : Frame} (hf : f.Plain) (v : Value) :
    proceed R f v (s.blur B) = (proceed R f v s).blur B := by
  cases f with
  | code => rfl
  | deliver => rfl
  | push k => exact blur_pushNext B s R k
  | acceptFactory conn t => exact blur_begin B s t _ _
  | acceptMade conn t =>
      unfold proceed
      dsimp only
      rw [show (s.blur B).connects = s.connects from rfl]
      split <;> rfl
  | synFactory t => exact blur_begin B s t _ _
  | getBuffer t view => exact blur_takeRoom B s t view _
  | bufferUpdated t view => exact blur_feed B s t view
  | consumed t count => exact hf.elim
  | drain t => exact blur_drainNext B s t
  | eofReceived t =>
      unfold proceed
      dsimp only
      split
      · rfl
      · exact congrArg back (blur_close B s R t)
  | flowCall => rfl
  | report => rfl
  | release ts => exact hf.elim
  | crash name keys => exact blur_crashNext B s name keys
  | datagramFactory d => exact .symm (blur_call B _ id _)

/-- The act and the frame it may return to are none of flow control's. -/
def Plain (s : SimNetwork ρ) : Act → Prop
  | .write _ _ => False
  | .setWriteBufferLimits _ _ _ => False
  | .setFlowControl _ _ _ => False
  | .tick => ∀ v, s.signal = .returned v → ∀ f ∈ s.stack.head?, f.Plain
  | _ => True

theorem blur_turn (h : s.Plain .tick) : turn R (s.blur B) = (turn R s).blur B := by
  unfold turn
  rw [blur_signal, blur_stack]
  split
  · rfl
  · rfl
  · rename_i v f rest hsignal hstack
    exact blur_proceed B { s with stack := rest } R (h v hsignal f (hstack ▸ rfl)) v
  · rename_i e f rest _ _
    exact blur_unwind B { s with stack := rest } f e

theorem blur_loopAct (a : Act) :
    loopAct R (s.blur B) a = (loopAct R s a).map (blur B) := by
  cases a
  case advance time =>
    simp only [loopAct]
    rw [show (s.blur B).now = s.now from rfl]
    split <;> rfl
  case fire i =>
    simp only [loopAct]
    rw [show (s.blur B).inFlight = s.inFlight from rfl]
    split
    · rfl
    · rename_i f _
      rw [show (s.blur B).now = s.now from rfl]
      split
      · exact congrArg some (blur_deliver B { s with
          inFlight := s.inFlight.eraseIdx i
          landed := s.landed ++ [⟨f.packet, s.trace.length⟩]
          current := wire } R f.packet)
      · rfl
  case runSoon i =>
    simp only [loopAct]
    rw [show (s.blur B).soon = s.soon from rfl]
    split
    · rfl
    · rename_i handle host _
      cases handle with
      | finish t exc =>
          exact congrArg some (blur_finish B { s with
            soon := s.soon.eraseIdx i
            current := host } t exc)
      | lost d =>
          exact congrArg some (blur_lost B { s with
            soon := s.soon.eraseIdx i
            current := host } d)
  case step i =>
    simp only [loopAct]
    rw [show (s.blur B).tasks = s.tasks from rfl]
    split
    · rfl
    · split <;> rfl
  case callback host =>
    simp only [loopAct]
    rw [show (s.blur B).alive = s.alive from rfl]
    split <;> rfl
  case forget i =>
    simp only [loopAct]
    rw [show (s.blur B).tasks = s.tasks from rfl]
    split
    · exact congrArg some (blur_forgetTask B s i)
    · rfl
  all_goals rfl

theorem blur_exposed (t : Nat) : (s.blur B).exposed t = s.exposed t := by
  unfold exposed
  rw [blur_getElem?]
  cases s.transports[t]? <;> rfl

theorem blur_codeAct {a : Act} (ha : s.Plain a) (rest : List Frame) :
    codeAct R rest (s.blur B) a = (codeAct R rest s a).map (blur B) := by
  have hif : ∀ {b : Bool} {x y : SimNetwork ρ}, y = blur B x →
      (if b = true then some y else none) = (if b = true then some x else none).map (blur B) := by
    rintro b x y rfl
    split <;> rfl
  cases a
  case write => exact ha.elim
  case setWriteBufferLimits => exact ha.elim
  case setFlowControl => exact ha.elim
  all_goals simp only [codeAct, blur_exposed]
  case writeEof t => exact hif (congrArg back (blur_writeEof B s R t))
  case close t => exact hif (congrArg back (blur_close B s R t))
  case forceClose t exc => exact hif (congrArg back (blur_forceClose B s R t exc))
  case pauseReading t => exact hif (congrArg back (blur_pauseReading B s t))
  case resumeReading t => exact hif (blur_resumeReading B s t)
  case setProtocol t protocol => exact hif (congrArg back (blur_adopt B s t protocol))
  case sendto d data addr => exact hif (blur_sendto B s R d data addr)
  case closeDatagram d => exact hif (congrArg back (blur_closeDatagram B s d))
  case createTask made context => exact hif (blur_registerTask B s _)
  case hostCreateTask name made =>
    have hcreated := blur_registerTask B { s with current := name }
      (made.getD (Option.getD none name))
    exact hif (congrArg (fun u : SimNetwork ρ => { u with current := s.current }) hcreated)
  case resumeConnection conn thrown => exact hif (blur_resumeConnection B s R conn thrown)
  case host name => exact congrArg some ((blind_host B name).answer s)
  case setDefaults latency drop duplicate =>
    exact congrArg some ((blind_setDefaults B latency drop duplicate).answer s)
  case setLink src dst latency drop duplicate =>
    exact congrArg some ((blind_setLink B src dst latency drop duplicate).answer s)
  case partition groupA groupB => exact congrArg some ((blind_partition B groupA groupB).answer s)
  case heal => exact congrArg (fun u => some (back u)) (blur_heal B s R)
  case crash name waiting => exact congrArg some (blur_crash B s name waiting)
  case restart name => exact congrArg some (blur_restart B s name)
  case openConnection host port => exact congrArg some (blur_openConnection B s R host port)
  case startServer host port => exact congrArg some (blur_startServer B s host port)
  case closeServer v => exact congrArg (fun u => some (back u)) (blur_closeServer B s v)
  case closeClients v =>
    unfold closeClients
    rw [blur_clients]
    exact congrArg (fun u => some (back u)) (blur_foldl B (fun u t => blur_close B u R t) _ s)
  case abortClients v =>
    unfold abortClients
    rw [blur_clients]
    exact congrArg (fun u => some (back u))
      (blur_foldl B (fun u t => blur_forceClose B u R t none) _ s)
  case openDatagramEndpoint loc remote =>
    exact congrArg some (blur_openDatagramEndpoint B s loc remote)
  all_goals rfl

/-- **What flow control keeps matters to flow control alone.** -/
theorem blur_perform {a : Act} (ha : s.Plain a) :
    perform R (s.blur B) a = (perform R s a).map (blur B) := by
  unfold perform
  rw [blur_signal, blur_stack]
  split
  · exact blur_loopAct B s R _
  · exact blur_codeAct B s R ha _
  · rfl
  · exact congrArg some (blur_turn B s R ha)
  · rfl

/-! ## When nobody is paused -/

/-- A call that is not flow control's, in the place of one that is. -/
def muted : Call → Call
  | .pauseWriting _ => .factory
  | .resumeWriting _ => .factory
  | x => x

theorem muted_eq_iff (x : Call) : muted x = x ↔ ¬ x.Flow := by
  cases x <;> simp [muted, Call.Flow]

/-- Nothing is left of what flow control keeps. -/
def unseen : Blur where
  buffer _ := 0
  paused _ := false
  limits _ := none
  control _ := false
  defaults _ := (16 * 1024, 64 * 1024)
  voice := id
  buffer_zero := rfl
  paused_false := rfl
  limits_none := rfl
  voice_plain _ _ := rfl

/-- No writer is paused or was told to pause or to go on. -/
def resumed : Blur where
  buffer := id
  paused _ := false
  limits := id
  control := id
  defaults := id
  voice := muted
  buffer_zero := rfl
  paused_false := rfl
  limits_none := rfl
  voice_plain x hx := (muted_eq_iff x).mpr hx

/-- Flow control is off, and no bytes are counted. -/
def switchedOff : Blur where
  buffer _ := 0
  paused := id
  limits := id
  control _ := false
  defaults := id
  voice := id
  buffer_zero := rfl
  paused_false := rfl
  limits_none := rfl
  voice_plain _ _ := rfl

/-- What a program sees that looks neither at write buffers nor at limits. -/
def outward (s : SimNetwork ρ) : SimNetwork ρ := s.blur unseen

/-- No writer is paused, and flow control has called nobody. -/
structure Awake (s : SimNetwork ρ) : Prop where
  writers : ∀ T ∈ s.transports, T.protocolPaused = false
  calls : ∀ x ∈ s.calls, ¬ x.2.Flow

/-- Flow control is off, and no bytes are counted. -/
structure Off (s : SimNetwork ρ) : Prop where
  control : s.flowControl = false
  buffers : ∀ T ∈ s.transports, T.writeBuffer = 0

/-- No write buffer is over its high mark. -/
def Fits (s : SimNetwork ρ) : Prop :=
  ∀ T ∈ s.transports, T.writeBuffer ≤ (s.effectiveLimits T).2

instance (s : SimNetwork ρ) : Decidable s.Fits :=
  inferInstanceAs (Decidable (∀ T ∈ s.transports, T.writeBuffer ≤ (s.effectiveLimits T).2))

theorem Off.fits {s : SimNetwork ρ} (hs : s.Off) : s.Fits := by
  intro T hT
  rw [hs.buffers T hT]
  exact Nat.zero_le _

variable {s} {u : SimNetwork ρ}

theorem blur_eq_iff {B : Blur} : s.blur B = s ↔
    (∀ T ∈ s.transports, T.blur B = T) ∧ B.control s.flowControl = s.flowControl ∧
      B.defaults s.flowDefaults = s.flowDefaults ∧ ∀ x ∈ s.calls, B.voice x.2 = x.2 := by
  have hmap : ∀ {α : Type} (f : α → α) (l : List α), l.map f = l ↔ ∀ x ∈ l, f x = x := by
    intro α f l
    induction l with
    | nil => simp
    | cons x l ih => simp [ih]
  constructor
  · intro h
    refine ⟨(hmap _ _).mp (congrArg transports h), congrArg flowControl h,
      congrArg flowDefaults h, fun x hx => ?_⟩
    exact congrArg Prod.snd ((hmap _ _).mp (congrArg SimNetwork.calls h) x hx)
  · rintro ⟨htransports, hcontrol, hdefaults, hcalls⟩
    have hcalls' : s.calls.map (fun x => (x.1, B.voice x.2)) = s.calls :=
      (hmap _ _).mpr fun x hx => Prod.ext rfl (hcalls x hx)
    rw [blur, (hmap _ _).mpr htransports, hcontrol, hdefaults, hcalls']

theorem awake_iff : s.Awake ↔ s.blur resumed = s := by
  rw [blur_eq_iff]
  constructor
  · intro h
    refine ⟨fun T hT => ?_, rfl, rfl, fun x hx => (muted_eq_iff _).mpr (h.calls x hx)⟩
    simp only [StreamTransport.blur, resumed, ← h.writers T hT, id]
  · rintro ⟨hwriters, -, -, hcalls⟩
    refine ⟨fun T hT => ?_, fun x hx => (muted_eq_iff _).mp (hcalls x hx)⟩
    exact (congrArg StreamTransport.protocolPaused (hwriters T hT)).symm

theorem off_iff : s.Off ↔ s.blur switchedOff = s := by
  rw [blur_eq_iff]
  constructor
  · intro h
    refine ⟨fun T hT => ?_, h.control.symm, rfl, fun _ _ => rfl⟩
    simp only [StreamTransport.blur, switchedOff, ← h.buffers T hT, id]
  · rintro ⟨hbuffers, hcontrol, -, -⟩
    exact ⟨hcontrol.symm, fun T hT =>
      (congrArg StreamTransport.writeBuffer (hbuffers T hT)).symm⟩

/-- Nobody who does not look at flow control can tell that `s` became `u`. -/
structure Unnoticed (s u : SimNetwork ρ) : Prop where
  outward : u.outward = s.outward
  awake : s.Awake → u.Awake
  off : s.Off → u.Off

namespace Unnoticed

theorem refl (s : SimNetwork ρ) : Unnoticed s s := ⟨rfl, id, id⟩

/-- A change of a transport that only flow control sees. -/
theorem setTransport {f : StreamTransport → StreamTransport}
    (hf : ∀ T, (f T).blur unseen = T.blur unseen)
    (hpaused : ∀ T, T.protocolPaused = false → (f T).protocolPaused = false)
    (hbuffer : s.Off → ∀ T, T.writeBuffer = 0 → (f T).writeBuffer = 0) (t : Nat) :
    Unnoticed s (s.setTransport t f) := by
  have hmem : ∀ {P : StreamTransport → Prop}, (∀ T, P T → P (f T)) →
      (∀ T ∈ s.transports, P T) → ∀ T ∈ (s.setTransport t f).transports, P T := by
    intro P hP hall T hT
    obtain ⟨i, hi⟩ := List.mem_iff_getElem?.mp hT
    rw [SimNetwork.setTransport, List.getElem?_modify] at hi
    obtain ⟨T₀, hT₀, rfl⟩ := Option.map_eq_some_iff.mp hi
    split
    · exact hP T₀ (hall T₀ (List.mem_of_getElem? hT₀))
    · exact hall T₀ (List.mem_of_getElem? hT₀)
  refine ⟨?_, fun hs => ⟨hmem hpaused hs.writers, hs.calls⟩, fun hs =>
    ⟨hs.control, hmem (hbuffer hs) hs.buffers⟩⟩
  simp only [SimNetwork.outward, blur, SimNetwork.setTransport, map_modify_eq hf]

end Unnoticed

/-- The writer has room: `_maybe_pause_protocol` does nothing. -/
theorem maybePauseProtocol_of_le {t : Nat}
    (h : ∀ T, s.transports[t]? = some T → T.writeBuffer ≤ (s.effectiveLimits T).2) :
    maybePauseProtocol t s = s.back := by
  unfold maybePauseProtocol
  cases hT : s.transports[t]? with
  | none => rfl
  | some T =>
      dsimp only
      rw [if_pos (.inl (h T hT))]

/-- `_maybe_pause_protocol` pauses nobody unless a buffer is over its mark afterwards. -/
theorem maybePauseProtocol_of_fits {t : Nat} (hfits : s.Off ∨ (maybePauseProtocol t s).Fits) :
    maybePauseProtocol t s = s.back := by
  rcases hfits with hs | hfits
  · exact maybePauseProtocol_of_le fun T hT => hs.fits T (List.mem_of_getElem? hT)
  · unfold maybePauseProtocol at hfits ⊢
    cases hT : s.transports[t]? with
    | none => rfl
    | some T =>
        simp only [hT] at hfits
        dsimp only
        split
        · rfl
        · rename_i hpauses
          rw [if_neg hpauses] at hfits
          have hmem : ({ T with protocolPaused := true } : StreamTransport) ∈
              (s.setTransport t fun T => { T with protocolPaused := true }).transports := by
            refine List.mem_of_getElem? (i := t) ?_
            rw [setTransport, List.getElem?_modify_eq, hT]
            rfl
          have hle : T.writeBuffer ≤ (s.effectiveLimits T).2 :=
            hfits { T with protocolPaused := true } hmem
          exact absurd (.inl hle) hpauses

/-- Nobody is paused: `_maybe_resume_protocol` does nothing. -/
theorem maybeResumeProtocol_of_awake {t : Nat}
    (h : ∀ T, s.transports[t]? = some T → T.protocolPaused = false) :
    maybeResumeProtocol t s = s.back := by
  unfold maybeResumeProtocol
  cases hT : s.transports[t]? with
  | none => rfl
  | some T => simp only [h T hT, Bool.not_false, true_or, if_true]

theorem charge_unnoticed {t count : Nat} (hfits : s.Off ∨ (charge t count s).Fits) :
    ∃ u, charge t count s = u.back ∧ Unnoticed s u := by
  unfold charge at hfits ⊢
  cases hcontrol : s.flowControl with
  | false => exact ⟨s, rfl, .refl s⟩
  | true =>
      rw [hcontrol] at hfits
      rcases hfits with hs | hfits
      · rw [hs.control] at hcontrol
        cases hcontrol
      · refine ⟨_, maybePauseProtocol_of_fits (.inr hfits), .setTransport ?_ ?_ ?_ t⟩
        · exact fun _ => rfl
        · exact fun _ h => h
        · intro hs
          rw [hs.control] at hcontrol
          cases hcontrol

theorem consumed_unnoticed (hs : s.Awake) (t count : Nat) :
    ∃ u, consumed t count s = u.back ∧ Unnoticed s u := by
  unfold consumed
  cases hcontrol : s.flowControl with
  | false => exact ⟨s, rfl, .refl s⟩
  | true =>
      rw [if_neg (by decide)]
      cases s.transports[t]? with
      | none => exact ⟨s, rfl, .refl s⟩
      | some T =>
          dsimp only
          cases s.streams.get? T.outKey with
          | none => exact ⟨s, rfl, .refl s⟩
          | some peer =>
              dsimp only
              unfold credit
              cases s.transports[peer]? with
              | none => exact ⟨s, rfl, .refl s⟩
              | some P =>
                  dsimp only
                  split
                  · exact ⟨s, rfl, .refl s⟩
                  · have hcredited : Unnoticed s (s.setTransport peer fun T =>
                        { T with writeBuffer := T.writeBuffer - count }) := by
                      refine .setTransport ?_ ?_ ?_ peer
                      · exact fun _ => rfl
                      · exact fun _ h => h
                      · intro _ T hT
                        dsimp only
                        rw [hT, Nat.zero_sub]
                    refine ⟨_, maybeResumeProtocol_of_awake fun T hT => ?_, hcredited⟩
                    exact (hcredited.awake hs).writers T (List.mem_of_getElem? hT)

/-- The frame that a turn of the loop of `set_flow_control` leaves. -/
def releasing (ts : List Nat) (s : SimNetwork ρ) : SimNetwork ρ :=
  match ts with
  | [] => s
  | _ :: rest => { s with stack := .release rest :: s.stack }

theorem releaseNext_unnoticed (hs : s.Awake) (ts : List Nat) :
    ∃ u, releaseNext ts s = u.back ∧ Unnoticed (releasing ts s) u := by
  cases ts with
  | nil => exact ⟨s, rfl, .refl s⟩
  | cons t rest =>
      unfold releaseNext
      cases hT : s.transports[t]? with
      | none =>
          refine ⟨_, ?_, .refl _⟩
          simp only [hT]
          rfl
      | some T =>
          refine ⟨_, ?_, .setTransport (f := fun T =>
            { T with writeBuffer := 0, protocolPaused := false }) ?_ ?_ ?_ t⟩
          · simp only [hT, hs.writers T (List.mem_of_getElem? hT), Bool.not_false, true_or,
              if_true]
            rfl
          · exact fun _ => rfl
          · exact fun _ _ => rfl
          · exact fun _ _ _ => rfl

theorem releasing_keeps (ts : List Nat) (s : SimNetwork ρ) :
    (s.Awake → (releasing ts s).Awake) ∧ (s.Off → (releasing ts s).Off) := by
  cases ts with
  | nil => exact ⟨id, id⟩
  | cons t rest => exact ⟨fun h => ⟨h.writers, h.calls⟩, fun h => ⟨h.control, h.buffers⟩⟩

theorem outward_releasing (ts : List Nat) (s : SimNetwork ρ) :
    (releasing ts s).outward = releasing ts s.outward := by
  cases ts <;> rfl

theorem limited_unnoticed (t : Nat) (limits : Nat × Nat) :
    Unnoticed s (s.setTransport t fun T => { T with limits := some limits }) := by
  refine .setTransport ?_ ?_ ?_ t
  · exact fun _ => rfl
  · exact fun _ h => h
  · exact fun _ _ h => h

/-! ## Two networks that look the same -/

theorem outward_armed (s : SimNetwork ρ) (armed : Bool) (limits : Nat × Nat) :
    outward { s with flowControl := armed, flowDefaults := limits } = s.outward := rfl

theorem outward_outward (s : SimNetwork ρ) : s.outward.outward = s.outward := by
  simp only [outward, blur, List.map_map]
  rfl

theorem Awake.of_outward (hs : s.Awake) : s.outward.Awake ∧ s.outward.Off := by
  have hall : ∀ T ∈ s.outward.transports, T.protocolPaused = false ∧ T.writeBuffer = 0 := by
    intro T hT
    obtain ⟨T₀, -, rfl⟩ := List.mem_map.mp hT
    exact ⟨rfl, rfl⟩
  refine ⟨⟨fun T hT => (hall T hT).1, fun x hx => ?_⟩, rfl, fun T hT => (hall T hT).2⟩
  obtain ⟨x₀, hx₀, rfl⟩ := List.mem_map.mp hx
  exact hs.calls x₀ hx₀

/-- The act switches flow control on. -/
def enables : Act → Bool
  | .setFlowControl enabled _ _ => enabled
  | _ => false

/-- What `f` makes of `s` looks the same as what it makes of anything that looks like `s`;
it pauses nobody, and counts no bytes when flow control is off. -/
structure Steady (f : SimNetwork ρ → SimNetwork ρ) (s : SimNetwork ρ) : Prop where
  outward : (f s).outward = (f s.outward).outward
  awake : (f s).Awake
  off : s.Off → (f s).Off

/-- Both return, and what they did before is not to be seen. -/
theorem Steady.of_back {f : SimNetwork ρ → SimNetwork ρ} {w u v : SimNetwork ρ}
    (hw : w.Awake) (hoff : s.Off → w.Off) (hu : f s = u.back) (hwu : Unnoticed w u)
    (hv : f s.outward = v.back) (hwv : v.outward = w.outward) : Steady f s := by
  refine ⟨?_, hu ▸ ⟨(hwu.awake hw).writers, (hwu.awake hw).calls⟩, fun hs => ?_⟩
  · rw [hu, hv]
    exact congrArg back (hwu.outward.trans hwv.symm)
  · rw [hu]
    exact ⟨(hwu.off (hoff hs)).control, (hwu.off (hoff hs)).buffers⟩

theorem Steady.of_throw {f : SimNetwork ρ → SimNetwork ρ} {e : Exc} (hs : s.Awake)
    (hu : f s = s.throw e) (hv : f s.outward = s.outward.throw e) : Steady f s := by
  refine ⟨?_, hu ▸ ⟨hs.writers, hs.calls⟩, fun hoff => hu ▸ ⟨hoff.control, hoff.buffers⟩⟩
  rw [hu, hv]
  exact congrArg (throw · e) (outward_outward s).symm

section

variable (R : RandomSource ρ)

theorem write_of_none {t : Nat} (hT : s.transports[t]? = none) (data : Bytes) :
    write R t data s = s.back := by
  unfold write
  rw [hT]

theorem write_of_shut {t : Nat} {T : StreamTransport} (hT : s.transports[t]? = some T)
    (hshut : T.eofSent ∨ T.closing ∨ T.closed) (data : Bytes) :
    write R t data s = s.throw (.error .runtimeError "Cannot write to closing transport") := by
  unfold write
  rw [hT]
  exact if_pos hshut

theorem write_of_open {t : Nat} {T : StreamTransport} (hT : s.transports[t]? = some T)
    (hopen : ¬ (T.eofSent ∨ T.closing ∨ T.closed)) (data : Bytes) :
    write R t data s =
      let w : SimNetwork ρ := { s with calls := s.calls ++ [(s.current, .wrote t data)] }
      if data = [] then w.back else charge t data.length (send R t .data data w) := by
  unfold write
  rw [hT]
  exact if_neg hopen

theorem write_steady (hs : s.Awake) {t : Nat} {data : Bytes}
    (hfits : s.Off ∨ (write R t data s).Fits) : Steady (write R t data) s := by
  cases hT : s.transports[t]? with
  | none =>
      have hsame : s.outward.transports[t]? = none := by rw [outward, blur_getElem?, hT]; rfl
      exact .of_back hs id (write_of_none R hT data) (.refl s) (write_of_none R hsame data)
        (outward_outward s)
  | some T =>
      have hsame : s.outward.transports[t]? = some (T.blur unseen) := by
        rw [outward, blur_getElem?, hT, Option.map_some]
      let w : SimNetwork ρ := { s with calls := s.calls ++ [(s.current, .wrote t data)] }
      have hw : w.Awake := by
        refine ⟨hs.writers, fun x hx => ?_⟩
        rcases List.mem_append.mp hx with hx | hx
        · exact hs.calls x hx
        · rw [List.mem_singleton.mp hx]
          exact id
      have hwq : w.outward =
          { s.outward with calls := s.outward.calls ++ [(s.outward.current, .wrote t data)] } := by
        simp only [w, outward, blur, List.map_append]
        rfl
      by_cases hshut : T.eofSent ∨ T.closing ∨ T.closed
      · exact .of_throw hs (write_of_shut R hT hshut data) (write_of_shut R hsame hshut data)
      · have hu := write_of_open R hT hshut data
        have hv := write_of_open R hsame hshut data
        by_cases hdata : data = []
        · refine .of_back hw (fun h => ⟨h.control, h.buffers⟩) (hu.trans (if_pos hdata)) (.refl w)
            ?_ (outward_outward w)
          rw [hv, hwq]
          exact if_pos hdata
        · replace hu : write R t data s = charge t data.length (send R t .data data w) :=
            hu.trans (if_neg hdata)
          replace hv : write R t data s.outward =
              charge t data.length (send R t .data data w).outward := by
            have hsend : (send R t .data data w).outward = send R t .data data w.outward :=
              (blur_send unseen w R t .data data).symm
            rw [hsend, hwq, hv]
            exact if_neg hdata
          have hsent : (send R t .data data w).Awake := by
            rw [awake_iff, ← blur_send, awake_iff.mp hw]
          have hoff : s.Off → (send R t .data data w).Off := by
            intro h
            have hw' : w.Off := ⟨h.control, h.buffers⟩
            rw [off_iff, ← blur_send, off_iff.mp hw']
          obtain ⟨u, hu', hwu⟩ := charge_unnoticed (hfits.imp hoff fun h => hu ▸ h)
          obtain ⟨v, hv', hwv⟩ := charge_unnoticed (.inl hsent.of_outward.2)
          exact .of_back hsent hoff (hu.trans hu') hwu (hv.trans hv')
            (hwv.outward.trans (outward_outward _))

theorem consumed_steady (hs : s.Awake) (t count : Nat) : Steady (consumed t count) s := by
  obtain ⟨u, hu, hsu⟩ := consumed_unnoticed hs t count
  obtain ⟨v, hv, hsv⟩ := consumed_unnoticed hs.of_outward.1 t count
  exact .of_back hs id hu hsu hv (hsv.outward.trans (outward_outward s))

theorem releaseNext_steady (hs : s.Awake) (ts : List Nat) : Steady (releaseNext ts) s := by
  obtain ⟨u, hu, hwu⟩ := releaseNext_unnoticed hs ts
  obtain ⟨v, hv, hwv⟩ := releaseNext_unnoticed hs.of_outward.1 ts
  refine .of_back ((releasing_keeps ts s).1 hs) (releasing_keeps ts s).2 hu hwu hv ?_
  rw [hwv.outward, outward_releasing, outward_releasing, outward_outward]

theorem setWriteBufferLimits_steady (hs : s.Awake) {t : Nat} {high low : Option Int}
    (hfits : s.Off ∨ (setWriteBufferLimits t high low s).Fits) :
    Steady (setWriteBufferLimits t high low) s := by
  unfold setWriteBufferLimits at hfits
  cases hlimits : checkLimits high low with
  | error e =>
      refine .of_throw hs (e := e) ?_ ?_ <;> simp only [setWriteBufferLimits, hlimits]
  | ok limits =>
      simp only [hlimits] at hfits
      have hsu := limited_unnoticed (s := s) t limits
      have hsv := limited_unnoticed (s := s.outward) t limits
      refine .of_back hs id ?_ hsu ?_ (hsv.outward.trans (outward_outward s))
      · simp only [setWriteBufferLimits, hlimits]
        exact maybePauseProtocol_of_fits (hfits.imp hsu.off id)
      · simp only [setWriteBufferLimits, hlimits]
        exact maybePauseProtocol_of_fits (.inl (hsv.off hs.of_outward.2))

theorem setFlowControl_of_error {high low : Option Int} {e : Exc}
    (h : (if high.isSome ∨ low.isSome then checkLimits high low else .ok s.flowDefaults) =
      .error e) (enabled : Bool) : setFlowControl enabled high low s = s.throw e := by
  unfold setFlowControl
  dsimp only
  rw [h]

theorem setFlowControl_of_ok {high low : Option Int} {limits : Nat × Nat}
    (h : (if high.isSome ∨ low.isSome then checkLimits high low else .ok s.flowDefaults) =
      .ok limits) :
    setFlowControl false high low s = releaseNext (s.streams.entries.map (·.2))
      { s with flowDefaults := limits, flowControl := false } := by
  unfold setFlowControl
  dsimp only
  rw [h]
  rfl

theorem setFlowControl_steady (hs : s.Awake) (high low : Option Int) :
    Steady (setFlowControl false high low) s := by
  have hreleased : ∀ limits limits' : Nat × Nat,
      setFlowControl false high low s = releaseNext (s.streams.entries.map (·.2))
        { s with flowDefaults := limits, flowControl := false } →
      setFlowControl false high low s.outward = releaseNext (s.streams.entries.map (·.2))
        { s.outward with flowDefaults := limits', flowControl := false } →
      Steady (setFlowControl false high low) s := by
    intro limits limits' hu hv
    let w : SimNetwork ρ := { s with flowDefaults := limits, flowControl := false }
    have hw : w.Awake := ⟨hs.writers, hs.calls⟩
    have hw' : Awake { s.outward with flowDefaults := limits', flowControl := false } :=
      ⟨hs.of_outward.1.writers, hs.of_outward.1.calls⟩
    obtain ⟨u, hu', hwu⟩ := releaseNext_unnoticed hw (s.streams.entries.map (·.2))
    obtain ⟨v, hv', hwv⟩ := releaseNext_unnoticed hw' (s.streams.entries.map (·.2))
    refine .of_back ((releasing_keeps _ w).1 hw) (fun h => ?_) (hu.trans hu') hwu
      (hv.trans hv') ?_
    · exact (releasing_keeps _ w).2 ⟨rfl, h.buffers⟩
    · rw [hwv.outward, outward_releasing, outward_releasing]
      exact congrArg (releasing _) (outward_outward s)
  by_cases hgiven : high.isSome ∨ low.isSome
  · cases hlimits : checkLimits high low with
    | error e =>
        exact .of_throw hs (setFlowControl_of_error ((if_pos hgiven).trans hlimits) false)
          (setFlowControl_of_error ((if_pos hgiven).trans hlimits) false)
    | ok limits =>
        exact hreleased limits limits (setFlowControl_of_ok ((if_pos hgiven).trans hlimits))
          (setFlowControl_of_ok ((if_pos hgiven).trans hlimits))
  · exact hreleased s.flowDefaults s.outward.flowDefaults (setFlowControl_of_ok (if_neg hgiven))
      (setFlowControl_of_ok (if_neg hgiven))

/-- **A step is the same to everyone who does not look at flow control**, as long as no write
buffer is over its high mark after it. -/
theorem perform_steady (hs : s.Awake) {a : Act} {s' : SimNetwork ρ} (ha : enables a = false)
    (hstep : perform R s a = some s') (hfits : s.Off ∨ s'.Fits) :
    s'.Awake ∧ (s.Off → s'.Off) ∧
      ∃ v, perform R s.outward a = some v ∧ v.outward = s'.outward := by
  by_cases hplain : s.Plain a
  · refine ⟨?_, fun hoff => ?_, s'.outward, ?_, outward_outward s'⟩
    · have hblur := blur_perform resumed s R hplain
      rw [awake_iff.mp hs, hstep] at hblur
      exact awake_iff.mpr (Option.some.inj hblur).symm
    · have hblur := blur_perform switchedOff s R hplain
      rw [off_iff.mp hoff, hstep] at hblur
      exact off_iff.mpr (Option.some.inj hblur).symm
    · have hblur := blur_perform unseen s R hplain
      rw [hstep] at hblur
      exact hblur
  · rcases step_cases R hstep with ⟨-, -, hloop⟩ | ⟨rest, hsignal, hstack, hcode⟩ | ⟨rfl, -, rfl⟩
    · cases a
      case write => cases hloop
      case setWriteBufferLimits => cases hloop
      case setFlowControl => cases hloop
      case tick => cases hloop
      all_goals exact absurd trivial hplain
    · have hsame : perform R s.outward a = codeAct R rest s.outward a := by
        unfold perform
        rw [show s.outward.signal = .run from hsignal, show s.outward.stack = _ from hstack]
      cases a
      case write t data =>
        simp only [codeAct] at hcode
        split at hcode
        · rename_i hexposed
          obtain rfl := Option.some.inj hcode
          have hsteady := write_steady R hs hfits
          refine ⟨hsteady.awake, hsteady.off, _, hsame.trans ?_, hsteady.outward.symm⟩
          rw [codeAct, outward, blur_exposed, if_pos hexposed]
        · cases hcode
      case setWriteBufferLimits t high low =>
        simp only [codeAct] at hcode
        split at hcode
        · rename_i hexposed
          obtain rfl := Option.some.inj hcode
          have hsteady := setWriteBufferLimits_steady hs hfits
          refine ⟨hsteady.awake, hsteady.off, _, hsame.trans ?_, hsteady.outward.symm⟩
          rw [codeAct, outward, blur_exposed, if_pos hexposed]
        · cases hcode
      case setFlowControl enabled high low =>
        obtain rfl : enabled = false := ha
        obtain rfl := Option.some.inj hcode
        have hsteady := setFlowControl_steady hs high low
        exact ⟨hsteady.awake, hsteady.off, _, hsame, hsteady.outward.symm⟩
      case tick => cases hcode
      all_goals exact absurd trivial hplain
    · simp only [Plain, not_forall] at hplain
      obtain ⟨v, hsignal, f, hf, hnot⟩ := hplain
      obtain ⟨rest, hstack⟩ := List.head?_eq_some_iff.mp hf
      let w : SimNetwork ρ := { s with stack := rest }
      have hw : w.Awake := ⟨hs.writers, hs.calls⟩
      have hturn : ∀ u : SimNetwork ρ, u.signal = .returned v → u.stack = f :: rest →
          turn R u = proceed R f v { u with stack := rest } := by
        intro u hu hu'
        unfold turn
        rw [hu, hu']
      have hsame : perform R s.outward .tick = some (proceed R f v w.outward) := by
        unfold perform
        rw [show s.outward.signal = .returned v from hsignal]
        exact congrArg some (hturn s.outward hsignal hstack)
      rw [hturn s hsignal hstack]
      have hsteady : Steady (proceed R f v) w := by
        cases f with
        | consumed t count => exact consumed_steady hw t count
        | release ts => exact releaseNext_steady hw ts
        | _ => exact absurd trivial hnot
      exact ⟨hsteady.awake, fun h => hsteady.off ⟨h.control, h.buffers⟩, _, hsame,
        hsteady.outward.symm⟩

/-- The act that sets flow control. -/
def switches : Act → Bool
  | .setFlowControl _ _ _ => true
  | _ => false

/-- An act is possible or not, whatever flow control keeps. -/
theorem isSome_perform_outward (s : SimNetwork ρ) (a : Act) :
    (perform R s.outward a).isSome = (perform R s a).isSome := by
  by_cases hplain : s.Plain a
  · rw [outward, blur_perform unseen s R hplain, Option.isSome_map]
  · have hexposed : ∀ (t : Nat) (x y : SimNetwork ρ),
        (if s.outward.exposed t then some x else none).isSome =
          (if s.exposed t then some y else none).isSome := by
      intro t x y
      rw [outward, blur_exposed]
      split <;> rfl
    have hparty : (loopAct R s.outward a).isSome = (loopAct R s a).isSome →
        (∀ rest, (codeAct R rest s.outward a).isSome = (codeAct R rest s a).isSome) →
        (perform R s.outward a).isSome = (perform R s a).isSome := by
      intro hloop hcode
      unfold perform
      rw [show s.outward.signal = s.signal from rfl, show s.outward.stack = s.stack from rfl]
      split
      · exact hloop
      · exact hcode _
      all_goals rfl
    cases a
    case write => exact hparty rfl fun _ => hexposed _ _ _
    case setWriteBufferLimits => exact hparty rfl fun _ => hexposed _ _ _
    case setFlowControl => exact hparty rfl fun _ => rfl
    case tick => exact hparty rfl fun _ => rfl
    all_goals exact absurd trivial hplain

/-- Two networks that look the same go on to look the same. -/
theorem perform_alike {a : Act} {s s' u : SimNetwork ρ} (hs : s.Awake) (hs' : s'.Awake)
    (hsame : s'.outward = s.outward) (ha : enables a = false) (hstep : perform R s a = some u)
    (hfits : s.Off ∨ u.Fits) (hoff : s'.Off) :
    ∃ u', perform R s' a = some u' ∧ u'.outward = u.outward ∧ u'.Awake ∧ u'.Off := by
  obtain ⟨-, -, v, hv, hvu⟩ := perform_steady R hs ha hstep hfits
  have hsome : (perform R s' a).isSome = true := by
    rw [← isSome_perform_outward, hsame, hv]
    rfl
  obtain ⟨u', hu'⟩ := Option.isSome_iff_exists.mp hsome
  obtain ⟨hawake, hoff', v', hv', hvu'⟩ := perform_steady R hs' ha hu' (.inl hoff)
  rw [hsame, hv] at hv'
  obtain rfl := Option.some.inj hv'
  exact ⟨u', hu', hvu'.symm.trans hvu, hawake, hoff' hoff⟩

/-- `set_write_buffer_limits` with flow control off: nobody is called, and nobody can tell. -/
theorem setWriteBufferLimits_off (hs : s.Off) (t : Nat) (high low : Option Int) :
    (setWriteBufferLimits t high low s).signal ≠ .run ∧
      (setWriteBufferLimits t high low s).stack = s.stack ∧
      outward { setWriteBufferLimits t high low s with signal := s.signal } = s.outward := by
  unfold setWriteBufferLimits
  cases checkLimits high low with
  | error e => exact ⟨(fun h => by cases h), rfl, rfl⟩
  | ok limits =>
      have hsu := limited_unnoticed (s := s) t limits
      dsimp only
      rw [maybePauseProtocol_of_fits (.inl (hsu.off hs))]
      exact ⟨(fun h => by cases h), rfl, hsu.outward⟩

end

/-! ## Runs of a workload -/

section Workloads

variable {σ : Type}

/-- A program, with the loop that chooses among its tasks and callbacks: what it does next
depends on what it has come to and on what it sees of the network. -/
structure Workload (σ ρ : Type) where
  next : σ → SimNetwork ρ → Act × σ

/-- A call of `set_write_buffer_limits`. -/
abbrev LimitsCall := Nat × Option Int × Option Int

/-- The workload goes on when it is its turn; it sees neither write buffers nor limits. -/
def Workload.Step (R : RandomSource ρ) (W : Workload σ ρ) (x : σ × SimNetwork ρ) (a : Act)
    (y : σ × SimNetwork ρ) : Prop :=
  SimNetwork.Step R x.2 a y.2 ∧
    if x.2.signal = .run then W.next x.1 x.2.outward = (a, y.1) else y.1 = x.1

/-- The same workload, and calls of `set_write_buffer_limits` at any time. -/
def Workload.LimitsStep (R : RandomSource ρ) (W : Workload σ ρ) (x : σ × SimNetwork ρ)
    (l : Act ⊕ LimitsCall) (y : σ × SimNetwork ρ) : Prop :=
  match l with
  | .inl a => W.Step R x a y
  | .inr (t, high, low) =>
    SimNetwork.Step R x.2 (.setWriteBufferLimits t high low) y.2 ∧ y.1 = x.1

/-- What is left of a run without those calls: they go, and each takes the tick in which it
returns with it.  The second part says that such a tick is still to come. -/
def withoutLimits (labels : List (Act ⊕ LimitsCall)) : List Act × Bool :=
  labels.foldl (fun r l =>
    match l with
    | .inl a => if r.2 then (r.1, false) else (r.1 ++ [a], false)
    | .inr _ => (r.1, true)) ([], false)

theorem withoutLimits_concat (labels : List (Act ⊕ LimitsCall)) (l : Act ⊕ LimitsCall) :
    withoutLimits (labels ++ [l]) = match l with
      | .inl a =>
        if (withoutLimits labels).2 then ((withoutLimits labels).1, false)
        else ((withoutLimits labels).1 ++ [a], false)
      | .inr _ => ((withoutLimits labels).1, true) := by
  rw [withoutLimits, List.foldl_append]
  rfl

theorem awake_init (R : RandomSource ρ) (seed : Int) : (init R seed).Awake ∧ (init R seed).Off := by
  have hhost : ∀ u : SimNetwork ρ, u.Awake ∧ u.Off →
      (host u driver).2.Awake ∧ (host u driver).2.Off := by
    rintro u ⟨hawake, hoff⟩
    have hsame : ∀ B, u.blur B = u → (host u driver).2.blur B = (host u driver).2 := by
      intro B hu
      have h := congrArg Prod.snd (blind_host B driver u)
      dsimp only at h
      rw [hu] at h
      exact h.symm
    exact ⟨awake_iff.mpr (hsame _ (awake_iff.mp hawake)), off_iff.mpr (hsame _ (off_iff.mp hoff))⟩
  unfold init
  refine hhost _ ⟨⟨?_, ?_⟩, rfl, ?_⟩
  all_goals exact fun _ h => absurd h List.not_mem_nil

variable {R : RandomSource ρ} {W : Workload σ ρ} {x : σ × SimNetwork ρ}

/-- The run with the calls of `set_write_buffer_limits` has come to `s`, and the run without
them to `s'`; such a call is still to return if `returning`. -/
structure Tracks (s s' : SimNetwork ρ) (returning : Bool) : Prop where
  awake : s.Awake ∧ s'.Awake
  off : s.Off ∧ s'.Off
  same : returning = false → s'.outward = s.outward
  behind : returning = true → s.signal ≠ .run ∧ (∃ rest, s.stack = .code :: rest) ∧
    s'.outward = outward { s with signal := .run }

/-- A call of `set_write_buffer_limits`, which the other run does not make. -/
theorem Tracks.call {s s' u : SimNetwork ρ} {t : Nat} {high low : Option Int} {returning : Bool}
    (h : Tracks s s' returning)
    (hstep : SimNetwork.Step R s (.setWriteBufferLimits t high low) u) : Tracks u s' true := by
  rcases step_cases R hstep with ⟨-, -, hloop⟩ | ⟨rest, hsignal, hstack, hcode⟩ | ⟨hact, -, -⟩
  · cases hloop
  · have hreturning : returning = false := by
      by_contra hne
      exact (h.behind (Bool.of_not_eq_false hne)).1 hsignal
    obtain ⟨hawake, hoff, -⟩ := perform_steady R h.awake.1 rfl hstep (.inl h.off.1)
    simp only [codeAct] at hcode
    split at hcode
    · obtain ⟨hpending, hdeep, hsame⟩ := setWriteBufferLimits_off h.off.1 t high low
      rw [Option.some.inj hcode] at hpending hdeep hsame
      rw [hsignal] at hsame
      refine ⟨⟨hawake, h.awake.2⟩, ⟨hoff h.off.1, h.off.2⟩, (fun h => by cases h), fun _ => ?_⟩
      exact ⟨hpending, ⟨rest, hdeep.trans hstack⟩, (h.same hreturning).trans hsame.symm⟩
    · cases hcode
  · cases hact

/-- A step that both runs make, or the tick in which such a call returns. -/
theorem Tracks.own {s s' u : SimNetwork ρ} {y z : σ} {a : Act} {acts : List Act}
    {returning : Bool} (h : Tracks s s' returning) (run : Run (W.Step R) x acts (y, s'))
    (ha : enables a = false) (hstep : W.Step R (y, s) a (z, u)) :
    ∃ u', Tracks u u' false ∧
      Run (W.Step R) x (if returning then acts else acts ++ [a]) (z, u') := by
  obtain ⟨hnet, hnext⟩ := hstep
  cases returning with
  | false =>
      have hsame := h.same rfl
      obtain ⟨hawake, hoff, -⟩ := perform_steady R h.awake.1 ha hnet (.inl h.off.1)
      obtain ⟨u', hu', hsame', hawake', hoff'⟩ :=
        perform_alike R h.awake.1 h.awake.2 hsame ha hnet (.inl h.off.1) h.off.2
      have hsignal : s'.signal = s.signal := (congrArg signal hsame :)
      refine ⟨u', ⟨⟨hawake, hawake'⟩, ⟨hoff h.off.1, hoff'⟩, fun _ => hsame', fun h => by cases h⟩,
        .snoc run ⟨hu', ?_⟩⟩
      dsimp only at hnext ⊢
      rw [hsignal, hsame]
      exact hnext
  | true =>
      obtain ⟨hpending, ⟨rest, hstack⟩, hsame⟩ := h.behind rfl
      rcases step_cases R hnet with ⟨hrun, -, -⟩ | ⟨-, hrun, -, -⟩ | ⟨-, -, hu⟩
      · exact absurd hrun hpending
      · exact absurd hrun hpending
      · dsimp only at hnext hu
        rw [turn_of_code R hstack] at hu
        rw [if_neg hpending] at hnext
        subst hu hnext
        refine ⟨s', ⟨⟨⟨h.awake.1.writers, h.awake.1.calls⟩, h.awake.2⟩,
          ⟨⟨h.off.1.control, h.off.1.buffers⟩, h.off.2⟩, fun _ => hsame, fun h => by cases h⟩, run⟩

/-- What the calls of `set_write_buffer_limits` leave of a run with flow control off. -/
theorem tracks_of_run {seed : Int} {start : σ} {labels : List (Act ⊕ LimitsCall)}
    {y : σ × SimNetwork ρ} (run : Run (W.LimitsStep R) (start, init R seed) labels y)
    (hoff : ∀ a, .inl a ∈ labels → enables a = false) :
    ∃ s', Tracks y.2 s' (withoutLimits labels).2 ∧
      Run (W.Step R) (start, init R seed) (withoutLimits labels).1 (y.1, s') := by
  induction run with
  | nil =>
      obtain ⟨hawake, hcontrol⟩ := awake_init R seed
      exact ⟨_, ⟨⟨hawake, hawake⟩, ⟨hcontrol, hcontrol⟩, fun _ => rfl, fun h => by cases h⟩, .nil _⟩
  | @snoc y z labels l _ hstep ih =>
      obtain ⟨s', htracks, hrun⟩ := ih fun a ha => hoff a (List.mem_append_left _ ha)
      rw [withoutLimits_concat]
      cases l with
      | inl a =>
          have ha := hoff a (List.mem_append_right _ (List.mem_singleton.mpr rfl))
          obtain ⟨u', hu', hrun'⟩ := htracks.own hrun ha hstep
          dsimp only
          split at hrun' <;> rename_i hreturning
          · rw [if_pos hreturning]
            exact ⟨u', hu', hrun'⟩
          · rw [if_neg hreturning]
            exact ⟨u', hu', hrun'⟩
      | inr call =>
          obtain ⟨hnet, hz⟩ := hstep
          exact ⟨s', htracks.call hnet, hz ▸ hrun⟩

/-- What is left of a run with flow control on in which no buffer is over its mark. -/
theorem alike_of_run {seed : Int} {start : σ} {limits : Nat × Nat} {acts : List Act}
    {y : σ × SimNetwork ρ}
    (run : Run (restrict (W.Step R) fun x a => x.2.Fits ∧ switches a = false)
      (start, { init R seed with flowControl := true, flowDefaults := limits }) acts y)
    (hfits : y.2.Fits) :
    ∃ s', y.2.Awake ∧ s'.Awake ∧ s'.Off ∧ s'.outward = y.2.outward ∧
      Run (W.Step R) (start, init R seed) acts (y.1, s') := by
  induction run with
  | nil =>
      obtain ⟨hawake, hoff⟩ := awake_init R seed
      refine ⟨_, ⟨hawake.writers, hawake.calls⟩, hawake, hoff, ?_, .nil _⟩
      exact (outward_armed (init R seed) true limits).symm
  | @snoc y z acts a _ hstep ih =>
      obtain ⟨⟨hnet, hnext⟩, hfit, hswitches⟩ := hstep
      obtain ⟨s', hawake, hawake', hoff, hsame, hrun⟩ := ih hfit
      have ha : enables a = false := by
        cases a <;> first | rfl | cases hswitches
      obtain ⟨hz, -⟩ := perform_steady R hawake ha hnet (.inr hfits)
      obtain ⟨u', hu', hsame', hu, huoff⟩ :=
        perform_alike R hawake hawake' hsame ha hnet (.inr hfits) hoff
      have hsignal : s'.signal = y.2.signal := (congrArg signal hsame :)
      refine ⟨u', hz, hu, huoff, hsame', .snoc hrun ⟨hu', ?_⟩⟩
      dsimp only
      rw [hsignal, hsame]
      exact hnext

/-- Networks that look the same have recorded the same trace and made the same calls. -/
theorem eq_of_outward {s s' : SimNetwork ρ} (h : s'.outward = s.outward) :
    s'.trace = s.trace ∧ s'.calls = s.calls := by
  have hcalls : ∀ u : SimNetwork ρ, u.outward.calls = u.calls := fun u => List.map_id' u.calls
  refine ⟨(congrArg trace h :), ?_⟩
  rw [← hcalls s', h, hcalls]

/-- **Flow control that is not needed changes nothing.** Of a workload that looks neither at
write buffers nor at limits: (a) as long as flow control is off, calls of
`set_write_buffer_limits` at any time pause and resume nobody, and the workload makes the
same choices and records the same trace without them; (b) if in a run with flow control on no
write buffer is ever over its high mark, the workload makes the same choices and records the
same trace with it off. -/
theorem unneeded_flow_control (R : RandomSource ρ) (W : Workload σ ρ) (start : σ) (seed : Int) :
    (∀ (labels : List (Act ⊕ LimitsCall)) (y : σ) (s : SimNetwork ρ),
      Run (W.LimitsStep R) (start, init R seed) labels (y, s) →
      (∀ a, .inl a ∈ labels → enables a = false) →
        (∀ c ∈ s.calls, ¬ c.2.Flow) ∧
        ∃ s', Run (W.Step R) (start, init R seed) (withoutLimits labels).1 (y, s') ∧
          s'.trace = s.trace ∧ s'.calls = s.calls) ∧
    (∀ (limits : Nat × Nat) (acts : List Act) (y : σ) (s : SimNetwork ρ),
      Run (restrict (W.Step R) fun x a => x.2.Fits ∧ switches a = false)
        (start, { init R seed with flowControl := true, flowDefaults := limits }) acts (y, s) →
      s.Fits →
        ∃ s', Run (W.Step R) (start, init R seed) acts (y, s') ∧
          s'.trace = s.trace ∧ s'.calls = s.calls) := by
  refine ⟨fun labels y s run hoff => ?_, fun limits acts y s run hfits => ?_⟩
  · obtain ⟨s', htracks, hrun⟩ := tracks_of_run run hoff
    refine ⟨htracks.awake.1.calls, s', hrun, ?_⟩
    cases hreturning : (withoutLimits labels).2 with
    | false => exact eq_of_outward (htracks.same hreturning)
    | true => exact eq_of_outward (s := { s with signal := .run }) (htracks.behind hreturning).2.2
  · obtain ⟨s', -, -, -, hsame, hrun⟩ := alike_of_run run hfits
    exact ⟨s', hrun, eq_of_outward hsame⟩

/-! ## A run of both kinds -/

/-- The workload that does the listed acts in turn, whatever it sees. -/
def Workload.scripted (acts : List Act) : Workload Nat ρ where
  next n _ := (acts[n]?.getD .tick, n + 1)

/-- What is done next, and what the workload comes to with it. -/
def Workload.choice (W : Workload σ ρ) (x : σ × SimNetwork ρ) : Act × σ :=
  if x.2.signal = .run then W.next x.1 x.2.outward else (.tick, x.1)

/-- So many steps of a workload, each from a state and with an act that pass a check. -/
def Workload.play (R : RandomSource ρ) (W : Workload σ ρ) (check : SimNetwork ρ → Act → Bool) :
    Nat → σ × SimNetwork ρ → Option (List Act × σ × SimNetwork ρ)
  | 0, x => some ([], x)
  | n + 1, x =>
    if check x.2 (W.choice x).1 then
      (perform R x.2 (W.choice x).1).bind fun s =>
        (W.play R check n ((W.choice x).2, s)).map fun r => ((W.choice x).1 :: r.1, r.2)
    else none

theorem run_of_play {check : SimNetwork ρ → Act → Bool} {n : Nat} {acts : List Act}
    {y : σ × SimNetwork ρ} (h : W.play R check n x = some (acts, y)) :
    Run (restrict (W.Step R) fun x a => check x.2 a) x acts y := by
  induction n generalizing x acts with
  | zero =>
      obtain ⟨rfl, rfl⟩ := Prod.mk.inj (Option.some.inj h)
      exact .nil _
  | succ n ih =>
      simp only [Workload.play] at h
      split at h
      · rename_i hcheck
        obtain ⟨s, hs, hrest⟩ := Option.bind_eq_some_iff.mp h
        obtain ⟨⟨rest, z⟩, hplay, heq⟩ := Option.map_eq_some_iff.mp hrest
        obtain ⟨rfl, rfl⟩ := Prod.mk.inj heq
        refine (Run.snoc (.nil x) ⟨⟨hs, ?_⟩, hcheck⟩).append (ih hplay)
        unfold Workload.choice
        by_cases hsignal : x.2.signal = .run
        · simp only [if_pos hsignal]
        · simp only [if_neg hsignal]
      · cases h

/-- A run without calls of `set_write_buffer_limits` is one in which they could be made. -/
theorem limits_run_of_run {acts : List Act} {y : σ × SimNetwork ρ}
    (run : Run (W.Step R) x acts y) : Run (W.LimitsStep R) x (acts.map .inl) y := by
  induction run with
  | nil => exact .nil _
  | snoc _ hstep ih =>
      rw [List.map_append]
      exact .snoc ih hstep

/-- A server of the driver that writes two bytes when a connection is made. -/
def echoServer : Workload Nat Unit :=
  .scripted [.callback driver, .startServer none 80, .openConnection driver 80, .ret {}, .fire 0,
    .ret {}, .write 0 [1, 2]]

theorem unneeded_flow_control_echoServer :
    (∃ (labels : List (Act ⊕ LimitsCall)) (y : Nat) (s s' : SimNetwork Unit),
      .inr (0, some 8, none) ∈ labels ∧
      Run (echoServer.LimitsStep .least) (0, init .least 0) labels (y, s) ∧
      Run (echoServer.Step .least) (0, init .least 0) (withoutLimits labels).1 (y, s') ∧
      s'.trace = s.trace) ∧
    ∃ (acts : List Act) (y : Nat) (s s' : SimNetwork Unit),
      s.transports.map StreamTransport.writeBuffer = [2] ∧
      Run (echoServer.Step .least) (0, init .least 0) acts (y, s') ∧ s'.trace = s.trace := by
  constructor
  · have hall : ((echoServer.play .least (fun _ _ => true) 10 (0, init .least 0)).bind fun r =>
        (perform .least r.2.2 (.setWriteBufferLimits 0 (some 8) none)).bind fun s =>
        (perform .least s .tick).map fun _ =>
          (r.1.all fun a => !enables a) && decide (s.signal ≠ .run)) = some true := by
      decide +kernel
    obtain ⟨⟨acts, y, s₀⟩, hplay, hrest⟩ := Option.bind_eq_some_iff.mp hall
    obtain ⟨s₁, hcall, hrest⟩ := Option.bind_eq_some_iff.mp hrest
    obtain ⟨s, hback, hrest⟩ := Option.map_eq_some_iff.mp hrest
    obtain ⟨henables, hsignal⟩ := Bool.and_eq_true_iff.mp hrest
    have hset : echoServer.LimitsStep .least (y, s₀) (.inr (0, some 8, none)) (y, s₁) :=
      ⟨hcall, rfl⟩
    have hreturn : echoServer.LimitsStep .least (y, s₁) (.inl .tick) (y, s) := by
      refine ⟨hback, ?_⟩
      rw [if_neg (of_decide_eq_true hsignal)]
    have hrun : Run (echoServer.LimitsStep .least) (0, init .least 0)
        (acts.map .inl ++ [.inr (0, some 8, none)] ++ [.inl .tick]) (y, s) :=
      .snoc (.snoc (limits_run_of_run (run_of_play hplay).of_restrict) hset) hreturn
    obtain ⟨-, s', hrun', htrace, -⟩ := (unneeded_flow_control .least echoServer 0 0).1 _ y s hrun
      fun a ha => by
        simp only [List.mem_append, List.mem_map, List.mem_singleton, Sum.inl.injEq, reduceCtorEq,
          or_false, exists_eq_right] at ha
        rcases ha with ha | rfl
        · simpa using List.all_eq_true.mp henables a ha
        · rfl
    exact ⟨_, y, s, s', by simp, hrun, hrun', htrace⟩
  · have hall : (echoServer.play .least (fun s a => decide (s.Fits ∧ switches a = false)) 12
        (0, { init .least 0 with flowControl := true, flowDefaults := (8, 16) })).map (fun r =>
          decide (r.2.2.Fits ∧ r.2.2.transports.map StreamTransport.writeBuffer = [2])) =
        some true := by
      decide +kernel
    obtain ⟨⟨acts, y, s⟩, hplay, hrest⟩ := Option.map_eq_some_iff.mp hall
    obtain ⟨hfits, hbuffer⟩ := of_decide_eq_true hrest
    obtain ⟨s', hrun, htrace, -⟩ := (unneeded_flow_control .least echoServer 0 0).2 (8, 16) acts y s
      ((run_of_play hplay).widen fun x a h => of_decide_eq_true h) hfits
    exact ⟨acts, y, s, s', hbuffer, hrun, htrace⟩

end Workloads

end SimNetwork

end SimLoop.Net
