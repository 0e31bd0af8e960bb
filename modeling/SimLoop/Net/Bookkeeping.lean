/-
  Net/Bookkeeping.lean --- every step of the network is a sequence of moves of its ledger.

  Most functions leave the ledger alone.  The others get one lemma each, which says
  which moves they make; `step_moves` puts them together.
-/
import SimLoop.Net.Ledger
import SimLoop.Net.Machine

set_option autoImplicit false

namespace SimLoop.Net

open SimLoop.Foundation Ledger

variable {ρ : Type} {A : Change → Prop}

namespace SimNetwork

variable (R : RandomSource ρ) (s : SimNetwork ρ)

/-! ## What leaves the ledger alone -/

theorem ledger_setTransport {t : Nat} {f : StreamTransport → StreamTransport}
    (h : ∀ T, (f T).entry = T.entry) :
    (s.setTransport t f).ledger = s.ledger := by
  simp only [ledger, streamRoll, setTransport, map_modify_eq h]
  rfl

theorem ledger_setDatagram {d : Nat} {f : DatagramTransport → DatagramTransport}
    (h : ∀ D, (f D).entry = D.entry) :
    (s.setDatagram d f).ledger = s.ledger := by
  simp only [ledger, datagramRoll, setDatagram, map_modify_eq h]
  rfl

@[simp] theorem ledger_call (c : Call) (frames : List Frame) :
    (s.call c frames).ledger = s.ledger := rfl

@[simp] theorem ledger_back (v : Value) : (s.back v).ledger = s.ledger := rfl

@[simp] theorem ledger_throw (e : Exc) : (s.throw e).ledger = s.ledger := rfl

@[simp] theorem ledger_callSoon (h : Handle) : (s.callSoon h).ledger = s.ledger := rfl

@[simp] theorem ledger_setFut (conn : Nat) (fut : Fut) :
    (setFut conn fut s).ledger = s.ledger := rfl

/-- A function that looks at one transport. -/
theorem ledger_at {t : Nat} {x : SimNetwork ρ} {h : StreamTransport → SimNetwork ρ}
    (hnone : x.ledger = s.ledger) (hsome : ∀ T, (h T).ledger = s.ledger) :
    (match s.transports[t]? with
      | none => x
      | some T => h T : SimNetwork ρ).ledger = s.ledger := by
  split
  · exact hnone
  · exact hsome _

theorem ledger_answer (r : Except Exc Unit × SimNetwork ρ) :
    (answer r).ledger = r.2.ledger := by
  unfold answer
  split <;> rfl

/-! ### Flow control -/

@[simp] theorem ledger_maybePauseProtocol (t : Nat) :
    (maybePauseProtocol t s).ledger = s.ledger := by
  unfold maybePauseProtocol
  refine ledger_at s rfl fun T => ?_
  split
  · rfl
  · exact ledger_setTransport s fun _ => rfl

@[simp] theorem ledger_maybeResumeProtocol (t : Nat) :
    (maybeResumeProtocol t s).ledger = s.ledger := by
  unfold maybeResumeProtocol
  refine ledger_at s rfl fun T => ?_
  split
  · rfl
  · split <;> exact ledger_setTransport s fun _ => rfl

@[simp] theorem ledger_charge (t count : Nat) : (charge t count s).ledger = s.ledger := by
  unfold charge
  split
  · rfl
  · rw [ledger_maybePauseProtocol]
    exact ledger_setTransport s fun _ => rfl

@[simp] theorem ledger_credit (t count : Nat) : (credit t count s).ledger = s.ledger := by
  unfold credit
  refine ledger_at s rfl fun T => ?_
  split
  · rfl
  · rw [ledger_maybeResumeProtocol]
    exact ledger_setTransport s fun _ => rfl

@[simp] theorem ledger_consumed (t count : Nat) :
    (consumed t count s).ledger = s.ledger := by
  unfold consumed
  split
  · rfl
  · refine ledger_at s rfl fun T => ?_
    cases s.streams.get? T.outKey with
    | none => rfl
    | some peer => exact ledger_credit s peer count

@[simp] theorem ledger_releaseNext (ts : List Nat) :
    (releaseNext ts s).ledger = s.ledger := by
  cases ts with
  | nil => rfl
  | cons t rest =>
      refine @ledger_at _ s t _ _ rfl fun T => ?_
      dsimp only
      split <;> exact @ledger_setTransport _ s t _ fun _ => rfl

@[simp] theorem ledger_setFlowControl (enabled : Bool) (high low : Option Int) :
    (setFlowControl enabled high low s).ledger = s.ledger := by
  unfold setFlowControl
  dsimp only
  split
  · rfl
  · split
    · rfl
    · exact ledger_releaseNext _ _

@[simp] theorem ledger_setWriteBufferLimits (t : Nat) (high low : Option Int) :
    (setWriteBufferLimits t high low s).ledger = s.ledger := by
  unfold setWriteBufferLimits
  split
  · rfl
  · rw [ledger_maybePauseProtocol]
    exact ledger_setTransport s fun _ => rfl

/-! ### Reading -/

@[simp] theorem ledger_feed (t : Nat) (view : Bytes) : (feed t view s).ledger = s.ledger := by
  unfold feed
  split
  · rfl
  · cases s.transports[t]?.bind (·.protocol) <;> rfl

@[simp] theorem ledger_deliverBytes (t : Nat) (data : Bytes) :
    (deliverBytes t data s).ledger = s.ledger := by
  unfold deliverBytes
  refine ledger_at s rfl fun T => ?_
  split
  · exact ledger_feed s t data
  · cases T.protocol <;> rfl

@[simp] theorem ledger_takeRoom (t : Nat) (view : Bytes) (room : Nat) :
    (takeRoom t view room s).ledger = s.ledger := by
  unfold takeRoom
  split
  · rfl
  · cases s.transports[t]?.bind (·.protocol) <;> rfl

@[simp] theorem ledger_dataArrived (t : Nat) (data : Bytes) :
    (dataArrived t data s).ledger = s.ledger := by
  unfold dataArrived
  refine ledger_at s rfl fun T => ?_
  split
  · rfl
  · split
    · exact ledger_setTransport s fun _ => rfl
    · exact ledger_deliverBytes _ t data

@[simp] theorem ledger_eofArrived (t : Nat) : (eofArrived t s).ledger = s.ledger := by
  have hset : (s.setTransport t fun T => { T with peerClosed := true }).ledger = s.ledger :=
    ledger_setTransport s fun _ => rfl
  unfold eofArrived
  refine ledger_at s rfl fun T => ?_
  dsimp only
  split
  · exact hset
  · split
    · rw [ledger_back]
      refine Eq.trans (ledger_setTransport _ ?_) hset
      exact fun _ => rfl
    · cases T.protocol <;> exact hset

@[simp] theorem ledger_pauseReading (t : Nat) : (pauseReading t s).ledger = s.ledger := by
  unfold pauseReading
  refine ledger_at s rfl fun T => ?_
  split
  · rfl
  · exact ledger_setTransport s fun _ => rfl

@[simp] theorem ledger_drainNext (t : Nat) : (drainNext t s).ledger = s.ledger := by
  unfold drainNext
  refine ledger_at s rfl fun T => ?_
  split
  · rfl
  · cases T.backlog with
    | cons chunk rest =>
        exact (ledger_deliverBytes _ t chunk).trans (@ledger_setTransport _ s t _ fun _ => rfl)
    | nil =>
        dsimp only
        split
        · exact (ledger_eofArrived _ t).trans (ledger_setTransport s fun _ => rfl)
        · rfl

@[simp] theorem ledger_resumeReading (t : Nat) : (resumeReading t s).ledger = s.ledger := by
  unfold resumeReading
  refine ledger_at s rfl fun T => ?_
  split
  · rfl
  · exact (ledger_drainNext _ t).trans (ledger_setTransport s fun _ => rfl)

/-! ### Protocols -/

@[simp] theorem ledger_adopt (t : Nat) (protocol : Protocol) :
    (adopt t protocol s).ledger = s.ledger :=
  ledger_setTransport s fun _ => rfl

@[simp] theorem ledger_begin (t : Nat) (protocol : Protocol) (frames : List Frame) :
    (begin t protocol frames s).ledger = s.ledger := by
  unfold begin
  rw [ledger_call]
  refine Eq.trans (ledger_setTransport _ ?_) (ledger_adopt s t protocol)
  exact fun _ => rfl

@[simp] theorem ledger_beginDatagram (d : Nat) (protocol : Protocol) :
    (beginDatagram d protocol s).ledger = s.ledger :=
  ledger_setDatagram s fun _ => rfl

@[simp] theorem ledger_datagramArrived (d : Nat) (data : Bytes) (addr : Addr) :
    (datagramArrived d data addr s).ledger = s.ledger := by
  cases hD : s.datagramTransports[d]? with
  | none => simp only [datagramArrived, hD, ledger_back]
  | some D =>
      simp only [datagramArrived, hD]
      split
      · rfl
      · split
        · rfl
        · cases D.protocol <;> rfl

@[simp] theorem ledger_lost (d : Nat) : (lost d s).ledger = s.ledger := by
  cases hD : s.datagramTransports[d]? with
  | none => simp only [lost, hD, ledger_back]
  | some D =>
      simp only [lost, hD]
      cases D.protocol <;> exact ledger_setDatagram s fun _ => rfl

/-- Moves from a state with the same ledger. -/
theorem moves_of_eq {s u : SimNetwork ρ} {g : Ledger} (h : Moves A u.ledger g)
    (hu : u.ledger = s.ledger) : Moves A s.ledger g := hu ▸ h

/-! ## The wire -/

/-- Handing a packet over changes the traffic alone. -/
theorem transmit_dispatch (p : Packet) : ∃ w, Traffic.Dispatch s.now p s.traffic w ∧
    (transmit R p s).ledger = { s.ledger with traffic := w } := by
  unfold transmit
  split
  · unfold blackhole
    split
    · rename_i hkind
      exact ⟨_, .dropped hkind, rfl⟩
    · rename_i hkind
      exact ⟨_, .parked hkind, rfl⟩
  · dsimp only
    split
    · rename_i hkind
      split
      · exact ⟨_, .dropped hkind, rfl⟩
      · split
        · exact ⟨_, .doubled hkind _ _, rfl⟩
        · exact ⟨_, .launched _, rfl⟩
    · exact ⟨_, .launched _, rfl⟩

/-- A new packet is stamped and handed over. -/
theorem stamped_moves (p : Packet) (huid : p.uid = s.nextUid) :
    Moves A s.ledger
      (transmit R p { s.newUid.2 with sent := s.newUid.2.sent ++ [p] }).ledger := by
  obtain ⟨w, hw, heq⟩ := transmit_dispatch R { s.newUid.2 with sent := s.newUid.2.sent ++ [p] } p
  rw [heq]
  exact (Move.traffic s.ledger (.posted s.now huid hw)).moves

theorem sendStream_moves (kind : PacketKind) (src dst : Addr) (conn seq : Nat)
    (payload : Bytes) :
    Moves A s.ledger (sendStream R kind src dst conn seq payload s).ledger :=
  stamped_moves R s _ rfl

theorem sendDatagram_moves (src : Addr) (dst : String × Nat) (payload : Bytes) :
    Moves A s.ledger (sendDatagram R src dst payload s).2.ledger := by
  unfold sendDatagram
  split
  · exact .refl _
  · exact stamped_moves R s _ rfl

/-- Releasing packets one by one, as long as the rest still counts as held. -/
theorem release_moves (l : List Packet) : ∀ u : SimNetwork ρ,
    Moves A { u.ledger with traffic := { u.traffic with held := l ++ u.held } }
      (l.foldl (fun s p => transmit R p (s.tracePacket .release p)) u).ledger := by
  induction l with
  | nil => exact fun u => .refl _
  | cons p l ih =>
      intro u
      obtain ⟨w, hw, heq⟩ := transmit_dispatch R (u.tracePacket .release p) p
      have hfirst : Ledger.Move A
          { u.ledger with traffic := { u.traffic with held := p :: l ++ u.held } }
          { u.ledger with traffic := { w with held := l ++ w.held } } :=
        .traffic _ (.released u.now rfl (hw.prepend l))
      have hrest := ih (transmit R p (u.tracePacket .release p))
      have htraffic : (transmit R p (u.tracePacket .release p)).traffic = w :=
        congrArg Ledger.traffic heq
      rw [heq, show (transmit R p (u.tracePacket .release p)).held = w.held from
        congrArg Traffic.held htraffic, htraffic] at hrest
      exact hfirst.moves.trans hrest

theorem heal_moves : Moves A s.ledger (heal R s).ledger := by
  have hmoves := release_moves (A := A) R s.held { s with cuts := ∅, held := [] }
  simp only [List.append_nil] at hmoves
  exact hmoves

/-! ## Stream transports -/

theorem send_moves (t : Nat) (kind : PacketKind) (payload : Bytes) :
    Moves A s.ledger (send R t kind payload s).ledger := by
  cases hT : s.transports[t]? with
  | none => simp only [send, hT]; exact .refl _
  | some T =>
      simp only [send, hT]
      have hset := ledger_setTransport (t := t) (f := fun T => { T with outSeq := T.outSeq + 1 }) s
        fun _ => rfl
      exact hset ▸ sendStream_moves R _ kind T.loc T.remote T.conn T.outSeq payload

/-- Sending after a change of flags. -/
theorem send_setTransport_moves {t : Nat} {f : StreamTransport → StreamTransport}
    (hf : ∀ T, (f T).entry = T.entry) (kind : PacketKind) (payload : Bytes) :
    Moves A s.ledger (send R t kind payload (s.setTransport t f)).ledger :=
  ledger_setTransport s hf ▸ send_moves R _ t kind payload

theorem writeEof_moves (t : Nat) : Moves A s.ledger (writeEof R t s).ledger := by
  cases hT : s.transports[t]? with
  | none => simp only [writeEof, hT]; exact .refl _
  | some T =>
      simp only [writeEof, hT]
      split
      · exact .refl _
      · refine send_setTransport_moves R s ?_ .fin []
        exact fun _ => rfl

theorem close_moves (t : Nat) : Moves A s.ledger (close R t s).ledger := by
  cases hT : s.transports[t]? with
  | none => simp only [close, hT]; exact .refl _
  | some T =>
      have hset := ledger_setTransport (t := t) (f := fun T => { T with closing := true }) s
        fun _ => rfl
      simp only [close, hT]
      split
      · exact .refl _
      · rw [ledger_callSoon]
        split
        · exact .of_eq hset
        · rw [← hset]
          refine send_setTransport_moves R _ ?_ .fin []
          exact fun _ => rfl

theorem forceClose_moves (t : Nat) (exc : Option Exc) :
    Moves A s.ledger (forceClose R t exc s).ledger := by
  cases hT : s.transports[t]? with
  | none => simp only [forceClose, hT]; exact .refl _
  | some T =>
      simp only [forceClose, hT]
      split
      · exact .refl _
      · rw [ledger_callSoon]
        refine send_setTransport_moves R s ?_ .rst []
        exact fun _ => rfl

theorem write_moves (t : Nat) (data : Bytes) : Moves A s.ledger (write R t data s).ledger := by
  cases hT : s.transports[t]? with
  | none => simp only [write, hT]; exact .refl _
  | some T =>
      simp only [write, hT]
      split
      · exact .refl _
      · split
        · exact .refl _
        · rw [ledger_charge]
          exact send_moves R { s with calls := s.calls ++ [(s.current, .wrote t data)] } t
            .data data

/-- An open transport that is finished leaves the registry. -/
theorem ledger_finish {t : Nat} {T : StreamTransport} (hT : s.transports[t]? = some T)
    (hopen : T.closed = false) (exc : Option Exc) :
    (finish t exc s).ledger = { s.ledger with streams := s.streamRoll.retire t } := by
  have hentry : s.streamRoll.entries[t]? = some T.entry := by
    simp only [streamRoll, List.getElem?_map, hT, Option.map_some]
  rw [Roll.retire_of_get? hentry]
  simp only [finish, hT, hopen, Bool.false_eq_true, if_false]
  have hset : (s.transports.modify t fun T =>
      { T with
        closed := true, closing := true, writeBuffer := 0, protocolPaused := false,
        protocol := none, buffered := false }).map StreamTransport.entry =
      (s.transports.map StreamTransport.entry).modify t fun e => { e with closed := true } := by
    apply map_modify_of
    exact fun _ => rfl
  have hroll : ({ s.setTransport t fun T =>
      { T with
        closed := true, closing := true, writeBuffer := 0, protocolPaused := false,
        protocol := none, buffered := false } with streams := s.streams.erase T.key }).ledger =
      { s.ledger with
        streams := ⟨(s.transports.map StreamTransport.entry).modify t fun e =>
          { e with closed := true }, s.streams.erase T.key⟩ } := by
    rw [← hset]
    rfl
  cases hA : T.protocol with
  | none => simp only [ledger_back]; exact hroll
  | some _ => simp only [ledger_call]; exact hroll

theorem finish_moves (t : Nat) (exc : Option Exc) : Moves A s.ledger (finish t exc s).ledger := by
  cases hT : s.transports[t]? with
  | none => simp only [finish, hT]; exact .refl _
  | some T =>
      cases hclosed : T.closed with
      | true => simp only [finish, hT, hclosed, if_true]; exact .refl _
      | false =>
          rw [ledger_finish s hT hclosed]
          exact (Move.streams s.ledger (.retired _ t)).moves

theorem resetArrived_moves (t : Nat) : Moves A s.ledger (resetArrived t s).ledger := by
  cases hT : s.transports[t]? with
  | none => simp only [resetArrived, hT]; exact .refl _
  | some T =>
      have hset := ledger_setTransport (t := t) (f := fun T => { T with peerClosed := true }) s
        fun _ => rfl
      simp only [resetArrived, hT]
      split
      · exact .of_eq hset
      · exact hset ▸ finish_moves _ t _

/-! ## Dispatch of stream packets -/

/-- A new open transport, born now. -/
theorem register_moves {T : StreamTransport} (hopen : T.closed = false)
    (hborn : T.born = s.incarnation T.loc.1) : Moves A s.ledger (register T s).ledger := by
  have hroll : (register T s).ledger =
      { s.ledger with streams := s.streamRoll.enroll T.entry } := by
    simp only [ledger, register, streamRoll, Roll.enroll, List.map_append, List.map_cons,
      List.map_nil, List.length_map]
    rfl
  rw [hroll]
  exact (Move.streams s.ledger (.enrolled _ hopen hborn)).moves

theorem handleSyn_moves (p : Packet) : Moves A s.ledger (handleSyn R p s).ledger := by
  cases hL : s.listeners.get? (p.dst, p.dstPort) with
  | none =>
      simp only [handleSyn, hL, ledger_back]
      exact sendStream_moves R s .refuse _ _ p.conn 0 []
  | some _ =>
      simp only [handleSyn, hL, ledger_call]
      refine Moves.trans ?_ (sendStream_moves R _ .accept _ _ p.conn 0 [])
      exact register_moves s rfl rfl

theorem handleAnswer_moves (p : Packet) : Moves A s.ledger (handleAnswer p s).ledger := by
  unfold handleAnswer
  split
  · rename_i c _ _
    dsimp only
    split
    · exact .refl _
    · split
      · rw [ledger_call]
        exact register_moves { s with pending := s.pending.erase p.conn } rfl rfl
      · exact .refl _
  · exact .refl _

theorem dispatchReady_moves (p : Packet) : Moves A s.ledger (dispatchReady R p s).ledger := by
  unfold dispatchReady
  cases p.kind with
  | syn => exact handleSyn_moves R s p
  | accept => exact handleAnswer_moves s p
  | refuse => exact handleAnswer_moves s p
  | dgram => cases s.streams.get? p.key <;> exact .refl _
  | data =>
      cases s.streams.get? p.key with
      | none => exact .refl _
      | some t => exact .of_eq (ledger_dataArrived s t p.payload)
  | fin =>
      cases s.streams.get? p.key with
      | none => exact .refl _
      | some t => exact .of_eq (ledger_eofArrived s t)
  | rst =>
      cases s.streams.get? p.key with
      | none => exact .refl _
      | some t => exact resetArrived_moves s t

theorem pushNext_moves (k : Key) : Moves A s.ledger (pushNext R k s).ledger := by
  cases hq : s.inbound.get? k with
  | none => simp only [pushNext, hq]; exact .refl _
  | some queue =>
      simp only [pushNext, hq]
      cases hp : queue.early.get? queue.next with
      | none => exact .refl _
      | some p => exact moves_of_eq (dispatchReady_moves R _ p) rfl

theorem dispatchStream_moves (p : Packet) : Moves A s.ledger (dispatchStream R p s).ledger :=
  moves_of_eq (pushNext_moves R _ p.key) rfl

/-! ## Connections and servers -/

theorem sourcePort_moves (host : HostName) (port : Nat) :
    Moves A s.ledger (sourcePort host port s).2.ledger := by
  have hdrew : ∀ u : SimNetwork ρ, Moves A u.ledger u.ephemeral.2.ledger :=
    fun u => (Move.drew u.ledger).moves
  unfold sourcePort
  dsimp only
  split
  · exact (hdrew s).trans (hdrew s.ephemeral.2)
  · exact hdrew s

theorem openConnection_moves (host : String) (port : Nat) :
    Moves A s.ledger (openConnection R host port s).ledger := by
  unfold openConnection
  split
  · exact .refl _
  · rename_i name _
    rw [ledger_back]
    refine (sourcePort_moves s name port).trans ?_
    exact moves_of_eq (sendStream_moves R _ .syn _ _ _ 0 []) rfl

theorem resumeConnection_moves (conn : Nat) (thrown : Bool) :
    Moves A s.ledger (resumeConnection R conn thrown s).ledger := by
  cases hc : s.connects[conn]? with
  | none => simp only [resumeConnection, hc]; exact .refl _
  | some c =>
      simp only [resumeConnection, hc]
      split
      · exact .refl _
      · split
        · exact moves_of_eq (forceClose_moves R _ _ none) rfl
        all_goals exact .refl _

theorem startServer_moves (host : Option String) (port : Nat) :
    Moves A s.ledger (startServer host port s).ledger := by
  unfold startServer
  split
  · exact .refl _
  · rename_i bind _
    split
    · exact .refl _
    · have hroll : (({ s with
          listeners := s.listeners.insert bind s.servers.length
          servers := s.servers ++
            [{ host := bind.1, port := bind.2, born := s.incarnation bind.1 }] } :
          SimNetwork ρ).back).ledger =
          { s.ledger with
            listeners := s.listenerRoll.enroll ⟨bind, s.incarnation bind.1, false⟩ } := by
        simp only [ledger, back, listenerRoll, Roll.enroll, List.map_append, List.map_cons,
          List.map_nil, List.length_map]
        rfl
      rw [hroll]
      exact (Move.listeners s.ledger (.enrolled _ rfl rfl)).moves

/-- An open server that is closed leaves the registry. -/
theorem ledger_closeServer {v : Nat} {V : Server} (hV : s.servers[v]? = some V)
    (hopen : V.closed = false) :
    (closeServer v s).ledger = { s.ledger with listeners := s.listenerRoll.retire v } := by
  have hentry : s.listenerRoll.entries[v]? = some V.entry := by
    simp only [listenerRoll, List.getElem?_map, hV, Option.map_some]
  have hset : (s.servers.modify v fun x => { x with closed := true }).map Server.entry =
      (s.servers.map Server.entry).modify v fun e => { e with closed := true } := by
    apply map_modify_of
    exact fun _ => rfl
  rw [Roll.retire_of_get? hentry]
  simp only [closeServer, hV, hopen, Bool.false_eq_true, if_false]
  simp only [ledger, listenerRoll, hset]
  rfl

theorem closeServer_moves (v : Nat) : Moves A s.ledger (closeServer v s).ledger := by
  cases hV : s.servers[v]? with
  | none => simp only [closeServer, hV]; exact .refl _
  | some V =>
      cases hclosed : V.closed with
      | true => simp only [closeServer, hV, hclosed, if_true]; exact .refl _
      | false =>
          rw [ledger_closeServer s hV hclosed]
          exact (Move.listeners s.ledger (.retired _ v)).moves

/-- What no turn of a loop changes, the loop does not change. -/
theorem foldl_keeps {α β : Type} {g : SimNetwork ρ → β} {f : SimNetwork ρ → α → SimNetwork ρ}
    (hf : ∀ u x, g (f u x) = g u) (l : List α) : ∀ u, g (l.foldl f u) = g u := by
  induction l with
  | nil => exact fun _ => rfl
  | cons x l ih => exact fun u => (ih _).trans (hf u x)

/-- Moves made one after the other. -/
theorem foldl_moves {α : Type} {f : SimNetwork ρ → α → SimNetwork ρ} {l : List α}
    (hf : ∀ u, ∀ x ∈ l, Moves A u.ledger (f u x).ledger) :
    ∀ u : SimNetwork ρ, Moves A u.ledger (l.foldl f u).ledger := by
  induction l with
  | nil => exact fun u => .refl _
  | cons x l ih =>
      exact fun u => (hf u x List.mem_cons_self).trans
        (ih (fun v y hy => hf v y (List.mem_cons_of_mem _ hy)) _)

theorem closeClients_moves (v : Nat) : Moves A s.ledger (closeClients R v s).ledger :=
  foldl_moves (fun u t _ => close_moves R u t) s

theorem abortClients_moves (v : Nat) : Moves A s.ledger (abortClients R v s).ledger :=
  foldl_moves (fun u t _ => forceClose_moves R u t none) s

/-! ## Datagram endpoints -/

/-- An address to bind is one of the current host. -/
theorem host_of_bindAddress {host : Option String} {port : Nat} {bind : Addr}
    (h : s.bindAddress host port = .ok bind) : bind.1 = s.current := by
  unfold bindAddress at h
  split at h
  · rw [← Except.ok.inj h]
  · split at h
    · rw [← Except.ok.inj h]
    · split at h
      · cases h
      · rw [← Except.ok.inj h]

/-- A datagram endpoint is refused, or it is made under a free address of the current host
and its factory is called.  Without a local address it takes the next port. -/
theorem openDatagramEndpoint_cases (loc : Option (Option String × Nat))
    (remote : Option (String × Nat)) :
    ∃ u : SimNetwork ρ,
      (u = match loc with
        | none => { s with nextPort := s.nextPort + 1 }
        | some _ => s) ∧
      ((∃ e, openDatagramEndpoint loc remote s = u.throw e) ∨
        ∃ (a : Addr) (peer : Option Addr), a.1 = s.current ∧ (loc = none → a.2 = s.nextPort) ∧
          s.datagrams.get? a = none ∧
          openDatagramEndpoint loc remote s = ({ u with
            datagramTransports := u.datagramTransports ++
              [{ loc := a, remote := peer, born := u.incarnation a.1 }]
            datagrams := u.datagrams.insert a u.datagramTransports.length } : SimNetwork ρ).call
              .factory [.datagramFactory u.datagramTransports.length]) := by
  have hfree : ∀ {u : SimNetwork ρ} {a : Addr}, ¬ u.datagrams.contains a = true →
      u.datagrams.get? a = none := by
    intro u a h
    simpa only [Dict.contains, Bool.not_eq_true, Option.isSome_eq_false_iff,
      Option.isNone_iff_eq_none] using h
  refine ⟨_, rfl, ?_⟩
  unfold openDatagramEndpoint
  cases loc with
  | none =>
      dsimp only [ephemeral]
      split
      · exact .inl ⟨_, rfl⟩
      · rename_i hfresh
        split
        · exact .inl ⟨_, rfl⟩
        · rename_i peer _
          exact .inr ⟨_, peer, rfl, fun _ => rfl, hfree hfresh, rfl⟩
  | some addr =>
      dsimp only
      split
      · exact .inl ⟨_, rfl⟩
      · rename_i a hbind
        split
        · exact .inl ⟨_, rfl⟩
        · rename_i hfresh
          split
          · exact .inl ⟨_, rfl⟩
          · rename_i peer _
            exact .inr ⟨a, peer, host_of_bindAddress s hbind, (fun h => by cases h),
              hfree hfresh, rfl⟩

theorem openDatagramEndpoint_moves {loc : Option (Option String × Nat)}
    (hA : ∀ (a : Addr) (next : Nat), (loc = none → a.2 < next) → A (.bound a next))
    (remote : Option (String × Nat)) :
    Moves A s.ledger (openDatagramEndpoint loc remote s).ledger := by
  obtain ⟨u, hu, hcases⟩ := openDatagramEndpoint_cases s loc remote
  have hmoves : Moves A s.ledger u.ledger := by
    rw [hu]
    cases loc with
    | none => exact (Move.drew s.ledger).moves
    | some _ => exact .refl _
  have hdatagrams : u.datagrams = s.datagrams := by
    rw [hu]
    split <;> rfl
  rcases hcases with ⟨e, heq⟩ | ⟨a, peer, -, hport, hfree, heq⟩
  · rw [heq]
    exact hmoves
  · have hroll : (openDatagramEndpoint loc remote s).ledger =
        { u.ledger with datagrams := u.datagramRoll.enroll ⟨a, u.incarnation a.1, false⟩ } := by
      rw [heq]
      simp only [ledger, call, datagramRoll, Roll.enroll, List.map_append, List.map_cons,
        List.map_nil, List.length_map]
      rfl
    rw [hroll]
    refine hmoves.trans (Move.moves (.bound u.ledger rfl rfl ?_ (hA a u.nextPort fun hnone => ?_)))
    · exact (congrArg (Dict.get? · a) hdatagrams).trans hfree
    · subst hnone
      rw [hport rfl, hu]
      exact Nat.lt_succ_self _

theorem sendto_moves (d : Nat) (data : Bytes) (addr : Option (String × Nat)) :
    Moves A s.ledger (sendto R d data addr s).ledger := by
  cases hD : s.datagramTransports[d]? with
  | none => simp only [sendto, hD]; exact .refl _
  | some D =>
      simp only [sendto, hD]
      split
      · exact .refl _
      · split
        · exact .refl _
        · rename_i target _
          split
          · exact .refl _
          · have hsend := sendDatagram_moves (A := A) R s D.loc target data
            split
            · rename_i heq
              rw [heq] at hsend
              exact hsend
            · rename_i heq
              rw [heq] at hsend
              exact hsend

/-- An open datagram transport that is closed leaves the registry. -/
theorem ledger_closeDatagram {d : Nat} {D : DatagramTransport}
    (hD : s.datagramTransports[d]? = some D) (hopen : D.closing = false) :
    (closeDatagram d s).ledger = { s.ledger with datagrams := s.datagramRoll.retire d } := by
  have hentry : s.datagramRoll.entries[d]? = some D.entry := by
    simp only [datagramRoll, List.getElem?_map, hD, Option.map_some]
  have hset : (s.datagramTransports.modify d fun D =>
      { D with closing := true }).map DatagramTransport.entry =
      (s.datagramTransports.map DatagramTransport.entry).modify d fun e =>
        { e with closed := true } := by
    apply map_modify_of
    exact fun _ => rfl
  rw [Roll.retire_of_get? hentry]
  simp only [closeDatagram, hD, hopen, Bool.false_eq_true, if_false, ledger_callSoon]
  simp only [ledger, datagramRoll, setDatagram, hset]
  rfl

theorem closeDatagram_moves {d : Nat}
    (hA : ∀ D, s.datagramTransports[d]? = some D → D.closing = false → A (.freed D.loc)) :
    Moves A s.ledger (closeDatagram d s).ledger := by
  cases hD : s.datagramTransports[d]? with
  | none => simp only [closeDatagram, hD]; exact .refl _
  | some D =>
      cases hclosing : D.closing with
      | true => simp only [closeDatagram, hD, hclosing, if_true]; exact .refl _
      | false =>
          have hentry : s.ledger.datagrams.entries[d]? = some D.entry := by
            simp only [ledger, datagramRoll, List.getElem?_map, hD, Option.map_some]
          rw [ledger_closeDatagram s hD hclosing]
          exact (Move.closed s.ledger hentry (hA D hD hclosing)).moves

/-! ## Tasks -/

/-- A task can be made that is registered with the current host. -/
theorem registerTask_moves {pinned : HostName}
    (hA : A (.made { registered := s.current, pinned := pinned })) :
    Moves A s.ledger (registerTask pinned s).ledger := by
  cases howner : s.roster.get? s.current with
  | none => simp only [registerTask, howner]; exact .refl _
  | some owner =>
      simp only [registerTask, howner]
      exact (Move.hosts s.ledger
        (.made s.hosts (T := { registered := s.current, pinned := pinned }) hA rfl howner)).moves

theorem createTask_moves {made context : Option HostName}
    (hA : A (.made { registered := s.current, pinned := made.getD (context.getD s.current) })) :
    Moves A s.ledger (createTask made context s).ledger :=
  registerTask_moves s hA

theorem hostCreateTask_moves {name : HostName} {made : Option HostName}
    (hA : A (.made { registered := name, pinned := made.getD name })) :
    Moves A s.ledger (hostCreateTask name made s).ledger :=
  moves_of_eq (@createTask_moves _ _ { s with current := name } made none hA) rfl

theorem cancelTask_moves (i : Nat) : Moves A s.ledger (cancelTask i s).ledger :=
  (Move.hosts s.ledger (.asked _ i)).moves

theorem forgetTask_moves {i : Nat} (hdone : s.tasks[i]?.any (·.done) = true) :
    Moves A s.ledger (forgetTask i s).ledger := by
  cases hT : s.tasks[i]? with
  | none => simp only [forgetTask, hT]; exact .refl _
  | some T =>
      simp only [hT, Option.any_some] at hdone
      simp only [forgetTask, hT]
      exact (Move.hosts s.ledger (.forgotten _ hT hdone)).moves

/-! ## Crash and restart -/

/-- Recording one event for each of several packets. -/
theorem foldl_tracePacket (verb : Verb) (l : List Packet) : ∀ u : SimNetwork ρ,
    l.foldl (fun s p => s.tracePacket verb p) u =
      { u with trace := u.trace ++ l.map (Traffic.event u.now verb) } := by
  induction l with
  | nil => intro u; simp only [List.foldl_nil, List.map_nil, List.append_nil]
  | cons p l ih =>
      intro u
      rw [List.foldl_cons, ih]
      simp only [tracePacket, List.map_cons, List.append_assoc, List.singleton_append]
      rfl

theorem ledger_crashEnd (name : HostName) :
    (crashEnd name s).ledger = { s.ledger with traffic := s.traffic.purge s.now name } := by
  simp only [crashEnd, foldl_tracePacket]
  rfl

theorem crashEnd_moves (name : HostName) : Moves A s.ledger (crashEnd name s).ledger := by
  rw [ledger_crashEnd]
  exact (Move.traffic s.ledger (.purged _ s.now name)).moves

theorem crashNext_moves (name : HostName) (keys : List Key) :
    Moves A s.ledger (crashNext name keys s).ledger := by
  cases keys with
  | nil => exact crashEnd_moves s name
  | cons k rest =>
      cases ht : s.streams.get? k with
      | none => simp only [crashNext, ht]; exact .refl _
      | some t =>
          simp only [crashNext, ht]
          exact moves_of_eq (finish_moves _ t none) rfl

theorem requireHost_eq_ok {name found : HostName} (h : s.requireHost name = .ok found) :
    found = name ∧ s.alive.contains name = true := by
  unfold requireHost at h
  split at h
  · rename_i hname
    exact ⟨(Except.ok.inj h).symm, hname⟩
  · cases h

theorem crashBegin_moves {name : HostName} (hname : s.alive.contains name = true)
    (waiting : List Nat) (hA : ∀ a : Addr, a.1 = name → A (.freed a)) :
    Moves A s.ledger (crashBegin name waiting s).ledger := by
  unfold crashBegin
  refine Moves.trans ?_ (foldl_moves (fun u a ha => ?_) _)
  · refine Moves.trans ?_ (foldl_moves (fun u v _ => closeServer_moves u v) _)
    refine Moves.trans ?_ (foldl_moves (fun u c _ => .of_eq (ledger_setFut u c .cancelled)) _)
    refine Moves.trans ?_ (foldl_moves (fun u i _ => cancelTask_moves u i) _)
    exact (Move.downed s.ledger hname).moves
  · exact (Move.freed u.ledger (hA a (of_decide_eq_true (List.mem_filter.mp ha).2))).moves

/-- The crash of a host that is not refused. -/
def Crashes (s : SimNetwork ρ) (name : HostName) : Prop :=
  s.alive.get? name = some true ∧ name ≠ driver

instance (s : SimNetwork ρ) (name : HostName) : Decidable (s.Crashes name) :=
  inferInstanceAs (Decidable (_ ∧ _))

/-- A crash is refused, or it takes the host down and then its streams one by one. -/
theorem crash_cases (name : HostName) (waiting : List Nat) :
    (∃ e, crash name waiting s = s.throw e) ∨ s.Crashes name ∧ crash name waiting s =
      crashNext name ((crashBegin name waiting s).streams.keys.filter fun k => k.2.1 = name)
        (crashBegin name waiting s) := by
  unfold crash
  split
  · exact .inl ⟨_, rfl⟩
  · rename_i hfound
    obtain ⟨rfl, -⟩ := requireHost_eq_ok s hfound
    split
    · exact .inl ⟨_, rfl⟩
    · rename_i hdriver
      split
      · exact .inl ⟨_, rfl⟩
      · rename_i halive
        simp only [Bool.not_eq_true, Bool.not_eq_false', isAlive, Option.getD_eq_iff,
          Bool.false_eq_true, and_false, or_false] at halive
        exact .inr ⟨⟨halive, hdriver⟩, rfl⟩

theorem Crashes.contains {name : HostName} (h : s.Crashes name) :
    s.alive.contains name = true := by
  rw [Dict.contains, h.1]
  rfl

theorem crash_moves {name : HostName} (waiting : List Nat)
    (hA : s.Crashes name → ∀ a : Addr, a.1 = name → A (.freed a)) :
    Moves A s.ledger (crash name waiting s).ledger := by
  rcases crash_cases s name waiting with ⟨e, h⟩ | ⟨hcrashes, h⟩
  · rw [h]
    exact .refl _
  · rw [h]
    exact (crashBegin_moves s hcrashes.contains waiting (hA hcrashes)).trans (crashNext_moves _ _ _)

/-- A restart that goes through. -/
theorem ledger_restart {name : HostName} (hname : s.alive.contains name = true)
    (hdown : s.isAlive name = false) :
    (restart name s).ledger = s.ledger.restart s.now name := by
  simp only [restart, requireHost, hname, if_true, hdown, Bool.false_eq_true, if_false]
  rfl

/-- A restart that is refused. -/
theorem restart_refused {name : HostName}
    (h : s.alive.contains name = false ∨ s.isAlive name = true) :
    (restart name s).ledger = s.ledger := by
  unfold restart requireHost
  split
  · rfl
  · rename_i heq
    split at heq
    · obtain rfl := Except.ok.inj heq
      rcases h with h | h
      · rename_i hname
        rw [h] at hname
        cases hname
      · simp only [h, if_true, ledger_throw]
    · cases heq

/-! ## Hosts and configuration -/

theorem host_moves (name : HostName) : Moves A s.ledger (host s name).2.ledger := by
  unfold host
  split
  · exact .refl _
  · rename_i hnew
    split
    · exact .refl _
    · split
      · exact .refl _
      · dsimp only
        split
        · exact .refl _
        · exact (Move.hosts s.ledger (.enlisted _ (Bool.eq_false_iff.mpr hnew))).moves

@[simp] theorem ledger_setDefaults (latency : Option (ℚ × ℚ)) (drop duplicate : Option ℚ) :
    (setDefaults s latency drop duplicate).2.ledger = s.ledger :=
  setDefaults_keeps (g := ledger) s (fun _ _ _ _ => rfl) latency drop duplicate

@[simp] theorem ledger_setLink (src dst : HostName) (latency : Option (ℚ × ℚ))
    (drop duplicate : Option ℚ) :
    (setLink s src dst latency drop duplicate).2.ledger = s.ledger :=
  setLink_keeps (g := ledger) s (fun _ _ => rfl) src dst latency drop duplicate

@[simp] theorem ledger_partition (groupA groupB : List HostName) :
    (partition s groupA groupB).2.ledger = s.ledger :=
  partition_keeps (g := ledger) s (fun _ _ => rfl) groupA groupB

/-! ## Steps -/

theorem proceed_moves (f : Frame) (v : Value) : Moves A s.ledger (proceed R f v s).ledger := by
  cases f with
  | code => exact .refl _
  | deliver => exact .refl _
  | push k => exact pushNext_moves R s k
  | acceptFactory conn t => exact .of_eq (ledger_begin s t _ _)
  | acceptMade conn t =>
      unfold proceed
      dsimp only
      split <;> exact .refl _
  | synFactory t => exact .of_eq (ledger_begin s t _ _)
  | getBuffer t view => exact .of_eq (ledger_takeRoom s t view _)
  | bufferUpdated t view => exact .of_eq (ledger_feed s t view)
  | consumed t count => exact .of_eq (ledger_consumed s t count)
  | drain t => exact .of_eq (ledger_drainNext s t)
  | eofReceived t =>
      unfold proceed
      dsimp only
      split
      · exact .refl _
      · exact close_moves R s t
  | flowCall => exact .refl _
  | report => exact .refl _
  | release ts => exact .of_eq (ledger_releaseNext s ts)
  | crash name keys => exact crashNext_moves s name keys
  | datagramFactory d => exact .of_eq (ledger_beginDatagram s d _)

@[simp] theorem ledger_unwind (f : Frame) (e : Exc) : (unwind f e s).ledger = s.ledger := by
  cases f with
  | flowCall => unfold unwind; dsimp only; split <;> rfl
  | report => unfold unwind; dsimp only; split <;> rfl
  | _ => rfl

theorem turn_moves : Moves A s.ledger (turn R s).ledger := by
  unfold turn
  split
  · exact .refl _
  · exact .refl _
  · exact moves_of_eq (proceed_moves R _ _ _) rfl
  · exact .of_eq (ledger_unwind _ _ _)

/-- A delivery step; its timer was the `i`-th. -/
theorem deliver_moves {i : Nat} {f : Flight} (hi : s.inFlight[i]? = some f) :
    Moves A s.ledger (deliver R f.packet { s with
      inFlight := s.inFlight.eraseIdx i
      landed := s.landed ++ [⟨f.packet, s.trace.length⟩]
      current := wire }).ledger := by
  have hland : ∀ w, Traffic.Outcome s.hosts.down s.now f.packet (s.traffic.fire i f.packet) w →
      Moves A s.ledger { s.ledger with traffic := w } :=
    fun w hw => (Move.traffic s.ledger (.landed s.now hi hw)).moves
  unfold deliver
  split
  · rename_i hdown
    refine hland _ (.lost ?_)
    simp only [isDown, Bool.or_eq_true, decide_eq_true_eq] at hdown
    exact hdown
  · split
    · unfold blackhole
      split
      · rename_i hkind
        exact hland _ (.dropped hkind)
      · rename_i hkind
        exact hland _ (.parked hkind)
    · refine (hland _ .delivered).trans ?_
      dsimp only
      split
      · rename_i hkind
        split
        · exact (Move.traffic _ (.missed (l := ⟨f.packet, s.trace.length⟩) s.now
            (List.mem_append_right _ (List.mem_singleton.mpr rfl)) hkind)).moves
        · rename_i d _
          refine .of_eq ((ledger_datagramArrived _ d _ _).trans ?_)
          rfl
      · refine Moves.trans (.of_eq ?_) (dispatchStream_moves R _ f.packet)
        rfl

theorem loopAct_moves {a : Act} {s' : SimNetwork ρ} (h : loopAct R s a = some s') :
    Moves A s.ledger s'.ledger := by
  cases a
  case advance time =>
    simp only [loopAct] at h
    split at h
    · obtain rfl := Option.some.inj h
      exact .refl _
    · cases h
  case fire i =>
    cases hi : s.inFlight[i]? with
    | none => simp only [loopAct, hi] at h; cases h
    | some f =>
        simp only [loopAct, hi] at h
        split at h
        · obtain rfl := Option.some.inj h
          exact deliver_moves R s hi
        · cases h
  case runSoon i =>
    cases hi : s.soon[i]? with
    | none => simp only [loopAct, hi] at h; cases h
    | some entry =>
        obtain ⟨handle, host⟩ := entry
        simp only [loopAct, hi] at h
        cases handle with
        | finish t exc =>
            obtain rfl := Option.some.inj h
            exact moves_of_eq (finish_moves _ t exc) rfl
        | lost d =>
            obtain rfl := Option.some.inj h
            exact .of_eq (ledger_lost _ d)
  case step i =>
    cases hT : s.tasks[i]? with
    | none => simp only [loopAct, hT] at h; cases h
    | some T =>
        simp only [loopAct, hT] at h
        split at h
        · cases h
        · obtain rfl := Option.some.inj h
          exact .refl _
  case callback host =>
    simp only [loopAct] at h
    split at h
    · obtain rfl := Option.some.inj h
      exact .refl _
    · cases h
  case forget i =>
    simp only [loopAct] at h
    split at h
    · rename_i hdone
      obtain rfl := Option.some.inj h
      exact forgetTask_moves s hdone
    · cases h
  all_goals cases h

/-- The act restarts a host that is down. -/
def Restarts (s : SimNetwork ρ) (a : Act) (name : HostName) : Prop :=
  a = .restart name ∧ s.alive.contains name = true ∧ s.isAlive name = false

/-- The tasks an act can make. -/
def Makes (s : SimNetwork ρ) (a : Act) (T : Task) : Prop :=
  match a with
  | .createTask made context =>
    T = { registered := s.current, pinned := made.getD (context.getD s.current) }
  | .hostCreateTask name made => T = { registered := name, pinned := made.getD name }
  | _ => False

/-- The act takes a datagram address away from who has it: it closes an open endpoint of
that address, or it crashes the host. -/
def Unbinds (s : SimNetwork ρ) (act : Act) (a : Addr) : Prop :=
  match act with
  | .closeDatagram d =>
    ∃ D, s.datagramTransports[d]? = some D ∧ D.loc = a ∧ D.closing = false
  | .crash name _ => s.Crashes name ∧ a.1 = name
  | _ => False

/-- The changes an act can make. -/
def Answers (s : SimNetwork ρ) (act : Act) : Change → Prop
  | .made T => Makes s act T
  | .bound a next =>
    ∃ loc remote, act = .openDatagramEndpoint loc remote ∧ (loc = none → a.2 < next)
  | .freed a => Unbinds s act a

theorem codeAct_moves {rest : List Frame} {a : Act} {s' : SimNetwork ρ}
    (h : codeAct R rest s a = some s') :
    Moves (Answers s a) s.ledger s'.ledger ∨
      ∃ name, Restarts s a name ∧ s'.ledger = s.ledger.restart s.now name := by
  have hif : ∀ {c : Bool} {x : SimNetwork ρ}, (if c = true then some x else none) = some s' →
      Moves (Answers s a) s.ledger x.ledger → Moves (Answers s a) s.ledger s'.ledger := by
    intro c x h hx
    split at h
    · obtain rfl := Option.some.inj h
      exact hx
    · cases h
  cases a
  case restart name =>
    simp only [codeAct, Option.some.injEq] at h
    subst h
    cases hname : s.alive.contains name with
    | false => exact .inl (.of_eq (restart_refused s (.inl hname)))
    | true =>
        cases hdown : s.isAlive name with
        | true => exact .inl (.of_eq (restart_refused s (.inr hdown)))
        | false => exact .inr ⟨name, ⟨rfl, hname, hdown⟩, ledger_restart s hname hdown⟩
  all_goals refine .inl ?_
  case write t data => exact hif h (write_moves R s t data)
  case writeEof t => exact hif h (writeEof_moves R s t)
  case close t => exact hif h (close_moves R s t)
  case forceClose t exc => exact hif h (forceClose_moves R s t exc)
  case pauseReading t => exact hif h (.of_eq (ledger_pauseReading s t))
  case resumeReading t => exact hif h (.of_eq (ledger_resumeReading s t))
  case setWriteBufferLimits t high low =>
    exact hif h (.of_eq (ledger_setWriteBufferLimits s t high low))
  case setProtocol t protocol => exact hif h (.of_eq (ledger_adopt s t protocol))
  case sendto d data addr => exact hif h (sendto_moves R s d data addr)
  case closeDatagram d =>
    refine hif h (closeDatagram_moves s fun D hD hopen => ?_)
    exact ⟨D, hD, rfl, hopen⟩
  case createTask made context => exact hif h (createTask_moves s rfl)
  case hostCreateTask name made => exact hif h (hostCreateTask_moves s rfl)
  case resumeConnection conn thrown => exact hif h (resumeConnection_moves R s conn thrown)
  all_goals
    simp only [codeAct, Option.some.injEq, reduceCtorEq] at h
  all_goals
    subst h
  case ret => exact .refl _
  case raise => exact .refl _
  case host name => rw [ledger_answer]; exact host_moves s name
  case setDefaults => rw [ledger_answer]; exact .of_eq (ledger_setDefaults s _ _ _)
  case setLink => rw [ledger_answer]; exact .of_eq (ledger_setLink s _ _ _ _ _)
  case setFlowControl => exact .of_eq (ledger_setFlowControl s _ _ _)
  case partition => rw [ledger_answer]; exact .of_eq (ledger_partition s _ _)
  case heal => exact heal_moves R s
  case crash name waiting =>
    refine crash_moves s waiting fun hname a ha => ?_
    exact ⟨hname, ha⟩
  case openConnection host port => exact openConnection_moves R s host port
  case cancelConnection conn => exact .of_eq (ledger_setFut s conn .cancelled)
  case startServer host port => exact startServer_moves s host port
  case closeServer v => exact closeServer_moves s v
  case closeClients v => exact closeClients_moves R s v
  case abortClients v => exact abortClients_moves R s v
  case openDatagramEndpoint loc remote =>
    refine openDatagramEndpoint_moves s (fun a next hport => ?_) remote
    exact ⟨loc, remote, rfl, hport⟩
  case settle i => exact (Move.hosts s.ledger (.settled _ i)).moves

/-- **Every step of the network is a sequence of moves of its ledger**, or one restart. -/
theorem step_moves {a : Act} {s' : SimNetwork ρ} (h : Step R s a s') :
    Moves (Answers s a) s.ledger s'.ledger ∨
      ∃ name, Restarts s a name ∧ s'.ledger = s.ledger.restart s.now name := by
  rcases step_cases R h with ⟨-, -, h⟩ | ⟨rest, -, -, h⟩ | ⟨-, -, rfl⟩
  · exact .inl (loopAct_moves R s h)
  · exact codeAct_moves R s h
  · exact .inl (turn_moves R s)

end SimNetwork

end SimLoop.Net
