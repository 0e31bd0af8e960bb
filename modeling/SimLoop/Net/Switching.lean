/-
  Net/Switching.lean --- every step of the network is a sequence of moves of its
  switchboard.

  A function that goes on for a frame starts from the board with that frame still on top;
  `step_switches` puts the functions together, and `Occasions` says what a step offers its
  moves.
-/
import SimLoop.Net.Bookkeeping
import SimLoop.Net.Switchboard

set_option autoImplicit false

namespace SimLoop.Net

open SimLoop.Foundation Switchboard

variable {ρ : Type} {A : Occasion → Prop}

namespace SimNetwork

variable (R : RandomSource ρ) (s : SimNetwork ρ)

/-! ## What leaves the switchboard alone -/

@[simp] theorem board_back (v : Value) : (s.back v).board = s.board := rfl

@[simp] theorem board_throw (e : Exc) : (s.throw e).board = s.board := rfl

@[simp] theorem board_call (x : Call) (frames : List Frame) :
    (s.call x frames).board = s.board.call x frames := rfl

@[simp] theorem board_setTransport (t : Nat) (f : StreamTransport → StreamTransport) :
    (s.setTransport t f).board = s.board.modify t f := rfl

theorem board_setDatagram (d : Nat) {f : DatagramTransport → DatagramTransport}
    (hf : ∀ D, (f D).loc = D.loc) : (s.setDatagram d f).board = s.board := by
  have hsockets : (s.datagramTransports.modify d f).map (·.loc.1) =
      s.datagramTransports.map (·.loc.1) := by
    refine map_modify_eq (fun D => ?_) _ _
    rw [hf]
  exact congrArg (fun sockets => ({ s.board with sockets := sockets } : Switchboard)) hsockets

theorem board_answer (r : Except Exc Unit × SimNetwork ρ) : (answer r).board = r.2.board := by
  unfold answer
  split <;> rfl

@[simp] theorem board_closeServer (v : Nat) : (closeServer v s).board = s.board := by
  cases hV : s.servers[v]? with
  | none => simp only [closeServer, hV]
  | some V =>
      simp only [closeServer, hV]
      split <;> rfl

@[simp] theorem board_startServer (host : Option String) (port : Nat) :
    (startServer host port s).board = s.board := by
  unfold startServer
  split
  · rfl
  · split <;> rfl

@[simp] theorem board_setDefaults (latency : Option (ℚ × ℚ)) (drop duplicate : Option ℚ) :
    (setDefaults s latency drop duplicate).2.board = s.board :=
  setDefaults_keeps (g := board) s (fun _ _ _ _ => rfl) latency drop duplicate

@[simp] theorem board_setLink (src dst : HostName) (latency : Option (ℚ × ℚ))
    (drop duplicate : Option ℚ) :
    (setLink s src dst latency drop duplicate).2.board = s.board :=
  setLink_keeps (g := board) s (fun _ _ => rfl) src dst latency drop duplicate

@[simp] theorem board_partition (groupA groupB : List HostName) :
    (partition s groupA groupB).2.board = s.board :=
  partition_keeps (g := board) s (fun _ _ => rfl) groupA groupB

@[simp] theorem board_createTask (made context : Option HostName) :
    (createTask made context s).board = s.board := by
  cases howner : s.roster.get? s.current with
  | none => simp only [createTask, registerTask, howner]; rfl
  | some owner => simp only [createTask, registerTask, howner]; rfl

@[simp] theorem board_hostCreateTask (name : HostName) (made : Option HostName) :
    (hostCreateTask name made s).board = s.board := by
  have h := congrArg (fun w : Switchboard => { w with current := s.current })
    (board_createTask { s with current := name } made none)
  exact h

@[simp] theorem board_forgetTask (i : Nat) : (forgetTask i s).board = s.board := by
  cases hT : s.tasks[i]? with
  | none => simp only [forgetTask, hT]
  | some T => simp only [forgetTask, hT]; rfl

@[simp] theorem board_sourcePort (host : HostName) (port : Nat) :
    (sourcePort host port s).2.board = s.board := by
  unfold sourcePort
  dsimp only
  split <;> rfl

/-- Moves from a state with the same board. -/
theorem switches_of_eq {s u : SimNetwork ρ} {w : Switchboard} (h : Moves A u.board w)
    (hu : u.board = s.board) : Moves A s.board w := hu ▸ h

theorem called_switches (x : Call) (frames : List Frame) (hx : x.Aside)
    (hframes : ∀ f ∈ frames, f.Aside) : Moves A s.board (s.call x frames).board :=
  (Move.called s.board hx hframes).moves

/-! ## Flow control -/

theorem maybePauseProtocol_switches (t : Nat) :
    Moves A s.board (maybePauseProtocol t s).board := by
  cases hT : s.transports[t]? with
  | none => simp only [maybePauseProtocol, hT]; exact .refl _
  | some T =>
      simp only [maybePauseProtocol, hT]
      split
      · exact .refl _
      · rename_i hgo
        obtain ⟨hfull, hgo⟩ := not_or.mp hgo
        obtain ⟨hfree, hprotocol⟩ := not_or.mp hgo
        exact (Move.flowed s.board hT (.choked (Bool.eq_false_iff.mpr hfree) hprotocol
          (by omega))).moves

theorem charge_switches {t : Nat} {T : StreamTransport} (hT : s.transports[t]? = some T)
    (hopen : T.closed = false) (count : Nat) (hA : A .metered) :
    Moves A s.board (charge t count s).board := by
  unfold charge
  split
  · exact .refl _
  · refine Moves.trans (Move.moves ?_) (maybePauseProtocol_switches _ t)
    exact Move.metered s.board hT (.charged count hopen hA)

/-- What `_maybe_resume_protocol` makes of a transport whose write buffer shrinks. -/
theorem credit_switches (t count : Nat) (hA : A .metered) :
    Moves A s.board (credit t count s).board := by
  cases hT : s.transports[t]? with
  | none => simp only [credit, hT]; exact .refl _
  | some T =>
      have hget : (s.setTransport t fun T => { T with
          writeBuffer := T.writeBuffer - count }).transports[t]? = some (T.credited count) := by
        simp only [setTransport, List.getElem?_modify_eq, hT]
        rfl
      simp only [credit, hT]
      split
      · exact .refl _
      · rename_i hgo
        have hopen : T.closed = false := Bool.eq_false_iff.mpr fun h => hgo (.inr h)
        simp only [maybeResumeProtocol, hget]
        split
        · rename_i hstay
          refine (Move.metered s.board hT (.credited count hopen (fun hpaused => ?_) hA)).moves
          have hmore := hstay.resolve_left fun h => by
            rw [show (T.credited count).protocolPaused = T.protocolPaused from rfl, hpaused] at h
            cases h
          have hbuffer : (T.credited count).writeBuffer = T.writeBuffer - count := rfl
          omega
        · rename_i hgo
          obtain ⟨hflag, hless⟩ := not_or.mp hgo
          have hpaused : T.protocolPaused = true := by
            refine Bool.eq_true_of_not_eq_false fun h => hflag ?_
            rw [show (T.credited count).protocolPaused = T.protocolPaused from rfl, h]
            rfl
          have hfreed : (s.transports.modify t (.credited count)).modify t
              (fun T => { T with protocolPaused := false }) = s.transports.modify t
                (.freed count) := by
            rw [List.modify_modify_eq]
            rfl
          split
          · have hhushed := Move.metered s.board hT (.hushed count hopen hpaused ‹_› hA)
            refine hhushed.moves.trans (.of_eq ?_)
            exact congrArg (fun ts => ({ s.board with transports := ts } : Switchboard)) hfreed
          · have hcalled := Move.flowed s.board hT (.freed count hopen hpaused ‹_› hA)
            refine hcalled.moves.trans (.of_eq ?_)
            exact congrArg (fun ts => ({ s.board with transports := ts } : Switchboard).call
              (.resumeWriting t) [.flowCall]) hfreed

theorem consumed_switches (t count : Nat) (hA : A .metered) :
    Moves A s.board (consumed t count s).board := by
  unfold consumed
  split
  · exact .refl _
  · split
    · exact .refl _
    · split
      · exact .refl _
      · exact credit_switches s _ count hA

theorem releaseNext_switches (ts : List Nat) (hA : A .metered) :
    Moves A s.board (releaseNext ts s).board := by
  cases ts with
  | nil => exact .refl _
  | cons t rest =>
      have hpushed : Moves A s.board (s.board.push [.release rest]) :=
        (Move.pushed s.board (f := .release rest) trivial).moves
      cases hT : s.transports[t]? with
      | none => simp only [releaseNext, hT]; exact hpushed
      | some T =>
          simp only [releaseNext, hT]
          split
          · rename_i hstay
            refine hpushed.trans (Move.metered (s.board.push [.release rest]) hT
              (.emptied (hstay.imp_left fun h => ?_) hA)).moves
            simpa only [Bool.not_eq_true'] using h
          · rename_i hgo
            obtain ⟨hflag, hprotocol⟩ := not_or.mp hgo
            have hpaused : T.protocolPaused = true := Bool.eq_true_of_not_eq_false fun h =>
              hflag (by rw [h]; rfl)
            exact hpushed.trans (Move.flowed (s.board.push [.release rest]) hT
              (.letGo hpaused hprotocol hA)).moves

theorem setFlowControl_switches (enabled : Bool) (high low : Option Int) (hA : A .metered) :
    Moves A s.board (setFlowControl enabled high low s).board := by
  unfold setFlowControl
  dsimp only
  split
  · exact .refl _
  · split
    · exact .refl _
    · exact switches_of_eq (releaseNext_switches _ _ hA) rfl

theorem setWriteBufferLimits_switches (t : Nat) (high low : Option Int) :
    Moves A s.board (setWriteBufferLimits t high low s).board := by
  unfold setWriteBufferLimits
  split
  · exact .refl _
  · rename_i limits _
    refine Moves.trans ?_ (maybePauseProtocol_switches _ t)
    cases hT : s.transports[t]? with
    | none =>
        refine .of_eq ?_
        have hsame : s.transports.modify t (fun T => { T with limits := some limits }) =
            s.transports := List.modify_eq_self (List.getElem?_eq_none_iff.mp hT)
        exact congrArg (fun ts => ({ s.board with transports := ts } : Switchboard)) hsame
    | some T => exact (Move.metered s.board hT (.limited limits)).moves

/-! ## The wire -/

/-- Handing a packet over changes the traffic alone. -/
theorem board_transmit (p : Packet) : ∃ tr, Traffic.Dispatch s.now p s.traffic tr ∧
    (transmit R p s).board = { s.board with traffic := tr } := by
  obtain ⟨tr, htr, heq⟩ := transmit_dispatch R s p
  have htraffic : (transmit R p s).traffic = tr := congrArg Ledger.traffic heq
  refine ⟨tr, htr, ?_⟩
  rw [← htraffic]
  unfold transmit blackhole
  split
  · split <;> rfl
  · dsimp only
    split
    · split
      · rfl
      · split <;> rfl
    · rfl

theorem board_posted (p : Packet) (huid : p.uid = s.nextUid) : ∃ tr,
    Traffic.Posted p s.traffic tr ∧
    (transmit R p { s.newUid.2 with sent := s.newUid.2.sent ++ [p] }).board =
      { s.board with traffic := tr } := by
  obtain ⟨tr, htr, heq⟩ :=
    board_transmit R { s.newUid.2 with sent := s.newUid.2.sent ++ [p] } p
  exact ⟨tr, ⟨huid, _, htr⟩, heq⟩

theorem board_sendStream (kind : PacketKind) (src dst : Addr) (conn seq : Nat)
    (payload : Bytes) : ∃ tr,
    Traffic.Posted ⟨kind, src.1, dst.1, src.2, dst.2, conn, seq, payload, s.nextUid⟩
      s.traffic tr ∧
    (sendStream R kind src dst conn seq payload s).board = { s.board with traffic := tr } :=
  board_posted R s _ rfl

/-- Whatever `_resolve` finds is a name on record. -/
theorem known_of_resolve {text : String} {name : HostName} (h : s.resolve text = .ok name) :
    s.board.Known name := by
  unfold resolve at h
  split at h
  · obtain rfl := Except.ok.inj h
    exact .inr ⟨text, ‹_›⟩
  · obtain ⟨rfl, hname⟩ := requireHost_eq_ok s h
    exact .inl hname

theorem sendDatagram_switches {src : Addr} (hsrc : src.1 ∈ s.board.sockets) (dst : String × Nat)
    (payload : Bytes) : Moves A s.board (sendDatagram R src dst payload s).2.board := by
  unfold sendDatagram
  split
  · exact .refl _
  · rename_i name hname
    obtain ⟨tr, htr, heq⟩ :=
      board_posted R s ⟨.dgram, src.1, name, src.2, dst.2, 0, 0, payload, s.nextUid⟩ rfl
    exact Moves.trans (Move.datagram s.board rfl hsrc (known_of_resolve s hname) htr).moves (.of_eq heq)

/-- Releasing packets one by one, as long as the rest still counts as held. -/
theorem release_switches (l : List Packet) : ∀ u : SimNetwork ρ,
    Moves A { u.board with traffic := { u.traffic with held := l ++ u.held } }
      (l.foldl (fun s p => transmit R p (s.tracePacket .release p)) u).board := by
  induction l with
  | nil => exact fun u => .refl _
  | cons p l ih =>
      intro u
      obtain ⟨tr, htr, heq⟩ := board_transmit R (u.tracePacket .release p) p
      have hfirst : Switchboard.Move A
          { u.board with traffic := { u.traffic with held := p :: l ++ u.held } }
          { u.board with traffic := { tr with held := l ++ tr.held } } :=
        .released _ ⟨u.now, p, l ++ u.held, rfl, htr.prepend l⟩
      have hrest := ih (transmit R p (u.tracePacket .release p))
      have htraffic : (transmit R p (u.tracePacket .release p)).traffic = tr :=
        congrArg Switchboard.traffic heq
      rw [heq, show (transmit R p (u.tracePacket .release p)).held = tr.held from
        congrArg Traffic.held htraffic, htraffic] at hrest
      exact hfirst.moves.trans hrest

theorem heal_switches : Moves A s.board (heal R s).board := by
  have hmoves := release_switches (A := A) R s.held { s with cuts := ∅, held := [] }
  simp only [List.append_nil] at hmoves
  exact hmoves

/-! ## Sending and closing -/

theorem board_send {t : Nat} {T : StreamTransport} (hT : s.transports[t]? = some T)
    (kind : PacketKind) (payload : Bytes) : ∃ tr,
    Traffic.Posted (T.packet kind payload s.nextUid) s.traffic tr ∧
    (send R t kind payload s).board = { s.board.modify t .numbered with traffic := tr } := by
  obtain ⟨tr, htr, heq⟩ := board_sendStream R
    (s.setTransport t fun T => { T with outSeq := T.outSeq + 1 }) kind T.loc T.remote T.conn
    T.outSeq payload
  refine ⟨tr, htr, ?_⟩
  simp only [send, hT]
  exact heq

theorem getElem?_send {t : Nat} {T : StreamTransport} (hT : s.transports[t]? = some T)
    (kind : PacketKind) (payload : Bytes) :
    (send R t kind payload s).transports[t]? = some T.numbered := by
  obtain ⟨tr, -, heq⟩ := board_send R s hT kind payload
  refine (congrArg (fun w : Switchboard => w.transports[t]?) heq).trans ?_
  simp only [Switchboard.modify, List.getElem?_modify_eq]
  exact congrArg (Option.map StreamTransport.numbered) hT

theorem posted_of_ne {kind : PacketKind} (h : kind ≠ .fin) :
    StreamTransport.posted kind = .numbered := by
  funext T
  simp only [StreamTransport.posted, StreamTransport.numbered, h, decide_false, Bool.or_false]

/-- The end of the sending side: the flag and the packet. -/
theorem board_fin {t : Nat} {T : StreamTransport} (hT : s.transports[t]? = some T) : ∃ tr,
    Traffic.Posted (T.packet .fin [] s.nextUid) s.traffic tr ∧
    (send R t .fin [] (s.setTransport t fun T => { T with eofSent := true })).board =
      { s.board.modify t (.posted .fin) with traffic := tr } := by
  have hU : (s.setTransport t fun T => { T with eofSent := true }).transports[t]? =
      some { T with eofSent := true } := by
    simp only [setTransport, List.getElem?_modify_eq, hT]
    rfl
  obtain ⟨tr, htr, heq⟩ := board_send R _ hU .fin []
  refine ⟨tr, htr, heq.trans ?_⟩
  have hmodify : (s.transports.modify t fun T => { T with eofSent := true }).modify t .numbered =
      s.transports.modify t (.posted .fin) := by
    rw [List.modify_modify_eq]
    congr 1
    funext T
    simp only [Function.comp_apply, StreamTransport.posted, StreamTransport.numbered, decide_true,
      Bool.or_true]
  exact congrArg (fun ts => ({ s.board with transports := ts, traffic := tr } : Switchboard)) hmodify

theorem writeEof_switches (t : Nat) : Moves A s.board (writeEof R t s).board := by
  cases hT : s.transports[t]? with
  | none => simp only [writeEof, hT]; exact .refl _
  | some T =>
      simp only [writeEof, hT]
      split
      · exact .refl _
      · rename_i hfree
        obtain ⟨tr, htr, heq⟩ := board_fin R s hT
        have heof : T.eofSent = false := Bool.eq_false_iff.mpr fun h => hfree (.inl h)
        exact Moves.trans (Move.sent s.board hT (.inr (.inl rfl)) (fun _ => heof)
          (fun h => by cases h) htr).moves (.of_eq heq)

/-- A transport is closing once its `_finish` is scheduled. -/
theorem shut_switches (t : Nat) (exc : Option Exc) :
    Moves A s.board
      ((s.callSoon (.finish t exc)).setTransport t fun T => { T with closing := true }).board := by
  refine Moves.trans (Move.scheduled s.board (.finish t exc)).moves ?_
  exact (Move.shut _ (List.mem_append_right _ (List.mem_singleton.mpr rfl))).moves

/-- Sending and scheduling are independent of each other. -/
theorem board_send_callSoon (t : Nat) (kind : PacketKind) (payload : Bytes) (h : Handle) :
    ((send R t kind payload s).callSoon h).board =
      { (send R t kind payload s).board with soon := s.soon ++ [(h, s.current)] } := by
  cases hT : s.transports[t]? with
  | none => simp only [send, hT]; rfl
  | some T =>
      obtain ⟨tr, -, heq⟩ := board_send R s hT kind payload
      have hsoon : (send R t kind payload s).soon = s.soon := congrArg Switchboard.soon heq
      have hcurrent : (send R t kind payload s).current = s.current :=
        congrArg Switchboard.current heq
      rw [← hsoon, ← hcurrent]
      rfl

theorem rst_callSoon_switches (t : Nat) (h : Handle) :
    Moves A (s.callSoon h).board ((send R t .rst [] s).callSoon h).board := by
  cases hT : s.transports[t]? with
  | none => simp only [send, hT]; exact .refl _
  | some T =>
      obtain ⟨tr, htr, heq⟩ := board_send R s hT .rst []
      rw [board_send_callSoon, heq, ← posted_of_ne (show PacketKind.rst ≠ .fin by decide)]
      exact (Move.sent (s.callSoon h).board hT (.inr (.inr rfl)) (fun hne => absurd rfl hne)
        (fun hdata => by cases hdata) htr).moves

theorem fin_callSoon_switches {t : Nat} {T : StreamTransport} (hT : s.transports[t]? = some T)
    (heof : T.eofSent = false) (h : Handle) :
    Moves A (s.callSoon h).board
      ((send R t .fin [] (s.setTransport t fun T => { T with eofSent := true })).callSoon
        h).board := by
  obtain ⟨tr, htr, heq⟩ := board_fin R s hT
  rw [board_send_callSoon, heq]
  exact (Move.sent (s.callSoon h).board hT (.inr (.inl rfl)) (fun _ => heof)
    (fun hdata => by cases hdata) htr).moves

theorem close_switches (t : Nat) : Moves A s.board (close R t s).board := by
  cases hT : s.transports[t]? with
  | none => simp only [close, hT]; exact .refl _
  | some T =>
      simp only [close, hT]
      split
      · exact .refl _
      · refine (shut_switches s t none).trans ?_
        split
        · exact .refl _
        · rename_i heof
          have hshut : (s.setTransport t fun T => { T with closing := true }).transports[t]? =
              some T.shut := by
            simp only [setTransport, List.getElem?_modify_eq, hT]
            rfl
          exact fin_callSoon_switches R _ hshut (Bool.eq_false_iff.mpr heof) _

theorem forceClose_switches (t : Nat) (exc : Option Exc) :
    Moves A s.board (forceClose R t exc s).board := by
  cases hT : s.transports[t]? with
  | none => simp only [forceClose, hT]; exact .refl _
  | some T =>
      simp only [forceClose, hT]
      split
      · exact .refl _
      · refine (shut_switches s t exc).trans ?_
        exact rst_callSoon_switches R (s.setTransport t fun T => { T with closing := true }) t _

/-- What an abort changes. -/
theorem board_forceClose (t : Nat) (exc : Option Exc) : ∃ ts tr soon,
    (forceClose R t exc s).board =
      { s.board with transports := ts, traffic := tr, soon := soon } := by
  cases hT : s.transports[t]? with
  | none =>
      simp only [forceClose, hT]
      exact ⟨_, _, _, rfl⟩
  | some T =>
      simp only [forceClose, hT]
      split
      · exact ⟨_, _, _, rfl⟩
      · rw [board_send_callSoon]
        cases hshut : (s.setTransport t fun T => { T with closing := true }).transports[t]? with
        | none =>
            simp only [send, hshut]
            exact ⟨_, _, _, rfl⟩
        | some U =>
            obtain ⟨tr, -, heq⟩ := board_send R _ hshut .rst []
            rw [heq]
            exact ⟨_, tr, _, rfl⟩

theorem write_switches {t : Nat} {data : Bytes} (hA : A (.wrote t data)) (hmetered : A .metered) :
    Moves A s.board (write R t data s).board := by
  cases hT : s.transports[t]? with
  | none => simp only [write, hT]; exact .refl _
  | some T =>
      simp only [write, hT]
      split
      · exact .refl _
      · rename_i hfree
        have hwrote : Moves A s.board
            ({ s with calls := s.calls ++ [(s.current, .wrote t data)] } : SimNetwork ρ).board :=
          (Move.wrote s.board hA).moves
        split
        · exact hwrote
        · obtain ⟨tr, htr, heq⟩ := board_send R
            ({ s with calls := s.calls ++ [(s.current, .wrote t data)] } : SimNetwork ρ) hT .data
            data
          rw [← posted_of_ne (show PacketKind.data ≠ .fin by decide)] at heq
          have heof : T.eofSent = false := Bool.eq_false_iff.mpr fun h => hfree (.inl h)
          have hsent := (Move.sent
            ({ s with calls := s.calls ++ [(s.current, .wrote t data)] } : SimNetwork ρ).board hT
            (.inl rfl) (fun _ => heof) (fun _ => hA) htr).moves
          have hget := getElem?_send R
            ({ s with calls := s.calls ++ [(s.current, .wrote t data)] } : SimNetwork ρ) hT .data
            data
          have hopen : T.closed = false := Bool.eq_false_iff.mpr fun h => hfree (.inr (.inr h))
          exact (hwrote.trans (hsent.trans (.of_eq heq))).trans
            (charge_switches _ hget hopen _ hmetered)

/-- `_finish` of an open transport. -/
theorem board_finish {t : Nat} {T : StreamTransport} (hT : s.transports[t]? = some T)
    (hopen : T.closed = false) (exc : Option Exc) :
    (SimNetwork.finish t exc s).board = s.board.finish t T exc := by
  simp only [SimNetwork.finish, Switchboard.finish, hT, hopen, Bool.false_eq_true, if_false]
  cases T.protocol <;> rfl

theorem finish_switches {t : Nat} {exc : Option Exc}
    (hcause : s.stack = [] ∨ ∃ name, A (.crashed name)) :
    Moves A s.board (SimNetwork.finish t exc s).board := by
  cases hT : s.transports[t]? with
  | none => simp only [SimNetwork.finish, hT]; exact .refl _
  | some T =>
      cases hclosed : T.closed with
      | true => simp only [SimNetwork.finish, hT, hclosed, if_true]; exact .refl _
      | false =>
          rw [board_finish s hT hclosed]
          exact (Move.finished s.board hT hclosed exc hcause).moves

/-! ## Inbound data -/

/-- A frame is done, whatever is above it. -/
theorem popped_switches {f : Frame} (hdone : s.board.Done f) :
    Moves A (s.board.push [f]) s.board := by
  refine (Move.popped _ rfl ?_).moves
  cases f <;> exact hdone

/-- The loop of `_deliver`, from where `buffer_updated` has returned. -/
theorem feed_switches (t : Nat) (view : Bytes) :
    Moves A (s.board.push [.bufferUpdated t view]) (feed t view s).board := by
  unfold feed
  split
  · exact popped_switches s (f := .bufferUpdated t view) (.inl ‹_›)
  · rename_i hview
    split
    · exact popped_switches s (f := .bufferUpdated t view) (.inr ‹_›)
    · exact (Move.fed _ rfl hview).moves

/-- The same loop, from where `get_buffer` has returned. -/
theorem takeRoom_switches (t : Nat) (view : Bytes) {room : Nat}
    (hA : room = 0 → A (.starved t)) :
    Moves A (s.board.push [.getBuffer t view]) (takeRoom t view room s).board := by
  unfold takeRoom
  split
  · exact (Move.starved _ rfl (hA ‹_›)).moves
  · split
    · exact popped_switches s (f := .getBuffer t view) ‹_›
    · exact (Move.roomed _ (min room view.length) rfl).moves

theorem deliverBytes_switches (t : Nat) (data : Bytes) : ∃ w, Hand t data s.board w ∧
    Moves A w (deliverBytes t data s).board := by
  cases hT : s.transports[t]? with
  | none =>
      simp only [deliverBytes, hT]
      exact ⟨_, .unknown hT, .refl _⟩
  | some T =>
      simp only [deliverBytes, hT]
      split
      · exact ⟨_, .parts hT ‹_›, feed_switches s t data⟩
      · rename_i hbuffered
        split
        · exact ⟨_, .refused hT ‹_›, .refl _⟩
        · rename_i hprotocol
          refine ⟨_, .whole hT (Bool.eq_false_iff.mpr hbuffered) ?_, .refl _⟩
          rw [hprotocol]
          exact Option.some_ne_none _

theorem eofArrived_ending (t : Nat) : Ending t s.board (eofArrived t s).board := by
  cases hT : s.transports[t]? with
  | none =>
      simp only [eofArrived, hT]
      exact .unknown hT
  | some T =>
      simp only [eofArrived, hT]
      split
      · exact .late hT ‹_›
      · rename_i hopen
        split
        · exact .kept hT (Bool.eq_false_iff.mpr hopen) ‹_›
        · rename_i hpaused
          split
          · exact .refused hT (Bool.eq_false_iff.mpr hopen) (Bool.eq_false_iff.mpr hpaused) ‹_›
          · rename_i hprotocol
            refine .told hT (Bool.eq_false_iff.mpr hopen) (Bool.eq_false_iff.mpr hpaused) ?_
            rw [hprotocol]
            exact Option.some_ne_none _

theorem pauseReading_switches (t : Nat) : Moves A s.board (pauseReading t s).board := by
  cases hT : s.transports[t]? with
  | none => simp only [pauseReading, hT]; exact .refl _
  | some T =>
      simp only [pauseReading, hT]
      split
      · exact .refl _
      · rename_i hneither
        exact (Move.paused s.board hT (Bool.eq_false_iff.mpr fun h => hneither (.inl h))).moves

/-- The loop of `resume_reading`. -/
theorem drainNext_switches (t : Nat) :
    Moves A (s.board.push [.drain t]) (drainNext t s).board := by
  cases hT : s.transports[t]? with
  | none =>
      simp only [drainNext, hT]
      refine popped_switches s (f := .drain t) fun T h => ?_
      cases hT.symm.trans h
  | some T =>
      have hthis : ∀ {T'}, s.board.transports[t]? = some T' → T' = T :=
        fun h => (Option.some.inj (hT.symm.trans h)).symm
      simp only [drainNext, hT]
      split
      · rename_i hstop
        refine popped_switches s (f := .drain t) fun T' h => ?_
        rw [hthis h]
        exact hstop.imp_right .inl
      · rename_i hgo
        obtain ⟨hpaused, hopen⟩ := not_or.mp hgo
        split
        · rename_i chunk rest hbacklog
          obtain ⟨w, hhand, hmoves⟩ := deliverBytes_switches (A := A)
            { s.setTransport t (fun T => { T with backlog := rest }) with
              stack := .consumed t chunk.length :: .drain t :: s.stack } t chunk
          refine Moves.trans (Move.moves ?_) hmoves
          exact .drained _ rfl hT (Bool.eq_false_iff.mpr hopen) (Bool.eq_false_iff.mpr hpaused)
            hbacklog hhand
        · rename_i hbacklog
          split
          · have hending := eofArrived_ending
              (s.setTransport t fun T => { T with eofPending := false }) t
            exact (Move.ended (s.board.push [.drain t]) rfl hT (Bool.eq_false_iff.mpr hopen)
              (Bool.eq_false_iff.mpr hpaused) hbacklog ‹_› hending).moves
          · rename_i heof
            refine popped_switches s (f := .drain t) fun T' h => ?_
            rw [hthis h]
            exact .inr (.inr ⟨hbacklog, Bool.eq_false_iff.mpr heof⟩)

theorem resumeReading_switches {t : Nat} (hA : A (.resumed t)) :
    Moves A s.board (resumeReading t s).board := by
  cases hT : s.transports[t]? with
  | none => simp only [resumeReading, hT]; exact .refl _
  | some T =>
      simp only [resumeReading, hT]
      split
      · exact .refl _
      · rename_i hgo
        have hopen : T.closed = false := Bool.eq_false_iff.mpr fun h => hgo (.inl h)
        refine Moves.trans (Move.resumed s.board hT hopen hA).moves ?_
        exact drainNext_switches (s.setTransport t fun T => { T with readPaused := false }) t

/-! ## Dispatch of stream packets -/

theorem handleSyn_dispatched {p : Packet} (hkind : p.kind = .syn) :
    Dispatched p s.board (handleSyn R p s).board := by
  cases hL : s.listeners.get? (p.dst, p.dstPort) with
  | none =>
      obtain ⟨tr, htr, heq⟩ :=
        board_sendStream R s .refuse (p.dst, p.dstPort) (p.src, p.srcPort) p.conn 0 []
      simp only [handleSyn, hL, board_back]
      rw [heq]
      exact .unheard hkind htr
  | some _ =>
      obtain ⟨tr, htr, heq⟩ := board_sendStream R
        (register (.fresh p.conn (p.dst, p.dstPort) (p.src, p.srcPort) (s.incarnation p.dst)) s)
        .accept (p.dst, p.dstPort) (p.src, p.srcPort) p.conn 0 []
      simp only [handleSyn, hL, board_call]
      have hheard := Dispatched.heard (w := s.board) hkind (s.incarnation p.dst) htr
      refine Eq.mp (congrArg (Dispatched p s.board) ?_) hheard
      exact congrArg (fun w => Switchboard.call w .factory [.synFactory s.transports.length])
        heq.symm

theorem handleAnswer_dispatched {p : Packet} (hkind : p.kind = .accept ∨ p.kind = .refuse) :
    Dispatched p s.board (handleAnswer p s).board := by
  have hsyn : p.kind ≠ .syn := by
    rcases hkind with h | h <;> rw [h] <;> decide
  have hdata : ¬ (p.kind = .data ∨ p.kind = .fin ∨ p.kind = .rst) := by
    rcases hkind with h | h <;> rw [h] <;> decide
  unfold handleAnswer
  split
  · rename_i x hpending hx
    dsimp only
    split
    · exact .late hkind hpending hx ‹_›
    · rename_i hfut
      split
      · exact .accepted ‹_› hpending hx (not_not.mp hfut) (s.incarnation x.loc.1)
      · rename_i haccept
        exact .refused (hkind.resolve_left haccept) hpending hx (not_not.mp hfut) _
  · rename_i hnone
    refine .ignored hsyn (fun _ => ?_) fun h => absurd h hdata
    cases hpending : s.pending.get? p.conn with
    | none => exact .inl hpending
    | some _ =>
        refine .inr (Option.eq_none_iff_forall_ne_some.mpr fun x hx => ?_)
        exact hnone x hpending hx

theorem dataArrived_dispatched {p : Packet} (hkind : p.kind = .data) {t : Nat}
    (ht : s.streams.get? p.key = some t) : ∃ w, Dispatched p s.board w ∧
    Moves A w (dataArrived t p.payload s).board := by
  have hsyn : p.kind ≠ .syn := by rw [hkind]; decide
  have hanswer : ¬ (p.kind = .accept ∨ p.kind = .refuse) := by rw [hkind]; decide
  cases hT : s.transports[t]? with
  | none =>
      simp only [dataArrived, hT]
      refine ⟨_, .ignored hsyn (fun h => absurd h hanswer) fun _ u T hu hU => ?_, .refl _⟩
      obtain rfl := Option.some.inj (ht.symm.trans hu)
      cases hT.symm.trans hU
  | some T =>
      simp only [dataArrived, hT]
      split
      · rename_i hclosed
        refine ⟨_, .ignored hsyn (fun h => absurd h hanswer) fun _ u U hu hU => ?_, .refl _⟩
        obtain rfl := Option.some.inj (ht.symm.trans hu)
        obtain rfl := Option.some.inj (hT.symm.trans hU)
        exact hclosed
      · rename_i hopen
        split
        · exact ⟨_, .queued hkind ht hT (Bool.eq_false_iff.mpr hopen) ‹_›, .refl _⟩
        · rename_i hpaused
          obtain ⟨w, hhand, hmoves⟩ := deliverBytes_switches (A := A)
            { s with stack := .consumed t p.payload.length :: s.stack } t p.payload
          exact ⟨w, .data hkind ht hT (Bool.eq_false_iff.mpr hopen)
            (Bool.eq_false_iff.mpr hpaused) hhand, hmoves⟩

theorem resetArrived_dispatched {p : Packet} (hkind : p.kind = .rst) {t : Nat}
    (ht : s.streams.get? p.key = some t) : Dispatched p s.board (resetArrived t s).board := by
  cases hT : s.transports[t]? with
  | none =>
      simp only [resetArrived, hT]
      refine .ignored (by rw [hkind]; decide) (fun h => ?_) fun _ u T hu hU => ?_
      · rw [hkind] at h
        exact absurd h (by decide)
      · obtain rfl := Option.some.inj (ht.symm.trans hu)
        cases hT.symm.trans hU
  | some T =>
      simp only [resetArrived, hT]
      split
      · exact .rstLate hkind ht hT ‹_›
      · rename_i hopen
        have hopen := Bool.eq_false_iff.mpr hopen
        have hgone : (s.setTransport t fun T => { T with peerClosed := true }).transports[t]? =
            some T.peerGone := by
          simp only [setTransport, List.getElem?_modify_eq, hT]
          rfl
        rw [board_finish _ hgone hopen]
        exact .rst hkind ht hT hopen _

theorem dispatchReady_dispatched (p : Packet) : ∃ w, Dispatched p s.board w ∧
    Moves A w (dispatchReady R p s).board := by
  have hother : ∀ {s' : SimNetwork ρ}, Dispatched p s.board s'.board →
      ∃ w, Dispatched p s.board w ∧ Moves A w s'.board := fun h => ⟨_, h, .refl _⟩
  have hdeaf : p.kind ≠ .syn → (p.kind = .accept ∨ p.kind = .refuse → False) →
      s.streams.get? p.key = none → Dispatched p s.board s.back.board := fun hsyn hanswer h =>
    .ignored hsyn (fun h => (hanswer h).elim) fun _ t T ht => by
      cases h.symm.trans ht
  unfold dispatchReady
  cases hkind : p.kind with
  | syn => exact hother (handleSyn_dispatched R s hkind)
  | accept => exact hother (handleAnswer_dispatched s (.inl hkind))
  | refuse => exact hother (handleAnswer_dispatched s (.inr hkind))
  | dgram =>
      have hignored : Dispatched p s.board s.back.board := by
        refine .ignored (by rw [hkind]; decide) (fun h => ?_) fun h => ?_
        · rw [hkind] at h
          exact absurd h (by decide)
        · rw [hkind] at h
          exact absurd h (by decide)
      cases s.streams.get? p.key <;> exact hother hignored
  | data =>
      cases ht : s.streams.get? p.key with
      | none => exact hother (hdeaf (by rw [hkind]; decide) (by rw [hkind]; decide) ht)
      | some t => exact dataArrived_dispatched s hkind ht
  | fin =>
      cases ht : s.streams.get? p.key with
      | none => exact hother (hdeaf (by rw [hkind]; decide) (by rw [hkind]; decide) ht)
      | some t => exact hother (.fin hkind ht (eofArrived_ending s t))
  | rst =>
      cases ht : s.streams.get? p.key with
      | none => exact hother (hdeaf (by rw [hkind]; decide) (by rw [hkind]; decide) ht)
      | some t => exact hother (resetArrived_dispatched s hkind ht)

/-- The loop of `_InOrder.push`. -/
theorem pushNext_switches (k : Key) :
    Moves A (s.board.push [.push k]) (pushNext R k s).board := by
  cases hq : s.inbound.get? k with
  | none =>
      simp only [pushNext, hq]
      refine popped_switches s (f := .push k) fun q h => ?_
      cases hq.symm.trans h
  | some q =>
      cases hp : q.early.get? q.next with
      | none =>
          simp only [pushNext, hq, hp]
          refine popped_switches s (f := .push k) fun q' h => ?_
          obtain rfl := Option.some.inj (hq.symm.trans h)
          exact hp
      | some p =>
          simp only [pushNext, hq, hp]
          obtain ⟨w, hdispatch, hmoves⟩ := dispatchReady_dispatched (A := A) R
            { s with
              inbound := s.inbound.insert k
                { q with next := q.next + 1, early := q.early.erase q.next }
              stack := .push k :: s.stack } p
          have hnext : Switchboard.Move A (s.board.push [.push k]) w :=
            .next _ rfl ⟨hq, hp⟩ hdispatch
          exact hnext.moves.trans hmoves

/-! ## Connections -/

/-- The two ends of a connection never share their address. -/
theorem sourcePort_ne (host : HostName) (port : Nat) :
    (s.current, (sourcePort host port s).1) ≠ (host, port) := by
  unfold sourcePort ephemeral
  dsimp only
  split
  · rename_i hsame
    intro h
    have := congrArg Prod.snd h
    dsimp only at this
    omega
  · rename_i hother
    intro h
    exact hother ⟨(congrArg Prod.fst h).symm, congrArg Prod.snd h⟩

theorem openConnection_switches (host : String) (port : Nat) :
    Moves A s.board (openConnection R host port s).board := by
  unfold openConnection
  split
  · exact .refl _
  · rename_i name hname
    dsimp only
    obtain ⟨tr, htr, heq⟩ := board_sendStream R
      { (sourcePort name port s).2 with
        connects := (sourcePort name port s).2.connects ++
          [{ loc := (s.current, (sourcePort name port s).1), remote := (name, port) }]
        pending := (sourcePort name port s).2.pending.insert s.nextConn () }
      .syn (s.current, (sourcePort name port s).1) (name, port) s.nextConn 0 []
    have hboard := board_sourcePort s name port
    have hconnects : (sourcePort name port s).2.connects = s.connects :=
      congrArg Switchboard.connects hboard
    have hpending : (sourcePort name port s).2.pending = s.pending :=
      congrArg Switchboard.pending hboard
    have htraffic : (sourcePort name port s).2.traffic = s.traffic :=
      congrArg Switchboard.traffic hboard
    have hpost : Traffic.Posted ⟨.syn, s.current, name, (sourcePort name port s).1, port,
        s.board.connects.length, 0, [], (sourcePort name port s).2.nextUid⟩ s.board.traffic tr := by
      rw [show s.board.traffic = (sourcePort name port s).2.traffic from htraffic.symm]
      exact htr
    have hmove := Move.opened (A := A) s.board
      (x := { loc := (s.current, (sourcePort name port s).1), remote := (name, port) }) rfl
      (sourcePort_ne s name port) rfl (known_of_resolve s hname) hpost
    have hset : ∀ u : SimNetwork ρ, u.board = s.board → ∀ (xs : List Connect) (d : Dict Nat Unit),
        ({ ({ u with connects := xs, pending := d } : SimNetwork ρ).board with traffic := tr } :
          Switchboard) = { s.board with connects := xs, pending := d, traffic := tr } := by
      intro u hu xs d
      rw [← hu]
      rfl
    refine hmove.moves.trans (.of_eq ?_)
    rw [board_back]
    refine heq.trans ?_
    rw [hconnects, hpending]
    exact hset _ hboard _ _

theorem resumeConnection_switches (conn : Nat) (thrown : Bool) :
    Moves A s.board (resumeConnection R conn thrown s).board := by
  cases hx : s.connects[conn]? with
  | none => simp only [resumeConnection, hx]; exact .refl _
  | some x =>
      simp only [resumeConnection, hx]
      split
      · exact .refl _
      · rename_i hgo
        have hfut : x.fut ≠ .pending := fun h => hgo (.inr h)
        have hanswered : Moves A s.board
            (s.board.connect conn fun x => { x with awaited := false }) :=
          (Move.answered s.board hx hfut).moves
        have hforgotten : ∀ u : SimNetwork ρ, u.connects = s.connects.modify conn
              (fun x => { x with awaited := false }) → u.pending = s.pending →
            Moves A u.board { u.board with pending := s.pending.erase conn } := by
          intro u hu hpending
          rw [← hpending]
          refine (Move.forgotten u.board (x := { x with awaited := false }) ?_ hfut).moves
          show u.connects[conn]? = _
          rw [hu, List.getElem?_modify_eq, hx]
          rfl
        split
        · rename_i t _
          have habort := forceClose_switches (A := A) R { s with
            connects := s.connects.modify conn fun x => { x with awaited := false } } t none
          obtain ⟨_, _, _, heq⟩ := board_forceClose R { s with
            connects := s.connects.modify conn fun x => { x with awaited := false } } t none
          exact (hanswered.trans habort).trans (hforgotten _ (congrArg Switchboard.connects heq)
            (congrArg Switchboard.pending heq))
        all_goals exact hanswered.trans (hforgotten { s with
          connects := s.connects.modify conn fun x => { x with awaited := false } } rfl rfl)

/-! ## Servers and datagram endpoints -/

/-- Moves made one after the other. -/
theorem foldl_switches {α : Type} {f : SimNetwork ρ → α → SimNetwork ρ} :
    ∀ (l : List α), (∀ u, ∀ x ∈ l, Moves A u.board (f u x).board) →
    ∀ u : SimNetwork ρ, Moves A u.board (l.foldl f u).board
  | [], _, _ => .refl _
  | x :: l, hf, u =>
      (hf u x List.mem_cons_self).trans
        (foldl_switches l (fun u y hy => hf u y (List.mem_cons_of_mem _ hy)) _)

theorem closeClients_switches (v : Nat) : Moves A s.board (closeClients R v s).board :=
  foldl_switches _ (fun u t _ => close_switches R u t) s

theorem abortClients_switches (v : Nat) : Moves A s.board (abortClients R v s).board :=
  foldl_switches _ (fun u t _ => forceClose_switches R u t none) s

theorem openDatagramEndpoint_switches (loc : Option (Option String × Nat))
    (remote : Option (String × Nat)) :
    Moves A s.board (openDatagramEndpoint loc remote s).board := by
  obtain ⟨u, hu, hcases⟩ := openDatagramEndpoint_cases s loc remote
  have hboard : u.board = s.board := by
    rw [hu]
    split <;> rfl
  rcases hcases with ⟨e, heq⟩ | ⟨a, peer, hhost, -, -, heq⟩
  · rw [heq]
    exact .of_eq hboard
  · have hbound : ({ u with
        datagramTransports := u.datagramTransports ++
          [{ loc := a, remote := peer, born := u.incarnation a.1 }]
        datagrams := u.datagrams.insert a u.datagramTransports.length } : SimNetwork ρ).board =
        { s.board with sockets := s.board.sockets ++ [s.board.current] } := by
      rw [← hboard, show u.board.current = a.1 from
        (congrArg Switchboard.current hboard).trans hhost.symm]
      simp only [board, List.map_append, List.map_cons, List.map_nil]
      rfl
    have hcalled := called_switches (A := A) ({ u with
        datagramTransports := u.datagramTransports ++
          [{ loc := a, remote := peer, born := u.incarnation a.1 }]
        datagrams := u.datagrams.insert a u.datagramTransports.length } : SimNetwork ρ)
      .factory [.datagramFactory u.datagramTransports.length] trivial fun f hf => by
        rw [List.mem_singleton.mp hf]
        exact trivial
    rw [hbound] at hcalled
    rw [heq]
    exact (Move.bound s.board).moves.trans hcalled

theorem datagramArrived_switches (d : Nat) (data : Bytes) (addr : Addr) :
    Moves A s.board (datagramArrived d data addr s).board := by
  unfold datagramArrived
  split
  · exact .refl _
  · split
    · exact .refl _
    · split
      · exact .refl _
      · split
        · exact .refl _
        · exact called_switches s _ [] trivial fun f hf => absurd hf List.not_mem_nil

theorem sendto_switches (d : Nat) (data : Bytes) (addr : Option (String × Nat)) :
    Moves A s.board (sendto R d data addr s).board := by
  cases hD : s.datagramTransports[d]? with
  | none => simp only [sendto, hD]; exact .refl _
  | some D =>
      simp only [sendto, hD]
      split
      · exact .refl _
      · split
        · exact .refl _
        · rename_i target _
          split
          · exact .refl _
          · have hsocket : D.loc.1 ∈ s.board.sockets :=
              List.mem_map.mpr ⟨D, List.mem_of_getElem? hD, rfl⟩
            have hsend := sendDatagram_switches (A := A) R s hsocket target data
            split
            · rename_i heq
              rw [heq] at hsend
              exact hsend
            · rename_i heq
              rw [heq] at hsend
              exact hsend

theorem closeDatagram_switches (d : Nat) : Moves A s.board (closeDatagram d s).board := by
  cases hD : s.datagramTransports[d]? with
  | none => simp only [closeDatagram, hD]; exact .refl _
  | some D =>
      simp only [closeDatagram, hD]
      split
      · exact .refl _
      · have hkeeps := board_setDatagram s d (f := fun D => { D with closing := true })
          fun _ => rfl
        refine switches_of_eq ?_ hkeeps
        exact (Move.scheduled (s.setDatagram d _).board (.lost d)).moves

theorem lost_switches (d : Nat) : Moves A s.board (lost d s).board := by
  have hkeeps := board_setDatagram s d (f := fun D => { D with protocol := none }) fun _ => rfl
  unfold lost
  split
  · exact .refl _
  · dsimp only
    split
    · exact .of_eq hkeeps
    · exact switches_of_eq (called_switches (s.setDatagram d _) _ [] trivial
        fun f hf => absurd hf List.not_mem_nil) hkeeps

/-! ## Crash and restart -/

theorem crashEnd_switches {name : HostName} (hA : A (.crashed name)) :
    Moves A s.board (crashEnd name s).board := by
  simp only [crashEnd, foldl_tracePacket]
  exact (Move.purged s.board s.now hA).moves

theorem crashNext_switches {name : HostName} (keys : List Key) (hA : A (.crashed name)) :
    Moves A s.board (crashNext name keys s).board := by
  cases keys with
  | nil => exact crashEnd_switches s hA
  | cons k rest =>
      cases ht : s.streams.get? k with
      | none => simp only [crashNext, ht]; exact .refl _
      | some t =>
          simp only [crashNext, ht]
          exact (Move.crashing s.board rest hA).moves.trans
            (finish_switches { s with stack := .crash name rest :: s.stack } (.inr ⟨name, hA⟩))

theorem crashBegin_switches {name : HostName} {waiting : List Nat} (hA : A (.crashed name))
    (hwaiting : ∀ conn ∈ waiting, A (.cancelled conn)) :
    Moves A s.board (crashBegin name waiting s).board := by
  have hdatagram : ∀ (u : SimNetwork ρ) (a : Addr),
      Moves A u.board ({ u with datagrams := u.datagrams.erase a } : SimNetwork ρ).board :=
    fun _ _ => .of_eq rfl
  have hcancel : ∀ (u : SimNetwork ρ) (i : Nat), Moves A u.board (cancelTask i u).board :=
    fun _ _ => .of_eq rfl
  unfold crashBegin
  refine Moves.trans ?_ (foldl_switches _ (fun u a _ => hdatagram u a) _)
  refine Moves.trans ?_ (foldl_switches _ (fun u v _ => .of_eq (board_closeServer u v)) _)
  refine Moves.trans ?_ (foldl_switches waiting (fun u conn hconn =>
    (Move.cancelled u.board (hwaiting conn hconn)).moves) _)
  refine Moves.trans ?_ (foldl_switches _ (fun u i _ => hcancel u i) _)
  exact (Move.downed s.board hA).moves

theorem crash_switches {name : HostName} {waiting : List Nat}
    (hA : s.Crashes name → A (.crashed name))
    (hwaiting : ∀ conn ∈ waiting, A (.cancelled conn)) :
    Moves A s.board (crash name waiting s).board := by
  rcases crash_cases s name waiting with ⟨e, h⟩ | ⟨hcrashes, h⟩
  · rw [h]
    exact .refl _
  · rw [h]
    exact (crashBegin_switches s (hA hcrashes) hwaiting).trans
      (crashNext_switches _ _ (hA hcrashes))

theorem restart_switches (name : HostName) : Moves A s.board (restart name s).board := by
  unfold restart
  split
  · exact .refl _
  · rename_i hfound
    obtain ⟨rfl, hname⟩ := requireHost_eq_ok s hfound
    split
    · exact .refl _
    · exact (Move.restarted s.board s.now hname).moves

theorem host_switches (name : HostName) : Moves A s.board (host s name).2.board := by
  unfold host
  split
  · exact .refl _
  · rename_i hnew
    split
    · exact .refl _
    · rename_i hempty
      split
      · exact .refl _
      · rename_i hchars
        dsimp only
        split
        · exact .refl _
        · refine (Move.enlisted s.board _ (Bool.eq_false_iff.mpr hnew) ⟨hempty, ?_⟩).moves
          intro ch hch hforbidden
          exact hchars (List.any_eq_true.mpr ⟨ch, hch, decide_eq_true hforbidden⟩)

/-! ## Ticks -/

/-- `_begin` of a stream transport. -/
theorem board_begin (t : Nat) (protocol : Protocol) (frames : List Frame) :
    (begin t protocol frames s).board =
      (s.board.modify t (.started protocol)).call (.connectionMade t) frames := by
  have hmodify : (s.transports.modify t fun T =>
        { T with protocol := some protocol, buffered := protocol.buffered }).modify t
        (fun T => { T with begun := true }) = s.transports.modify t (.started protocol) := by
    rw [List.modify_modify_eq]
    rfl
  simp only [begin, adopt, board_call]
  exact congrArg (fun ts => Switchboard.call { s.board with transports := ts }
    (.connectionMade t) frames) hmodify

/-- A frame goes on. -/
theorem proceed_switches (f : Frame) (v : Value)
    (hcrash : ∀ name keys, f = .crash name keys → A (.crashed name))
    (hroom : ∀ t view, f = .getBuffer t view → v.len = 0 → A (.starved t))
    (hmeter : f.Meters → A .metered) (hwire : f = .deliver → A (.entered wire)) :
    Moves A (s.board.push [f]) (proceed R f v s).board := by
  cases f with
  | code => exact .refl _
  | deliver => exact (Move.left _ rfl (hwire rfl)).moves
  | push k => exact pushNext_switches R s k
  | acceptFactory conn t =>
      simp only [proceed, board_begin]
      exact (Move.begunClient _ ⟨v.buffered⟩ rfl).moves
  | acceptMade conn t =>
      unfold proceed
      dsimp only
      split
      · have hconnected := Move.connected (A := A) (s.board.push [.acceptMade conn t]) rfl
        refine hconnected.moves.trans (popped_switches (setFut conn (.connected t) s)
          (f := .acceptMade conn t) fun x hx => ?_)
        change (s.connects.modify conn (Connect.settle (.connected t)))[conn]? = some x at hx
        rw [List.getElem?_modify_eq] at hx
        obtain ⟨y, -, rfl⟩ := Option.map_eq_some_iff.mp hx
        unfold Connect.settle
        split
        · exact fun h => by cases h
        · assumption
      · rename_i hdone
        refine popped_switches s (f := .acceptMade conn t) fun x hx hfut => hdone ?_
        rw [show s.connects[conn]? = some x from hx]
        simp only [Option.any_some, hfut, decide_true]
  | synFactory t =>
      simp only [proceed, board_begin]
      exact (Move.begunServer _ ⟨v.buffered⟩ rfl).moves
  | getBuffer t view => exact takeRoom_switches s t view (hroom t view rfl)
  | bufferUpdated t view => exact feed_switches s t view
  | consumed t count =>
      exact (popped_switches s (f := .consumed t count) trivial).trans
        (consumed_switches s t count (hmeter trivial))
  | drain t => exact drainNext_switches s t
  | eofReceived t =>
      refine (popped_switches s (f := .eofReceived t) trivial).trans ?_
      unfold proceed
      dsimp only
      split
      · exact .refl _
      · exact close_switches R s t
  | flowCall => exact popped_switches s (f := .flowCall) trivial
  | report => exact popped_switches s (f := .report) trivial
  | release ts =>
      exact (popped_switches s (f := .release ts) trivial).trans 
        (releaseNext_switches s ts (hmeter trivial))
  | crash name keys =>
      exact (popped_switches s (f := .crash name keys) trivial).trans
        (crashNext_switches s keys (hcrash name keys rfl))
  | datagramFactory d =>
      refine (popped_switches s (f := .datagramFactory d) trivial).trans ?_
      have hkeeps := board_setDatagram s d (f := fun D =>
        { D with protocol := some ⟨v.buffered⟩, begun := true }) fun _ => rfl
      exact switches_of_eq (called_switches (s.setDatagram d _) _ [] trivial
        fun f hf => absurd hf List.not_mem_nil) hkeeps

/-- A frame is left by an exception. -/
theorem unwind_switches {f : Frame} (e : Exc) (hA : A (.unwound f))
    (hwire : f = .deliver → A (.entered wire)) :
    Moves A (s.board.push [f]) (unwind f e s).board := by
  cases f with
  | code => exact .refl _
  | deliver => exact (Move.left _ rfl (hwire rfl)).moves
  | flowCall =>
      refine (popped_switches s (f := .flowCall) trivial).trans ?_
      unfold unwind
      dsimp only
      split
      · exact .refl _
      · exact called_switches s .exceptionHandler [.report] trivial fun f hf => by
          rw [List.mem_singleton.mp hf]
          exact trivial
  | report =>
      refine (popped_switches s (f := .report) trivial).trans ?_
      unfold unwind
      dsimp only
      split <;> exact .refl _
  | _ => exact (Move.unwound _ rfl hA).moves

/-! ## Steps -/

/-- What a step offers the moves of the switchboard. -/
def Occasions (s : SimNetwork ρ) (a : Act) : Occasion → Prop
  | .unwound f => a = .tick ∧ ∃ e rest, s.signal = .raised e ∧ s.stack = f :: rest
  | .resumed t => a = .resumeReading t
  | .cancelled conn =>
    a = .cancelConnection conn ∨ ∃ name waiting, a = .crash name waiting ∧ conn ∈ waiting
  | .crashed name =>
    (∃ waiting, a = .crash name waiting) ∧ s.Crashes name ∨
      a = .tick ∧ ∃ keys rest, s.stack = .crash name keys :: rest
  | .entered host => s.stack = [] ∨ host = wire ∧ ∃ rest, s.stack = .deliver :: rest
  | .wrote t data => a = .write t data
  | .starved t => a = .tick ∧ ∃ v view rest, s.signal = .returned v ∧ v.len = 0 ∧
      s.stack = .getBuffer t view :: rest
  | .metered => (∃ t data, a = .write t data) ∨ (∃ enabled high low, a = .setFlowControl enabled
      high low) ∨ a = .tick ∧ ∃ v f rest, s.signal = .returned v ∧ s.stack = f :: rest ∧ f.Meters

theorem turn_switches : Moves (s.Occasions .tick) s.board (turn R s).board := by
  have hpush : ∀ {f rest}, s.stack = f :: rest →
      ({ s with stack := rest } : SimNetwork ρ).board.push [f] = s.board := by
    intro f rest hstack
    simp only [Switchboard.push, board, List.singleton_append, hstack]
    rfl
  have hwire : ∀ {f rest}, s.stack = f :: rest → f = .deliver →
      s.Occasions .tick (.entered wire) := fun hstack hf => .inr ⟨rfl, _, hf ▸ hstack⟩
  unfold turn
  split
  · exact .refl _
  · exact .refl _
  · rename_i v f rest hsignal hstack
    rw [← hpush hstack]
    refine proceed_switches R _ f v (fun name keys hf => .inr ⟨rfl, keys, rest, ?_⟩)
      (fun t view hf hlen => ⟨rfl, v, view, rest, hsignal, hlen, ?_⟩)
      (fun hf => .inr (.inr ⟨rfl, v, f, rest, hsignal, hstack, hf⟩)) (hwire hstack)
    all_goals rw [hstack, hf]
  · rename_i e f rest hsignal hstack
    rw [← hpush hstack]
    exact unwind_switches _ e ⟨rfl, e, rest, hsignal, hstack⟩ (hwire hstack)

/-- A delivery step; its timer was the `i`-th. -/
theorem deliver_switches {i : Nat} {f : Flight} (hi : s.inFlight[i]? = some f)
    (hstack : s.stack = []) (hA : ∀ host, A (.entered host)) :
    Moves A s.board (deliver R f.packet { s with
      inFlight := s.inFlight.eraseIdx i
      landed := s.landed ++ [⟨f.packet, s.trace.length⟩]
      current := wire }).board := by
  unfold deliver
  split
  · rename_i hdown
    simp only [isDown, Bool.or_eq_true, decide_eq_true_eq] at hdown
    exact (Move.lost s.board s.now hi hdown (hA wire)).moves
  · split
    · unfold blackhole
      split
      · exact (Move.dropped s.board s.now hi ‹_› (hA wire)).moves
      · exact (Move.parked s.board s.now hi ‹_› (hA wire)).moves
    · dsimp only
      split
      · rename_i hkind
        split
        · refine (Move.missed s.board s.now hi hkind hstack (hA _)).moves.trans (.of_eq ?_)
          rfl
        · rename_i d _
          have hreached := Move.reached (A := A) s.board s.now hi hkind hstack (hA _)
          refine Moves.trans (hreached.moves.trans (.of_eq ?_))
            (datagramArrived_switches _ d f.packet.payload (f.packet.src, f.packet.srcPort))
          rfl
      · rename_i hkind
        have hlanded := Move.landed (A := A) s.board s.now hi hkind hstack (hA _)
        refine Moves.trans (hlanded.moves.trans (.of_eq ?_)) (pushNext_switches R _ f.packet.key)
        rfl

/-- A scheduled callback. -/
theorem runSoon_switches {i : Nat} {t : Nat} {exc : Option Exc} {host : HostName}
    (hi : s.soon[i]? = some (.finish t exc, host)) (hstack : s.stack = [])
    (hA : A (.entered host)) : Moves A s.board (SimNetwork.finish t exc
      { s with soon := s.soon.eraseIdx i, current := host }).board := by
  have hswitched : Moves A s.board ({ s with current := host } : SimNetwork ρ).board :=
    (Move.switched s.board hstack hA).moves
  refine hswitched.trans ?_
  cases hT : s.transports[t]? with
  | none =>
      simp only [SimNetwork.finish, hT]
      exact (Move.ran ({ s with current := host } : SimNetwork ρ).board hi fun T h => by
        cases hT.symm.trans h).moves
  | some T =>
      cases hclosed : T.closed with
      | true =>
          simp only [SimNetwork.finish, hT, hclosed, if_true]
          exact (Move.ran ({ s with current := host } : SimNetwork ρ).board hi fun U h => by
            obtain rfl := Option.some.inj (hT.symm.trans h)
            exact hclosed).moves
      | false =>
          have hfinished := Move.finished (A := A)
            ({ s with current := host } : SimNetwork ρ).board hT hclosed exc (.inl hstack)
          have htransports : ∀ w : Switchboard, (w.finish t T exc).transports =
              w.transports.modify t .finished := by
            intro w
            unfold Switchboard.finish
            cases T.protocol <;> rfl
          have hsoon : ∀ w : Switchboard, (w.finish t T exc).soon = w.soon := by
            intro w
            unfold Switchboard.finish
            cases T.protocol <;> rfl
          refine hfinished.moves.trans ?_
          have hran : ∀ v : Switchboard, v.soon[i]? = some (.finish t exc, host) →
              v.Settled (.finish t exc) → Moves A v { v with soon := v.soon.eraseIdx i } :=
            fun v hv hsettled => (Move.ran v hv hsettled).moves
          refine (hran _ ?_ ?_).trans (.of_eq ?_)
          · rw [hsoon]
            exact hi
          · intro U hU
            rw [htransports] at hU
            change (s.transports.modify t _)[t]? = some U at hU
            rw [List.getElem?_modify_eq, hT] at hU
            obtain rfl := Option.some.inj hU
            rfl
          · refine (board_finish { s with soon := s.soon.eraseIdx i, current := host } hT hclosed
              exc).trans ?_
            unfold Switchboard.finish
            cases T.protocol <;> rfl

theorem loopAct_switches {a : Act} {s' : SimNetwork ρ} (hstack : s.stack = [])
    (hA : ∀ host, A (.entered host)) (h : loopAct R s a = some s') : Moves A s.board s'.board := by
  cases a
  case advance time =>
    simp only [loopAct] at h
    split at h
    · obtain rfl := Option.some.inj h
      exact .of_eq rfl
    · cases h
  case fire i =>
    cases hi : s.inFlight[i]? with
    | none => simp only [loopAct, hi] at h; cases h
    | some f =>
        simp only [loopAct, hi] at h
        split at h
        · obtain rfl := Option.some.inj h
          exact deliver_switches R s hi hstack hA
        · cases h
  case runSoon i =>
    cases hi : s.soon[i]? with
    | none => simp only [loopAct, hi] at h; cases h
    | some entry =>
        obtain ⟨handle, host⟩ := entry
        simp only [loopAct, hi] at h
        cases handle with
        | finish t exc =>
            obtain rfl := Option.some.inj h
            exact runSoon_switches s hi hstack (hA host)
        | lost d =>
            obtain rfl := Option.some.inj h
            have hswitched : Moves A s.board ({ s with current := host } : SimNetwork ρ).board :=
              (Move.switched s.board hstack (hA host)).moves
            have hran : Moves A ({ s with current := host } : SimNetwork ρ).board
                ({ s with soon := s.soon.eraseIdx i, current := host } : SimNetwork ρ).board :=
              (Move.ran ({ s with current := host } : SimNetwork ρ).board hi trivial).moves
            exact (hswitched.trans hran).trans (lost_switches _ d)
  case step i =>
    cases hT : s.tasks[i]? with
    | none => simp only [loopAct, hT] at h; cases h
    | some T =>
        simp only [loopAct, hT] at h
        split at h
        · cases h
        · obtain rfl := Option.some.inj h
          exact (Move.started s.board hstack (hA _)).moves
  case callback host =>
    simp only [loopAct] at h
    split at h
    · obtain rfl := Option.some.inj h
      exact (Move.started s.board hstack (hA _)).moves
    · cases h
  case forget i =>
    simp only [loopAct] at h
    split at h
    · obtain rfl := Option.some.inj h
      exact .of_eq (board_forgetTask s i)
    · cases h
  all_goals cases h

theorem codeAct_switches {rest : List Frame} {a : Act} {s' : SimNetwork ρ}
    (hstack : s.stack = .code :: rest) (h : codeAct R rest s a = some s') :
    Moves (s.Occasions a) s.board s'.board := by
  have hif : ∀ {b : Bool} {x : SimNetwork ρ}, (if b = true then some x else none) = some s' →
      Moves (s.Occasions a) s.board x.board → Moves (s.Occasions a) s.board s'.board := by
    intro b x h hx
    split at h
    · obtain rfl := Option.some.inj h
      exact hx
    · cases h
  have hleft : Moves (s.Occasions a) s.board ({ s with stack := rest } : SimNetwork ρ).board :=
    (Move.popped s.board hstack trivial).moves
  cases a
  case write t data => exact hif h (write_switches R s rfl (.inl ⟨t, data, rfl⟩))
  case writeEof t => exact hif h (writeEof_switches R s t)
  case close t => exact hif h (close_switches R s t)
  case forceClose t exc => exact hif h (forceClose_switches R s t exc)
  case pauseReading t => exact hif h (pauseReading_switches s t)
  case resumeReading t => exact hif h (resumeReading_switches s rfl)
  case setWriteBufferLimits t high low => exact hif h (setWriteBufferLimits_switches s t high low)
  case setProtocol t protocol =>
    simp only [codeAct] at h
    split at h
    · rename_i hexposed
      obtain rfl := Option.some.inj h
      refine (Move.adopted s.board protocol fun T hT => ?_).moves
      simpa only [exposed, show s.transports[t]? = some T from hT, Option.any_some] using hexposed
    · cases h
  case sendto d data addr => exact hif h (sendto_switches R s d data addr)
  case closeDatagram d => exact hif h (closeDatagram_switches s d)
  case createTask made context => exact hif h (.of_eq (board_createTask s made context))
  case hostCreateTask name made => exact hif h (.of_eq (board_hostCreateTask s name made))
  case resumeConnection conn thrown => exact hif h (resumeConnection_switches R s conn thrown)
  all_goals
    simp only [codeAct, Option.some.injEq, reduceCtorEq] at h
  all_goals
    subst h
  case ret => exact hleft
  case raise => exact hleft
  case host name => rw [board_answer]; exact host_switches s name
  case setDefaults => rw [board_answer]; exact .of_eq (board_setDefaults s _ _ _)
  case setLink => rw [board_answer]; exact .of_eq (board_setLink s _ _ _ _ _)
  case setFlowControl enabled high low =>
    exact setFlowControl_switches s _ _ _ (.inr (.inl ⟨enabled, high, low, rfl⟩))
  case partition => rw [board_answer]; exact .of_eq (board_partition s _ _)
  case heal => exact heal_switches R s
  case crash name waiting =>
    exact crash_switches s (fun hname => .inl ⟨⟨waiting, rfl⟩, hname⟩)
      fun conn hconn => .inr ⟨name, waiting, rfl, hconn⟩
  case restart name => exact restart_switches s name
  case openConnection host port => exact openConnection_switches R s host port
  case cancelConnection conn => exact (Move.cancelled s.board (.inl rfl)).moves
  case startServer host port => exact .of_eq (board_startServer s host port)
  case closeServer v => exact .of_eq (board_closeServer s v)
  case closeClients v => exact closeClients_switches R s v
  case abortClients v => exact abortClients_switches R s v
  case openDatagramEndpoint loc remote => exact openDatagramEndpoint_switches s loc remote
  case settle i => exact .of_eq rfl

/-- **Every step of the network is a sequence of moves of its switchboard.** -/
theorem step_switches {a : Act} {s' : SimNetwork ρ} (h : Step R s a s') :
    Moves (s.Occasions a) s.board s'.board := by
  rcases step_cases R h with ⟨-, hstack, h⟩ | ⟨rest, -, hstack, h⟩ | ⟨rfl, -, rfl⟩
  · exact loopAct_switches R s hstack (fun _ => .inl hstack) h
  · exact codeAct_switches R s hstack h
  · exact turn_switches R s

/-- What every move keeps holds at the end of every run it held at the start of. -/
theorem board_of_run {R : RandomSource ρ} {I : Switchboard → Prop}
    (hmove : ∀ A w w', Switchboard.Move A w w' → I w → I w') {s s' : SimNetwork ρ}
    {acts : List Act} (run : Run (Step R) s acts s') (hs : I s.board) : I s'.board :=
  run.invariant (I := fun s => I s.board)
    (fun u _ _ hu hstep => (step_switches R u hstep).invariant (hmove _) hu) hs

/-- The board of a new network. -/
theorem board_init (R : RandomSource ρ) (seed : Int) :
    (init R seed).board =
      { traffic := ⟨[], [], [], [], [], 0⟩
        alive := (Dict.empty : Dict HostName Bool).insert driver true
        owners := (Dict.empty : Dict String HostName).insert (formatAddress 1) driver
        sockets := []
        transports := []
        streams := Dict.empty
        inbound := Dict.empty
        connects := []
        pending := Dict.empty
        soon := []
        stack := []
        calls := []
        current := driver } := rfl

end SimNetwork

end SimLoop.Net
