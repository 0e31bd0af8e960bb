/-
  Net/Reliability.lean --- what one end writes is what the other one is handed.

  Along every run on which no exception takes away bytes, or the end of a stream, that were
  still to be delivered, a protocol is handed a prefix of what the other end wrote, and is
  told of the end of the stream at most once and only after all of it.
-/
import SimLoop.Net.Delivery

set_option autoImplicit false

namespace SimLoop.Net

open SimLoop.Foundation

namespace Switchboard

variable {A : Occasion → Prop} {w w' : Switchboard} {t u : Nat} {T U : StreamTransport}

/-! ## Boards in order -/

/-- What holds of every board there can be. -/
structure Regular (w : Switchboard) : Prop where
  sound : w.Sound
  ordered : w.Ordered
  stacked : Stacked w.stack

theorem Regular.move (hw : w.Regular) (h : Move A w w') : w'.Regular :=
  ⟨hw.sound.move h, h.ordered hw.sound.wired hw.ordered, h.stacked hw.stacked⟩

theorem Regular.moves (hw : w.Regular) (h : Moves A w w') : w'.Regular :=
  h.invariant (fun _ _ hmove hw => hw.move hmove) hw

/-- On a calm occasion every intake makes its moves. -/
theorem Regular.intake (hw : w.Regular) (hcalm : Calm A t) (h : Moves A w w') :
    Intake.Moves (w.intake t) (w'.intake t) := by
  induction h with
  | refl => exact .refl
  | tail hmoves hmove ih =>
      have hv := hw.moves hmoves
      exact ih.trans (hmove.intake hv.sound hv.ordered hv.stacked hcalm)

/-- Bytes are written, and make the next data packet of the end. -/
theorem Written.wrote (hw : w.Written) (hwired : w.wiring.Wired)
    (hT : w.transports[t]? = some T) (host : HostName) {data : Bytes} {tr : Traffic}
    (hpost : Traffic.Posted (T.packet .data data w.traffic.nextUid) w.traffic tr) :
    ({ w.modify t (.posted .data) with
      traffic := tr, calls := w.calls ++ [(host, .wrote t data)] } : Switchboard).Written := by
  have hon : ∀ k, List.filter (Packet.travels k) tr.sent =
      (w.wiring.post (T.packet .data data w.traffic.nextUid)).on k := fun k =>
    congrArg (List.filter (Packet.travels k)) hpost.sent
  refine ⟨fun u hu => ?_, fun u U' hU' => ?_⟩
  · have hu : w.transports[u]? = none := by
      have hlength := List.getElem?_eq_none_iff.mp hu
      rw [Switchboard.modify, List.length_modify] at hlength
      exact List.getElem?_eq_none hlength
    have hne : ¬ t = u := by
      rintro rfl
      cases hT.symm.trans hu
    rw [writtenTo_concat, hw.unmade u hu, Call.wroteTo, if_neg hne]
    rfl
  · change (w.transports.modify t (.posted .data))[u]? = some U' at hU'
    rw [List.getElem?_modify] at hU'
    obtain ⟨U, hU, hsame⟩ := Option.map_eq_some_iff.mp hU'
    have hkey : U'.outKey = U.outKey := by
      rw [← hsame]
      split <;> rfl
    have hout : (T.packet .data data w.traffic.nextUid).key = T.outKey := rfl
    have hcarried := hw.carried u U hU
    have hposted := Wiring.on_post (w := w.wiring) (p := T.packet .data data w.traffic.nextUid)
      (fun h => by cases h) U.outKey
    rw [writtenTo_concat, ← hcarried, hkey]
    refine (congrArg streamBytes ((hon _).trans hposted)).trans ?_
    rw [hout]
    split
    · rename_i hsame
      obtain rfl : t = u := by
        refine hwired.eq_of_outKey (ends_of_transports hT) (ends_of_transports hU) ?_
        exact hsame
      rw [streamBytes_append, Call.wroteTo, if_pos rfl]
      exact congrArg _ (streamBytes_singleton _)
    · rename_i hne
      have htu : ¬ t = u := by
        rintro rfl
        obtain rfl := Option.some.inj (hT.symm.trans hU)
        exact hne rfl
      rw [Call.wroteTo, if_neg htu, List.append_nil]

/-- Whoever has come to the end of the stream has all bytes of it. -/
theorem Ordered.bytes_of_ended (hw : w.Ordered) {k : Key}
    (hended : ∃ p ∈ w.wiring.taken k, p.kind = .fin) :
    streamBytes (w.wiring.taken k) = streamBytes (w.wiring.on k) := by
  obtain ⟨p, hp, hfin⟩ := hended
  obtain ⟨l, hl⟩ := w.wiring.taken_begins k
  have hpair := hw.lastly k
  rw [← hl] at hpair
  have hnone : streamBytes l = [] := List.flatMap_eq_nil_iff.mpr fun x hx =>
    Packet.bytes_of_ne ((List.pairwise_append.mp hpair).2.2 p hp x hx hfin).1
  rw [← hl, streamBytes_append, hnone, List.append_nil]

/-- Nothing but a write adds to what was written. -/
theorem Regular.written (hw : w.Regular) (hA : ∀ t data, ¬ A (.wrote t data)) (h : Moves A w w')
    (hwritten : w.Written) : w'.Written := by
  induction h with
  | refl => exact hwritten
  | tail hmoves hmove ih =>
      have hv := hw.moves hmoves
      exact hmove.written hA hv.sound.wired hv.ordered ih

end Switchboard

/-! ## Runs that take nothing away -/

namespace SimNetwork

variable {ρ : Type} {R : RandomSource ρ} {s s' : SimNetwork ρ}

/-- The frame can be given up with `rest` below it: of what the frame was to hand over, bytes or
the end of the stream, nothing is owed to the protocol. -/
def spares (s : SimNetwork ρ) (rest : List Frame) : Frame → Bool
  | .drain t => s.transports[t]?.all fun T =>
    T.closed || T.readPaused || T.backlog.isEmpty && !T.eofPending || rest.contains (.drain t)
  | .getBuffer t view => view.isEmpty || s.transports[t]?.all (·.closed)
  | .bufferUpdated t view => view.isEmpty || s.transports[t]?.all (·.closed)
  | _ => true

/-- No exception and no protocol without room takes away what is being handed over, and reading is
not resumed into the middle of such a hand-over. -/
def smooth (s : SimNetwork ρ) : Act → Bool
  | .tick =>
    match s.signal, s.stack with
    | .raised _, f :: rest => s.spares rest f
    | .returned v, .getBuffer t view :: rest => v.len != 0 || s.spares rest (.getBuffer t view)
    | _, _ => true
  | .resumeReading t => s.transports[t]?.all fun T =>
    T.closed || !T.readPaused || T.backlog.isEmpty && !T.eofPending ||
      underway (duties t s.stack) == []
  | _ => true

/-- A frame that can be spared may be dropped. -/
theorem spares_mayDrop {f : Frame} {rest : List Frame} {t : Nat} {d : Duty}
    (h : s.spares rest f = true) (hduty : f.duty t = some d) :
    (s.board.intake t).MayDrop (duties t rest) d := by
  have hear : ∀ E, (s.board.intake t).ear = some E → ∃ T, s.transports[t]? = some T ∧ T.ear = E :=
    fun E hE => Option.map_eq_some_iff.mp hE
  -- a frame that feeds the transport
  have hfeeding : ∀ view : Bytes,
      (view.isEmpty || s.transports[t]?.all (·.closed)) = true →
        (s.board.intake t).MayDrop (duties t rest) (.feeding view) := by
    intro view h
    refine (Bool.or_eq_true_iff.mp h).imp List.isEmpty_iff.mp fun h E hE hlive => ?_
    obtain ⟨T, hT, rfl⟩ := hear E hE
    rw [hT] at h
    cases h.symm.trans hlive.1
  cases f <;> simp only [Frame.duty, reduceCtorEq] at hduty
  case acceptFactory conn u =>
    obtain ⟨-, h⟩ := Option.ite_none_right_eq_some.mp hduty
    obtain rfl := Option.some.inj h
    exact trivial
  case synFactory u =>
    obtain ⟨-, h⟩ := Option.ite_none_right_eq_some.mp hduty
    obtain rfl := Option.some.inj h
    exact trivial
  case drain u =>
    obtain ⟨rfl, hd⟩ := Option.ite_none_right_eq_some.mp hduty
    obtain rfl := Option.some.inj hd
    intro E hE hlive hreading
    obtain ⟨T, hT, rfl⟩ := hear E hE
    simp only [spares, hT, Option.all_some, Bool.or_eq_true, Bool.and_eq_true, List.isEmpty_iff,
      Bool.not_eq_true', List.contains_iff_mem] at h
    rcases h with ((hclosed | hpaused) | hnone) | hagain
    · cases hclosed.symm.trans hlive.1
    · cases hpaused.symm.trans hreading
    · exact .inl hnone
    · exact .inr (List.mem_filterMap.mpr ⟨_, hagain, if_pos rfl⟩)
  case getBuffer u view =>
    obtain ⟨rfl, hd⟩ := Option.ite_none_right_eq_some.mp hduty
    obtain rfl := Option.some.inj hd
    exact hfeeding view h
  case bufferUpdated u view =>
    obtain ⟨rfl, hd⟩ := Option.ite_none_right_eq_some.mp hduty
    obtain rfl := Option.some.inj hd
    exact hfeeding view h

/-- A frame is given up that can be spared. -/
theorem spares_intake {f : Frame} {rest : List Frame} (hstack : s.stack = f :: rest)
    (h : s.spares rest f = true) (t : Nat) :
    Intake.Moves (s.board.intake t)
      (({ s.board with stack := rest } : Switchboard).intake t) := by
  cases hduty : f.duty t with
  | none =>
      rw [Switchboard.intake_popped (w := s.board) hstack hduty]
      exact .refl
  | some d =>
      exact .single (.dropped _ (Switchboard.duties_intake hstack hduty) (spares_mayDrop h hduty))

/-- `resume_reading`, when nothing of the transport is being handed over or nothing is parked. -/
theorem resumeReading_intake {t : Nat} (hs : s.board.Regular)
    (hbegun : ∀ T, s.transports[t]? = some T → T.begun = true)
    (h : s.smooth (.resumeReading t) = true) :
    Intake.Moves (s.board.intake t) ((resumeReading t s).board.intake t) := by
  cases hT : s.transports[t]? with
  | none =>
      simp only [resumeReading, hT]
      exact .refl
  | some T =>
      simp only [smooth, hT, Option.all_some, Bool.or_eq_true, Bool.and_eq_true, List.isEmpty_iff,
        Bool.not_eq_true', beq_iff_eq] at h
      simp only [resumeReading, hT]
      split
      · exact .refl
      · rename_i hgo
        have hopen : T.closed = false := Bool.eq_false_iff.mpr fun h => hgo (.inl h)
        have hpaused : T.readPaused = true := Bool.eq_true_of_not_eq_false fun h =>
          hgo (.inr (by rw [h]; rfl))
        have hread := Switchboard.intake_modify (w := s.board) hT (f := .reading false) rfl
        rcases h with (hstop | ⟨hbacklog, hpending⟩) | hidle
        · exact absurd (hstop.imp_right fun h => by rw [h]; rfl) hgo
        · have hget : (s.setTransport t fun T => { T with readPaused := false }).transports[t]? =
              some { T with readPaused := false } := by
            simp only [setTransport, List.getElem?_modify_eq, hT]
            rfl
          have hboard : (drainNext t (s.setTransport t fun T =>
              { T with readPaused := false })).board = s.board.modify t (.reading false) := by
            simp only [drainNext, hget, hopen, hbacklog, hpending, Bool.false_eq_true, or_self,
              if_false]
            rfl
          rw [hboard, hread]
          exact .single (.reopened _ (Switchboard.ear_intake hT) hbacklog hpending)
        · have hresumed := Switchboard.Move.resumed (A := fun _ => True) s.board hT hopen trivial
          have hstart := Intake.Move.resumed (s.board.intake t) (Switchboard.ear_intake hT)
            (hbegun T hT) hidle
          have hpushed := Switchboard.intake_push (s.board.modify t (.reading false)) t [.drain t]
          have hduties : duties t [.drain t] = [.draining] := by
            refine duties_cons_some (f := .drain t) ?_ []
            exact if_pos rfl
          rw [hduties, hread] at hpushed
          have hdrain := drainNext_switches (A := fun _ => False)
            (s.setTransport t fun T => { T with readPaused := false }) t
          have hcalm : Switchboard.Calm (fun _ => False) t := ⟨fun _ h => h.elim, id, id⟩
          refine Relation.ReflTransGen.trans (.single ?_) ((hs.move hresumed).intake hcalm hdrain)
          rw [hpushed]
          exact hstart

/-- A frame that works for a transport is just left. -/
theorem board_unwind_of_duty (s : SimNetwork ρ) (e : Exc) {f : Frame} {t : Nat} {d : Duty}
    (hduty : f.duty t = some d) : (unwind f e s).board = s.board := by
  cases f <;> first | rfl | cases hduty

/-- A tick that spares what is owed. -/
theorem turn_intake {t : Nat} (hs : s.board.Regular) (h : s.smooth .tick = true) :
    Intake.Moves (s.board.intake t) ((turn R s).board.intake t) := by
  have hcalm : (∀ e f rest, s.signal = .raised e → s.stack = f :: rest →
        f.duty t = none ∨ f.duty t = some .opening) →
      (∀ v view rest, s.signal = .returned v → v.len = 0 → s.stack ≠ .getBuffer t view :: rest) →
      Intake.Moves (s.board.intake t) ((turn R s).board.intake t) := fun hunwound hstarved => by
    refine hs.intake ⟨?_, ?_, ?_⟩ (turn_switches R s)
    · rintro f ⟨-, e, rest, hsignal, hstack⟩
      exact hunwound e f rest hsignal hstack
    · intro h
      cases h
    · rintro ⟨-, v, view, rest, hsignal, hlen, hstack⟩
      exact hstarved v view rest hsignal hlen hstack
  cases hsignal : s.signal with
  | run =>
      refine hcalm (fun _ _ _ h => ?_) fun _ _ _ h => ?_
      · cases hsignal.symm.trans h
      · cases hsignal.symm.trans h
  | raised e =>
      cases hstack : s.stack with
      | nil =>
          refine hcalm (fun _ _ _ _ h => ?_) fun _ _ _ h => ?_
          · cases hstack.symm.trans h
          · cases hsignal.symm.trans h
      | cons f rest =>
          simp only [smooth, hsignal, hstack] at h
          cases hduty : f.duty t with
          | none =>
              refine hcalm (fun _ g rest' _ h => .inl ?_) fun _ _ _ h => ?_
              · obtain ⟨rfl, -⟩ := List.cons.inj (hstack.symm.trans h)
                exact hduty
              · cases hsignal.symm.trans h
          | some d =>
              have hboard : (turn R s).board = { s.board with stack := rest } := by
                simp only [turn, hsignal, hstack]
                exact board_unwind_of_duty _ e hduty
              rw [hboard]
              exact spares_intake hstack h t
  | returned v =>
      rcases Classical.em (v.len = 0 ∧ ∃ view rest, s.stack = .getBuffer t view :: rest) with
        ⟨hlen, view, rest, hstack⟩ | hfed
      · simp only [smooth, hsignal, hstack, Bool.or_eq_true, bne_iff_ne] at h
        have hspares := h.resolve_left fun h => h hlen
        have hboard : (turn R s).board = { s.board with stack := rest } := by
          simp only [turn, hsignal, hstack, proceed, takeRoom, hlen, if_true]
          rfl
        rw [hboard]
        exact spares_intake hstack hspares t
      · refine hcalm (fun _ _ _ h => ?_) fun v' view rest h hlen hstack => ?_
        · cases hsignal.symm.trans h
        · obtain rfl := Signal.returned.inj (hsignal.symm.trans h)
          exact hfed ⟨hlen, view, rest, hstack⟩

/-- **Whatever a step does, every intake makes its moves.** -/
theorem Step.intake {a : Act} (hs : s.board.Regular) (hstep : Step R s a s')
    (h : s.smooth a = true) (t : Nat) : Intake.Moves (s.board.intake t) (s'.board.intake t) := by
  have hcalm : a ≠ .tick → a ≠ .resumeReading t →
      Intake.Moves (s.board.intake t) (s'.board.intake t) := fun htick hresume => by
    refine hs.intake ⟨?_, hresume, fun h => htick h.1⟩ (step_switches R s hstep)
    rintro f ⟨h, -⟩
    exact absurd h htick
  cases a
  case tick =>
    rcases step_cases R hstep with ⟨-, -, h'⟩ | ⟨rest, -, -, h'⟩ | ⟨-, -, rfl⟩
    · cases h'
    · cases h'
    · exact turn_intake hs h
  case resumeReading u =>
    cases hut : decide (u = t) with
    | false =>
        refine hcalm (fun h => by cases h) fun h => ?_
        exact of_decide_eq_false hut (Act.resumeReading.inj h)
    | true =>
        obtain rfl := of_decide_eq_true hut
        rcases step_cases R hstep with ⟨-, -, h'⟩ | ⟨rest, -, -, h'⟩ | ⟨h', -⟩
        · cases h'
        · simp only [codeAct] at h'
          split at h'
          · rename_i hexposed
            obtain rfl := Option.some.inj h'
            refine resumeReading_intake hs (fun T hT => ?_) h
            simpa only [exposed, hT, Option.any_some] using hexposed
          · cases h'
        · cases h'
  all_goals exact hcalm (fun h => by cases h) fun h => by cases h

/-- `write` makes a packet of what it logs. -/
theorem write_written (hs : s.board.Regular) (hwritten : s.board.Written) (t : Nat) (data : Bytes) :
    (write R t data s).board.Written := by
  cases hT : s.transports[t]? with
  | none =>
      simp only [write, hT]
      exact hwritten
  | some T =>
      simp only [write, hT]
      split
      · exact hwritten
      · rename_i hfree
        have heof : T.eofSent = false := Bool.eq_false_iff.mpr fun h => hfree (.inl h)
        have hwrote : Switchboard.Move (fun _ => True) s.board
            { s.board with calls := s.calls ++ [(s.current, .wrote t data)] } :=
          .wrote s.board trivial
        split
        · rename_i hempty
          refine hwritten.of_same rfl (fun u U hU => ⟨U, hU, rfl⟩) (fun _ => rfl) fun u => ?_
          have hnothing : (Call.wrote t data).wroteTo u = [] := by
            rw [hempty, Call.wroteTo]
            split <;> rfl
          refine (writtenTo_concat u s.calls _).trans ?_
          rw [hnothing, List.append_nil]
          rfl
        · obtain ⟨tr, htr, heq⟩ := board_send R
            ({ s with calls := s.calls ++ [(s.current, .wrote t data)] } : SimNetwork ρ) hT .data
            data
          rw [← posted_of_ne (show PacketKind.data ≠ .fin by decide)] at heq
          have hsent := Switchboard.Move.sent (A := fun _ => True)
            ({ s with calls := s.calls ++ [(s.current, .wrote t data)] } : SimNetwork ρ).board hT
            (.inl rfl) (fun _ => heof) (fun _ => trivial) htr
          have hregular := (hs.move hwrote).move hsent
          rw [← heq] at hregular
          have hposted := hwritten.wrote hs.sound.wired hT s.current htr
          have hboard : (send R t .data data { s with
              calls := s.calls ++ [(s.current, .wrote t data)] }).board.Written := by
            rw [heq]
            exact hposted
          have hget := getElem?_send R
            ({ s with calls := s.calls ++ [(s.current, .wrote t data)] } : SimNetwork ρ) hT .data
            data
          have hopen : T.closed = false := Bool.eq_false_iff.mpr fun h => hfree (.inr (.inr h))
          exact hregular.written (A := fun o => o = .metered) (fun _ _ h => by cases h)
            (charge_switches _ hget hopen _ rfl) hboard

theorem Step.written {a : Act} (hs : s.board.Regular) (hstep : Step R s a s')
    (hwritten : s.board.Written) : s'.board.Written := by
  have hother : (∀ t data, a ≠ .write t data) → s'.board.Written := fun h =>
    hs.written (fun t data => h t data) (step_switches R s hstep) hwritten
  cases a
  case write t data =>
    rcases step_cases R hstep with ⟨-, -, h⟩ | ⟨rest, -, -, h⟩ | ⟨h, -⟩
    · cases h
    · simp only [codeAct] at h
      split at h
      · obtain rfl := Option.some.inj h
        exact write_written hs hwritten t data
      · cases h
    · cases h
  all_goals exact hother fun _ _ h => by cases h

/-- **Every reachable board is regular.** -/
theorem regular_of_run {seed : Int} {acts : List Act} (run : Run (Step R) (init R seed) acts s) :
    s.board.Regular := by
  refine board_of_run (I := Switchboard.Regular) (fun _ _ _ hmove hw => hw.move hmove) run ?_
  refine ⟨sound_of_run (.nil _), ?_, .free .nil⟩
  rw [board_init]
  exact ⟨fun _ _ h => (by cases h), fun _ h => absurd h List.not_mem_nil,
    fun _ h _ => absurd h List.not_mem_nil, fun _ h _ => absurd h List.not_mem_nil,
    fun _ h _ => absurd h List.not_mem_nil, fun _ => List.Pairwise.nil⟩

/-- What an end has written is what its data packets carry. -/
theorem written_of_run {seed : Int} {acts : List Act} (run : Run (Step R) (init R seed) acts s) :
    s.board.Written := by
  have hboth := run.invariant (I := fun s => s.board.Regular ∧ s.board.Written)
    (fun s a s' hs hstep => ⟨hs.1.moves (step_switches R s hstep), Step.written hs.1 hstep hs.2⟩)
    ⟨regular_of_run (.nil _), fun _ _ => rfl, fun _ _ h => (by cases h)⟩
  exact hboth.2

/-- **Nothing that an intake was given is lost or out of order**, as long as nothing is taken
away. -/
theorem intake_of_run {seed : Int} {acts : List Act}
    (run : Run (restrict (Step R) fun s a => s.smooth a) (init R seed) acts s) (t : Nat) :
    (s.board.intake t).Sound := by
  have hboth := run.invariant (I := fun s => s.board.Regular ∧ (s.board.intake t).Sound)
    (fun s a s' hs hstep => ⟨hs.1.moves (step_switches R s hstep.1),
      hs.2.moves (Step.intake hs.1 hstep.1 hstep.2 t)⟩)
    ⟨regular_of_run (.nil _), .empty⟩
  exact hboth.2

/-! ## From end to end -/

/-- What the transport `u` sends goes to the transport `t`. -/
structure Faces (s : SimNetwork ρ) (u : Nat) (U : StreamTransport) (t : Nat)
    (T : StreamTransport) : Prop where
  sender : s.transports[u]? = some U
  receiver : s.transports[t]? = some T
  meets : U.outKey = T.key

/-- To a transport that nobody sends to comes nothing but handshakes. -/
theorem silent_of_unfaced {seed : Int} {acts : List Act}
    (run : Run (Step R) (init R seed) acts s) {t : Nat} (h : ∀ u U T, ¬ s.Faces u U t T) :
    ∀ p ∈ (s.board.intake t).arrived, p.kind ≠ .data ∧ p.kind ≠ .fin := by
  intro p hp
  cases hT : s.transports[t]? with
  | none =>
      simp only [Switchboard.intake, show s.board.transports[t]? = none from hT, Option.map_none,
        Option.getD_none] at hp
      exact absurd hp List.not_mem_nil
  | some T =>
      rw [Switchboard.arrived_intake (w := s.board) hT] at hp
      refine (sound_of_run run).signed.silent (k := T.key) (fun e he hkey => ?_)
        ((s.board.wiring.taken_begins T.key).subset hp)
      obtain ⟨U, hU, rfl⟩ := List.mem_map.mp he
      obtain ⟨u, hu⟩ := List.mem_iff_getElem?.mp hU
      exact h u U T ⟨hu, hT, hkey⟩

/-- **What a protocol is handed is a prefix of what the other end wrote**, as long as nothing is
taken away; and without another end it is handed nothing. -/
theorem handed_prefix_written {seed : Int} {acts : List Act}
    (run : Run (restrict (Step R) fun s a => s.smooth a) (init R seed) acts s) (t : Nat) :
    (∀ u U T, s.Faces u U t T → handedTo t s.calls <+: writtenTo u s.calls) ∧
      ((∀ u U T, ¬ s.Faces u U t T) → handedTo t s.calls = []) := by
  have hsound := intake_of_run run t
  have hpart : handedTo t s.calls <+: streamBytes (s.board.intake t).arrived :=
    (List.prefix_append _ _).trans hsound.part
  refine ⟨?_, fun hnobody => ?_⟩
  · rintro u U T ⟨hU, hT, hkey⟩
    have hwritten := (written_of_run run.of_restrict).carried u U hU
    rw [hkey] at hwritten
    rw [Switchboard.arrived_intake (w := s.board) hT] at hpart
    have hsent : streamBytes (s.board.wiring.taken T.key) <+: writtenTo u s.calls := by
      rw [← show streamBytes (s.board.wiring.on T.key) = writtenTo u s.calls from hwritten]
      obtain ⟨l, hl⟩ := s.board.wiring.taken_begins T.key
      exact ⟨streamBytes l, (streamBytes_append _ _).symm.trans (congrArg streamBytes hl)⟩
    exact hpart.trans hsent
  · have hnone : streamBytes (s.board.intake t).arrived = [] :=
      List.flatMap_eq_nil_iff.mpr fun p hp =>
        Packet.bytes_of_ne (silent_of_unfaced run.of_restrict hnobody p hp).1
    rw [hnone] at hpart
    exact List.prefix_nil.mp hpart

/-- A connection over which two data packets and the end of the stream are sent; the second
packet lands before the first, and both while reading is paused. -/
def exchange : List Act :=
  [.callback driver, .startServer none 80, .tick, .openConnection driver 80, .tick, .ret {}, .tick,
    .fire 0, .ret {}, .tick, .ret {}, .tick, .tick, .tick,
    .fire 0, .ret {}, .tick, .ret {}, .tick, .tick, .tick, .tick,
    .callback driver, .pauseReading 0, .tick, .write 1 [1, 2], .tick, .write 1 [3], .tick,
    .writeEof 1, .tick, .ret {}, .tick,
    .fire 1, .tick, .tick, .fire 0, .tick, .tick, .tick, .tick, .fire 0, .tick, .tick, .tick,
    .callback driver, .resumeReading 0, .ret {}, .tick, .tick, .ret {}, .tick, .tick, .ret {},
    .tick, .tick, .ret {}, .tick]

/-- On its way to the client the answer leaves a transport that nobody faces. -/
theorem exchange_unfaced : ∃ s : SimNetwork Unit,
    performsWhile .least smooth (init .least 0) (exchange.take 14) = some s ∧
      s.transports.length = 1 ∧ ∀ u U T, ¬ s.Faces u U 0 T := by
  have hstate : ((performsWhile .least smooth (init .least 0) (exchange.take 14)).map fun s =>
      (s.transports.length, s.transports.any fun U => s.transports.any fun T =>
        decide (U.outKey = T.key))) = some (1, false) := by
    decide +kernel
  obtain ⟨s, hs, hflags⟩ := Option.map_eq_some_iff.mp hstate
  obtain ⟨hlength, hnone⟩ := Prod.mk.inj hflags
  refine ⟨s, hs, hlength, fun u U T ⟨hU, hT, hkey⟩ => ?_⟩
  simp only [List.any_eq_false, Bool.not_eq_true] at hnone
  exact of_decide_eq_false (hnone U (List.mem_of_getElem? hU) T (List.mem_of_getElem? hT)) hkey

theorem handed_prefix_written_exchange :
    (∃ (s : SimNetwork Unit) (T U : StreamTransport),
      performsWhile .least smooth (init .least 0) (exchange.take 48) = some s ∧ s.Faces 1 U 0 T ∧
        handedTo 0 s.calls = [1, 2] ∧ handedTo 0 s.calls <+: writtenTo 1 s.calls) ∧
      ∃ s : SimNetwork Unit,
        performsWhile .least smooth (init .least 0) (exchange.take 14) = some s ∧
          s.transports.length = 1 ∧ handedTo 0 s.calls = [] := by
  refine ⟨?_, ?_⟩
  · have hstate : ((performsWhile .least smooth (init .least 0) (exchange.take 48)).bind fun s =>
        s.transports[1]?.bind fun U => s.transports[0]?.map fun T =>
          (decide (U.outKey = T.key), handedTo 0 s.calls)) = some (true, [1, 2]) := by
      decide +kernel
    obtain ⟨s, hs, hrest⟩ := Option.bind_eq_some_iff.mp hstate
    obtain ⟨U, hU, hrest⟩ := Option.bind_eq_some_iff.mp hrest
    obtain ⟨T, hT, hflags⟩ := Option.map_eq_some_iff.mp hrest
    obtain ⟨hkey, hhanded⟩ := Prod.mk.inj hflags
    have hfaces : s.Faces 1 U 0 T := ⟨hU, hT, of_decide_eq_true hkey⟩
    exact ⟨s, T, U, hs, hfaces, hhanded,
      (handed_prefix_written (run_of_performsWhile _ hs) 0).1 1 U T hfaces⟩
  · obtain ⟨s, hs, hlength, hunfaced⟩ := exchange_unfaced
    exact ⟨s, hs, hlength, (handed_prefix_written (run_of_performsWhile _ hs) 0).2 hunfaced⟩

/-- The end of a stream is told once, after all bytes of it. -/
theorem told_after_all {seed : Int} {acts : List Act}
    (run : Run (restrict (Step R) fun s a => s.smooth a) (init R seed) acts s) {t u : Nat}
    {T U : StreamTransport} (h : s.Faces u U t T) :
    eofsTo t s.calls = 0 ∨ eofsTo t s.calls = 1 ∧ U.eofSent = true ∧
      handedTo t s.calls = writtenTo u s.calls := by
  obtain ⟨hU, hT, hkey⟩ := h
  have hregular := regular_of_run run.of_restrict
  have hwritten := (written_of_run run.of_restrict).carried u U hU
  rw [hkey] at hwritten
  have harrived := Switchboard.arrived_intake (w := s.board) hT
  refine (intake_of_run run t).heard.imp_right fun ⟨hone, hended, hall, _⟩ => ⟨hone, ?_, ?_⟩
  · rw [Intake.Ended, harrived] at hended
    obtain ⟨p, hp, hfin⟩ := hended
    refine Bool.eq_true_of_not_eq_false fun heof => ?_
    refine hregular.ordered.unended U (List.mem_of_getElem? hU) heof p ?_ hfin
    rw [hkey]
    exact (s.board.wiring.taken_begins T.key).subset hp
  · rw [Intake.Ended, harrived] at hended
    rw [harrived, hregular.ordered.bytes_of_ended hended] at hall
    exact hall.trans hwritten

/-- **A protocol is told once that nothing will follow, when it has all that was written**; and
without another end it is never told. -/
theorem eof_after_all {seed : Int} {acts : List Act}
    (run : Run (restrict (Step R) fun s a => s.smooth a) (init R seed) acts s) (t : Nat) :
    (∀ u U T, s.Faces u U t T → eofsTo t s.calls = 0 ∨ eofsTo t s.calls = 1 ∧
      U.eofSent = true ∧ handedTo t s.calls = writtenTo u s.calls) ∧
      ((∀ u U T, ¬ s.Faces u U t T) → eofsTo t s.calls = 0) := by
  refine ⟨fun u U T h => told_after_all run h, fun hnobody => ?_⟩
  refine (intake_of_run run t).heard.resolve_right fun ⟨_, ⟨p, hp, hfin⟩, _⟩ => ?_
  exact (silent_of_unfaced run.of_restrict hnobody p hp).2 hfin

theorem eof_after_all_exchange :
    (∃ (s : SimNetwork Unit) (T U : StreamTransport),
      performsWhile .least smooth (init .least 0) exchange = some s ∧ s.Faces 1 U 0 T ∧
        eofsTo 0 s.calls = 1 ∧ U.eofSent = true ∧ handedTo 0 s.calls = writtenTo 1 s.calls) ∧
      ∃ s : SimNetwork Unit,
        performsWhile .least smooth (init .least 0) (exchange.take 14) = some s ∧
          s.transports.length = 1 ∧ eofsTo 0 s.calls = 0 := by
  refine ⟨?_, ?_⟩
  · have hstate : ((performsWhile .least smooth (init .least 0) exchange).bind fun s =>
        s.transports[1]?.bind fun U => s.transports[0]?.map fun T =>
          (decide (U.outKey = T.key), eofsTo 0 s.calls)) = some (true, 1) := by
      decide +kernel
    obtain ⟨s, hs, hrest⟩ := Option.bind_eq_some_iff.mp hstate
    obtain ⟨U, hU, hrest⟩ := Option.bind_eq_some_iff.mp hrest
    obtain ⟨T, hT, hflags⟩ := Option.map_eq_some_iff.mp hrest
    obtain ⟨hkey, htold⟩ := Prod.mk.inj hflags
    have hfaces : s.Faces 1 U 0 T := ⟨hU, hT, of_decide_eq_true hkey⟩
    refine ⟨s, T, U, hs, hfaces, ?_⟩
    refine ((eof_after_all (run_of_performsWhile _ hs) 0).1 1 U T hfaces).resolve_left fun h => ?_
    cases htold.symm.trans h
  · obtain ⟨s, hs, hlength, hunfaced⟩ := exchange_unfaced
    exact ⟨s, hs, hlength, (eof_after_all (run_of_performsWhile _ hs) 0).2 hunfaced⟩

end SimNetwork

end SimLoop.Net
