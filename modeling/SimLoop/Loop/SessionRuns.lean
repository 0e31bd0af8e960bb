/-
  Loop/SessionRuns.lean --- what a session does to its loop is a run of calls.

  Whatever is proved of all runs of calls on a new loop therefore holds of every
  state of every session, with the calls the loop's own code makes included.
-/
import SimLoop.Loop.Deadlines
import SimLoop.Loop.Recasting

set_option autoImplicit false

namespace SimLoop.Loop

open SimLoop.Foundation SimLoop.Policy

variable {π ω κ ε υ ρ : Type}

/-- No move takes an event back. -/
theorem Agenda.Step.events_mono {κ : Type} {a b : Agenda κ} (h : Agenda.Step a b) :
    a.events <+: b.events := by
  cases h with
  | cancel | due => exact List.prefix_refl _
  | _ => exact List.prefix_append _ _

theorem Agenda.events_mono {κ : Type} {a b : Agenda κ}
    (h : Relation.ReflTransGen Agenda.Step a b) : a.events <+: b.events := by
  induction h with
  | refl => exact List.prefix_refl _
  | tail _ hstep ih => exact ih.trans hstep.events_mono

namespace Session

/-- The loop of `t` is what some calls in `allowed` make of the loop of `s`. -/
def CallsIn (P : SchedulingPolicy π) (R : RandomSource ρ) (allowed : Op (Body κ) ε → Prop)
    (s t : Session π ω κ ε υ ρ) : Prop :=
  ∀ bookings, ∃ ops bookings',
    Run (restrict (Watched.step P R) fun _ o => allowed o) ⟨s.loop, bookings⟩ ops
      ⟨t.loop, bookings'⟩

/-- The loop of `t` is what some calls make of the loop of `s`. -/
def Calls (P : SchedulingPolicy π) (R : RandomSource ρ) (s t : Session π ω κ ε υ ρ) : Prop :=
  ∀ bookings, ∃ ops bookings',
    Run (Watched.step P R) ⟨s.loop, bookings⟩ ops ⟨t.loop, bookings'⟩

variable {P : SchedulingPolicy π} {R : RandomSource ρ} {W : Workload ω κ ε υ}
variable {allowed : Op (Body κ) ε → Prop} {s t u : Session π ω κ ε υ ρ}

theorem CallsIn.calls (h : CallsIn P R allowed s t) : Calls P R s t := by
  intro bookings
  obtain ⟨ops, bookings', run⟩ := h bookings
  exact ⟨ops, bookings', run.of_restrict⟩

theorem CallsIn.of_loop_eq (h : t.loop = s.loop) : CallsIn P R allowed s t :=
  fun bookings => ⟨[], bookings, h ▸ .nil _⟩

theorem CallsIn.trans (h : CallsIn P R allowed s t) (h' : CallsIn P R allowed t u) :
    CallsIn P R allowed s u := by
  intro bookings
  obtain ⟨ops, bookings', run⟩ := h bookings
  obtain ⟨ops', bookings'', run'⟩ := h' bookings'
  exact ⟨ops ++ ops', bookings'', run.append run'⟩

/-- What every call in `allowed` keeps is kept. -/
theorem CallsIn.keeps {I : LoopState π (Body κ) ε ρ → Prop}
    (hI : ∀ u o, allowed o → I u → I (u.perform P R o).2) (h : CallsIn P R allowed s t)
    (hs : I s.loop) : I t.loop := by
  obtain ⟨ops, bookings, run⟩ := h []
  refine run.invariant (I := fun w => I w.loop) ?_ hs
  rintro w o _ hw ⟨rfl, ho⟩
  exact hI w.loop o ho hw

theorem callsIn_op (s : Session π ω κ ε υ ρ) {o : Op (Body κ) ε} (h : allowed o) :
    CallsIn P R allowed s (s.op P R o).2 :=
  fun _ => ⟨[o], _, .snoc (.nil _) ⟨rfl, h⟩⟩

theorem CallsIn.of_op {o : Op (Body κ) ε} (ho : allowed o) (h : t.loop = (s.op P R o).2.loop) :
    CallsIn P R allowed s t :=
  (callsIn_op s ho).trans (.of_loop_eq h)

/-- Calls only add to the trace. -/
theorem Calls.events_mono (h : Calls P R s t) :
    s.loop.recorder.events <+: t.loop.recorder.events := by
  obtain ⟨ops, bookings, run⟩ := h []
  refine Run.invariant (I := fun w => s.loop.recorder.events <+: w.loop.recorder.events) ?_ run
    (List.prefix_refl _)
  rintro w op _ hw rfl
  exact hw.trans (Agenda.events_mono (perform_agenda P R w.loop op w.bookings))

section

variable (hin : ∀ o : Op (Body κ) ε, o.isInternal = true → allowed o)
include hin

theorem callsIn_scheduleCallbacks (s : Session π ω κ ε υ ρ)
    (callbacks : List (Callback (Body κ) × ContextId)) :
    CallsIn P R allowed s (s.scheduleCallbacks P R callbacks).2 := by
  induction callbacks generalizing s with
  | nil => exact .of_loop_eq rfl
  | cons c rest ih =>
      unfold scheduleCallbacks
      have hop := callsIn_op (P := P) (R := R) s (hin (.callSoon c.1 (some c.2)) rfl)
      revert hop
      rcases s.op P R (.callSoon c.1 (some c.2)) with ⟨r, t⟩
      intro hop
      cases r with
      | raised e => exact hop
      | _ => exact hop.trans (ih t)

theorem callsIn_complete (s : Session π ω κ ε υ ρ) (f : FutId) (outcome : Except ε υ) :
    CallsIn P R allowed s (s.complete P R f outcome).2 := by
  unfold complete
  split
  · exact .of_loop_eq rfl
  · split
    · exact .of_loop_eq rfl
    · rename_i fut _ _
      exact CallsIn.trans (.of_loop_eq rfl) (callsIn_scheduleCallbacks hin
        { s with futures := s.futures.insert f ⟨some outcome, []⟩ } fut.callbacks)

theorem callsIn_addDoneCallback (s : Session π ω κ ε υ ρ) (f : FutId) (cb : Callback (Body κ))
    (context : Option ContextId) : CallsIn P R allowed s (s.addDoneCallback P R f cb context).2 := by
  unfold addDoneCallback
  split
  · exact .of_loop_eq rfl
  · split
    · have hop := callsIn_op (P := P) (R := R) s (hin (.callSoon cb context) rfl)
      revert hop
      rcases s.op P R (.callSoon cb context) with ⟨r, t⟩
      intro hop
      cases r <;> exact hop
    · cases context with
      | some c => exact .of_loop_eq rfl
      | none =>
          have hop := callsIn_op (P := P) (R := R) s (hin .copyContext rfl)
          revert hop
          rcases s.op P R .copyContext with ⟨r, t⟩
          intro hop
          cases r <;> exact hop.trans (.of_loop_eq rfl)

omit hin in
theorem loop_removeStopCallback (s : Session π ω κ ε υ ρ) (f : FutId) :
    (s.removeStopCallback f).loop = s.loop := by
  unfold removeStopCallback
  split <;> rfl

theorem callsIn_callExceptionHandler (s : Session π ω κ ε υ ρ) (e : Option ε)
    (stack : List (Frame ε)) : CallsIn P R allowed s (s.callExceptionHandler P R W e stack) := by
  unfold callExceptionHandler
  split
  · exact .of_loop_eq rfl
  · split
    · exact .of_op (hin (.collect _) rfl) rfl
    · exact .of_loop_eq rfl

omit hin in
theorem loop_answerError (s : Session π ω κ ε υ ρ) (e : Option LoopError) :
    (s.answerError W e).loop = s.loop := by
  cases e <;> rfl

theorem callsIn_doAct (s : Session π ω κ ε υ ρ) (rest : List (Frame ε))
    (hact : ∀ o, W.act s.world = .call o → allowed o.1) :
    CallsIn P R allowed s (s.doAct P R W rest) := by
  unfold doAct
  split
  · rename_i o ho
    exact .of_op (hact o ho) rfl
  · exact .of_loop_eq rfl
  · exact (callsIn_complete hin s _ _).trans (.of_loop_eq (loop_answerError _ _))
  · exact (callsIn_addDoneCallback hin s _ _ _).trans (.of_loop_eq (loop_answerError _ _))
  · exact .of_loop_eq rfl
  · exact callsIn_callExceptionHandler hin s _ _
  · have hop := callsIn_op (P := P) (R := R) s (hin .enterRun rfl)
    revert hop
    rcases s.op P R .enterRun with ⟨r, t⟩
    intro hop
    cases r <;> exact hop.trans (.of_loop_eq rfl)
  · rename_i f _
    have hadd := callsIn_addDoneCallback (P := P) (R := R) hin s f stopWhenDone none
    revert hadd
    rcases s.addDoneCallback P R f stopWhenDone none with ⟨e, t⟩
    intro hadd
    cases e with
    | some e => exact hadd.trans (.of_loop_eq rfl)
    | none =>
        refine hadd.trans ?_
        have hop := callsIn_op (P := P) (R := R) t (hin .enterRun rfl)
        revert hop
        dsimp only
        rcases t.op P R .enterRun with ⟨r, u⟩
        intro hop
        cases r with
        | raised e => exact hop.trans (.of_loop_eq (loop_removeStopCallback u f))
        | _ => exact hop.trans (.of_loop_eq rfl)
  · exact .of_loop_eq rfl
  · exact .of_loop_eq rfl

omit hin in
theorem loop_verdict (s : Session π ω κ ε υ ρ) (f : FutId) (completed : Bool)
    (rest : List (Frame ε)) : (s.verdict f completed rest).loop = s.loop := by
  unfold verdict
  split
  · split
    · rfl
    · split <;> rfl
    · rfl
  · split <;> rfl

theorem callsIn_turn (s : Session π ω κ ε υ ρ)
    (hact : ∀ o, W.act s.world = .call o → allowed o.1) :
    CallsIn P R allowed s (s.turn P R W) := by
  unfold turn
  split
  · exact .of_loop_eq rfl
  · exact callsIn_doAct hin s _ hact
  · exact .of_loop_eq rfl
  · exact .of_loop_eq rfl
  · exact .of_op (hin .leaveRun rfl) rfl
  · exact .of_loop_eq rfl
  · exact .of_op (hin .leaveRun rfl) rfl
  · exact .of_loop_eq rfl
  · exact .of_op (hin (.enter _) rfl) rfl
  · dsimp only
    split
    · exact .of_op (hin (.enter _) rfl) rfl
    · exact (callsIn_op s (hin (.enter _) rfl)).trans (callsIn_callExceptionHandler hin _ _ _)
  · exact .of_loop_eq rfl
  · exact .of_loop_eq rfl
  · split
    · exact .of_loop_eq rfl
    · rename_i e' _ _ _
      refine (callsIn_op s (hin (.collect e') rfl)).trans ?_
      split
      · exact .of_op (hin (.collect _) rfl) rfl
      · exact .of_loop_eq rfl
  · exact .of_loop_eq rfl
  · exact .of_loop_eq rfl
  · exact .of_loop_eq rfl
  · dsimp only
    split <;> exact .of_loop_eq (loop_removeStopCallback s _)
  · exact .of_loop_eq (loop_removeStopCallback s _)
  · exact .of_loop_eq rfl
  · exact .of_loop_eq rfl
  · exact .of_loop_eq rfl
  · exact .of_loop_eq rfl
  · exact .of_loop_eq rfl
  · exact .of_loop_eq rfl
  · exact .of_loop_eq (loop_verdict s _ _ _)

/-- A tick makes calls of the loop's own code, calls of the program, and steps. -/
theorem callsIn_tick (s : Session π ω κ ε υ ρ) (hstep : allowed .step)
    (hact : ∀ o, W.act s.world = .call o → allowed o.1) :
    CallsIn P R allowed s (s.tick P R W) := by
  unfold tick
  split
  · refine (callsIn_op s hstep).trans ?_
    simp only [afterStep, op, LoopState.perform]
    split
    · exact .of_loop_eq rfl
    · unfold beginHandle
      split
      · exact .of_op (hin .stop rfl) rfl
      · exact .of_op (hin (.enter _) rfl) rfl
    · exact .of_loop_eq rfl
  · exact callsIn_turn hin s hact

end

theorem calls_tick (s : Session π ω κ ε υ ρ) : Calls P R s (s.tick P R W) := by
  have h : CallsIn P R (fun _ => True) s (s.tick P R W) :=
    callsIn_tick (fun _ _ => trivial) s trivial fun _ _ => trivial
  exact h.calls

/-- The loop of every state of a session is what a run of calls made of the new loop. -/
theorem watched_after (policy : π) (seed : Int) (world : ω) (n : Nat) :
    ∃ (ops : List (Op (Body κ) ε)) (bookings : List Booking),
      Run (Watched.step P R) (Watched.fresh R policy seed) ops
        ⟨(after P R W (start (LoopState.fresh R policy seed) world) n).loop, bookings⟩ := by
  have h : CallsIn P R (fun _ => True)
      (start (LoopState.fresh R policy seed) world : Session π ω κ ε υ ρ)
      (after P R W (start (LoopState.fresh R policy seed) world) n) := by
    induction n with
    | zero => exact .of_loop_eq rfl
    | succ n ih =>
        exact ih.trans (callsIn_tick (fun _ _ => trivial) _ trivial fun _ _ => trivial)
  exact h.calls []

end Session

end SimLoop.Loop
