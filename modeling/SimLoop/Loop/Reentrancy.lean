/-
  Loop/Reentrancy.lean --- one run of a loop at a time.

  Callbacks run under `run_forever`, or under the drain of `run_until_complete`, and may
  themselves ask for a run.  `OneRun` says what the stack of a session looks like while
  the loop counts as running; every tick keeps it.  The drain does not count: what is
  refused under `run_forever` is taken there.
-/
import SimLoop.Loop.Discipline
import SimLoop.Loop.SessionRuns

set_option autoImplicit false

namespace SimLoop.Loop

open SimLoop.Foundation SimLoop.Policy

variable {π ω κ ε υ ρ : Type}

/-! ## The stack of a running loop -/

/-- The frames of a stack, when the loop is or is not running: a running loop has one
`run_forever`, and above it nothing but a callback of its current step. -/
def OneRun (running : Bool) : List (Frame ε) → Prop
  | [] => running = false
  | .forever :: rest => running = true ∧ OneRun false rest
  | .code :: rest | .handle _ :: rest | .handler _ :: rest => OneRun running rest
  | .untilComplete _ :: rest | .cancelling _ :: rest | .drain _ :: rest
  | .collecting _ _ :: rest => running = false ∧ OneRun false rest

/-- The `while` of `run_forever`. -/
def Frame.isForever : Frame ε → Bool
  | .forever => true
  | _ => false

/-- Code of the program, and what waits for it within a step. -/
def Frame.isCallback : Frame ε → Bool
  | .code | .handle _ | .handler _ => true
  | _ => false

theorem OneRun.countP_eq {running : Bool} {stack : List (Frame ε)} (h : OneRun running stack) :
    stack.countP Frame.isForever = if running then 1 else 0 := by
  induction stack generalizing running with
  | nil =>
      obtain rfl : running = false := h
      rfl
  | cons fr rest ih =>
      cases fr with
      | forever =>
          obtain ⟨rfl, hrest⟩ := h
          rw [List.countP_cons, ih hrest]
          rfl
      | code | handle | handler =>
          have hrest : OneRun running rest := h
          rw [List.countP_cons, ih hrest]
          rfl
      | untilComplete | cancelling | drain | collecting =>
          obtain ⟨rfl, hrest⟩ := h
          rw [List.countP_cons, ih hrest]
          rfl

/-- A running loop's stack, taken apart. -/
theorem OneRun.running {stack : List (Frame ε)} (h : OneRun true stack) :
    ∃ top rest, stack = top ++ .forever :: rest ∧ (∀ fr ∈ top, fr.isCallback = true) ∧
      OneRun false rest := by
  induction stack with
  | nil => cases h
  | cons fr rest ih =>
      have hcallback (hfr : fr.isCallback = true) (hrest : OneRun true rest) :
          ∃ top below, fr :: rest = top ++ .forever :: below ∧
            (∀ x ∈ top, x.isCallback = true) ∧ OneRun false below := by
        obtain ⟨top, below, rfl, htop, hbelow⟩ := ih hrest
        refine ⟨fr :: top, below, rfl, fun x hx => ?_, hbelow⟩
        rcases List.mem_cons.mp hx with rfl | hx
        · exact hfr
        · exact htop x hx
      cases fr with
      | forever => exact ⟨[], rest, rfl, by simp, h.2⟩
      | code | handle | handler => exact hcallback rfl h
      | untilComplete | cancelling | drain | collecting => cases h.1

/-! ## What a step leaves alone -/

/-- The calls that neither ask for a run, nor end one, nor close the loop. -/
def Op.keepsStanding : Op κ ε → Bool
  | .enterRun | .leaveRun | .close => false
  | _ => true

namespace LoopState

/-- Only the schedule of a loop has moved: its queue, its heap, its clock, its policy with
the log, and the trace. -/
def Rescheduled (s t : LoopState π κ ε ρ) : Prop :=
  t = { s with
    policy := t.policy
    choiceLog := t.choiceLog
    now := t.now
    ready := t.ready
    timers := t.timers
    recorder := t.recorder }

theorem Rescheduled.trans {s t u : LoopState π κ ε ρ} (h : Rescheduled s t)
    (h' : Rescheduled t u) : Rescheduled s u := by
  unfold Rescheduled at h h'
  rw [h] at h'
  exact h'

/-- Whether a loop is running, and whether it is closed. -/
def standing (s : LoopState π κ ε ρ) : Bool × Bool := (s.running, s.closed)

theorem Rescheduled.standing_eq {s t : LoopState π κ ε ρ} (h : Rescheduled s t) :
    t.standing = s.standing := by
  unfold Rescheduled at h
  rw [h]
  rfl

theorem rescheduled_dropCancelled (l : List (TimerEntry κ)) (s : LoopState π κ ε ρ) :
    Rescheduled s (dropCancelled l s) := by
  induction l generalizing s with
  | nil => rfl
  | cons t rest ih =>
      unfold dropCancelled
      split
      · exact .trans (t := s.record .cancel t.seq t.label (s.hostOf t.context)) rfl (ih _)
      · rfl

theorem rescheduled_collectDue (l : List (TimerEntry κ)) (s : LoopState π κ ε ρ) :
    Rescheduled s (collectDue l s) := by
  induction l generalizing s with
  | nil => rfl
  | cons t rest ih =>
      unfold collectDue
      split
      · split
        · exact .trans (t := s.record .cancel t.seq t.label (s.hostOf t.context)) rfl (ih _)
        · exact .trans (t := { s with ready := s.ready ++ [t.due] }) rfl (ih _)
      · rfl

theorem rescheduled_advanceClock (s : LoopState π κ ε ρ) : Rescheduled s s.advanceClock.2 := by
  have hdrop := rescheduled_dropCancelled s.timers s
  cases htimers : (dropCancelled s.timers s).timers with
  | nil =>
      simp only [advanceClock, htimers]
      exact hdrop
  | cons t rest =>
      rw [advanceClock_eq htimers]
      refine hdrop.trans (.trans ?_ (rescheduled_collectDue _ _))
      rfl

theorem rescheduled_step (P : SchedulingPolicy π) (s : LoopState π κ ε ρ) :
    Rescheduled s (s.step P).2 := by
  have hdraw : ∀ t : LoopState π κ ε ρ, Rescheduled t (t.draw P).2 := by
    intro t
    obtain ⟨e, p, log, h⟩ | ⟨i, e, p, -, -, -, h⟩ := t.draw_cases P
    all_goals rw [h]; rfl
  unfold step
  split
  · have hadvance := s.rescheduled_advanceClock
    revert hadvance
    rcases s.advanceClock with ⟨_ | e, t⟩
    · exact fun hadvance => hadvance.trans (hdraw t)
    · exact id
  · exact hdraw s

/-! ## What the calls do to a loop's standing -/

theorem standing_callSoon (s : LoopState π κ ε ρ) (cb : Callback κ)
    (context : Option ContextId) : (s.callSoon cb context).2.standing = s.standing := by
  unfold callSoon
  split
  · rfl
  · cases context <;> rfl

theorem standing_callAtTrue (s : LoopState π κ ε ρ) (when_ shown : ℚ) (cb : Callback κ)
    (context : Option ContextId) :
    (s.callAtTrue when_ shown cb context).2.standing = s.standing := by
  unfold callAtTrue
  split
  · rfl
  · cases context <;> rfl

/-- Only `run_forever`, its end and `close` change how a loop stands. -/
theorem standing_perform (P : SchedulingPolicy π) (R : RandomSource ρ) (s : LoopState π κ ε ρ)
    {op : Op κ ε} (h : op.keepsStanding = true) :
    (s.perform P R op).2.standing = s.standing := by
  cases op with
  | enterRun => cases h
  | leaveRun => cases h
  | close => cases h
  | step => exact (rescheduled_step P s).standing_eq
  | callSoon cb context => exact standing_callSoon s cb context
  | callLater delay cb context => exact standing_callAtTrue s _ _ cb context
  | callAt when_ cb context => exact standing_callAtTrue s _ _ cb context
  | createTask task cb context =>
      have hsoon := standing_callSoon s cb context
      simp only [perform, createTask]
      revert hsoon
      rcases s.callSoon cb context with ⟨_ | seq, t⟩
      · exact id
      · exact id
  | cancel seq =>
      simp only [perform, cancel]
      split <;> rfl
  | draw st d => cases st <;> rfl
  | _ => rfl

/-- A loop that is running is not asked twice. -/
theorem enterRun_of_running {s : LoopState π κ ε ρ} (h : s.standing = (true, false)) :
    s.enterRun = (some (.runtime "this event loop is already running"), s) := by
  obtain ⟨hrunning, hclosed⟩ := Prod.mk.inj h
  unfold enterRun
  rw [if_neg (by rw [hclosed]; decide), if_pos hrunning]

/-- Nor is it closed. -/
theorem close_of_running {s : LoopState π κ ε ρ} (h : s.running = true) :
    s.close = (some (.runtime "cannot close a running event loop"), s) := by
  unfold close
  rw [if_pos h]

end LoopState

/-! ## Sessions -/

namespace Session

/-- The stack of a session fits the standing of its loop. -/
structure Exclusive (s : Session π ω κ ε υ ρ) : Prop where
  frames : OneRun s.loop.running s.stack
  isOpen : s.loop.running = true → s.loop.closed = false

section

variable {P : SchedulingPolicy π} {R : RandomSource ρ} {W : Workload ω κ ε υ}
variable {s t : Session π ω κ ε υ ρ}

theorem Exclusive.of_standing (h : s.Exclusive) (hstanding : t.loop.standing = s.loop.standing)
    (hstack : OneRun s.loop.running t.stack) : t.Exclusive := by
  obtain ⟨hrunning, hclosed⟩ := Prod.mk.inj hstanding
  refine ⟨hrunning ▸ hstack, ?_⟩
  rw [hrunning, hclosed]
  exact h.isOpen

theorem standing_op (s : Session π ω κ ε υ ρ) {o : Op (Body κ) ε} (h : o.keepsStanding = true) :
    (s.op P R o).2.loop.standing = s.loop.standing :=
  LoopState.standing_perform P R s.loop h

theorem standing_scheduleCallbacks (s : Session π ω κ ε υ ρ)
    (callbacks : List (Callback (Body κ) × ContextId)) :
    (s.scheduleCallbacks P R callbacks).2.loop.standing = s.loop.standing := by
  induction callbacks generalizing s with
  | nil => rfl
  | cons c rest ih =>
      unfold scheduleCallbacks
      have hop := standing_op (P := P) (R := R) s (o := .callSoon c.1 (some c.2)) rfl
      revert hop
      rcases s.op P R (.callSoon c.1 (some c.2)) with ⟨r, t⟩
      intro hop
      cases r with
      | raised e => exact hop
      | _ => exact (ih t).trans hop

theorem standing_complete (s : Session π ω κ ε υ ρ) (f : FutId) (outcome : Except ε υ) :
    (s.complete P R f outcome).2.loop.standing = s.loop.standing := by
  unfold complete
  split
  · rfl
  · split
    · rfl
    · exact standing_scheduleCallbacks _ _

theorem standing_addDoneCallback (s : Session π ω κ ε υ ρ) (f : FutId) (cb : Callback (Body κ))
    (context : Option ContextId) :
    (s.addDoneCallback P R f cb context).2.loop.standing = s.loop.standing := by
  unfold addDoneCallback
  split
  · rfl
  · split
    · have hop := standing_op (P := P) (R := R) s (o := .callSoon cb context) rfl
      revert hop
      rcases s.op P R (.callSoon cb context) with ⟨r, t⟩
      intro hop
      cases r <;> exact hop
    · cases context <;> rfl

theorem exclusive_callExceptionHandler (h : s.Exclusive) (e : Option ε) {stack : List (Frame ε)}
    (hstack : OneRun s.loop.running stack) :
    (s.callExceptionHandler P R W e stack).Exclusive := by
  unfold callExceptionHandler
  split
  · exact h.of_standing rfl hstack
  · split
    · exact h.of_standing rfl hstack
    · exact h.of_standing rfl hstack

theorem world_addDoneCallback (s : Session π ω κ ε υ ρ) (f : FutId) (cb : Callback (Body κ))
    (context : Option ContextId) : (s.addDoneCallback P R f cb context).2.world = s.world := by
  unfold addDoneCallback
  split
  · rfl
  · split
    · have hop : (s.op P R (.callSoon cb context)).2.world = s.world := rfl
      revert hop
      rcases s.op P R (.callSoon cb context) with ⟨r, t⟩
      intro hop
      cases r <;> exact hop
    · cases context <;> rfl

theorem world_removeStopCallback (s : Session π ω κ ε υ ρ) (f : FutId) :
    (s.removeStopCallback f).world = s.world := by
  unfold removeStopCallback
  split <;> rfl

theorem standing_answerError (s : Session π ω κ ε υ ρ) (e : Option LoopError) :
    (s.answerError W e).loop.standing = s.loop.standing :=
  congrArg LoopState.standing (loop_answerError s e)

theorem stack_answerError (s : Session π ω κ ε υ ρ) (e : Option LoopError) :
    (s.answerError W e).stack = s.stack := by
  cases e <;> rfl

/-- A run is refused, or the loop stood ready for one. -/
theorem op_enterRun (s : Session π ω κ ε υ ρ) :
    (∃ e, s.op P R .enterRun = (.raised e, s)) ∨
      s.loop.standing = (false, false) ∧
        s.op P R .enterRun = (.unit, { s with loop := { s.loop with running := true } }) := by
  unfold op
  simp only [LoopState.perform, LoopState.enterRun]
  split
  · exact .inl ⟨_, rfl⟩
  · rename_i hclosed
    split
    · exact .inl ⟨_, rfl⟩
    · rename_i hrunning
      exact .inr ⟨Prod.ext (Bool.eq_false_iff.mpr hrunning) (Bool.eq_false_iff.mpr hclosed), rfl⟩

theorem exclusive_doAct (h : s.Exclusive) {rest : List (Frame ε)} (hs : s.stack = .code :: rest) :
    (s.doAct P R W rest).Exclusive := by
  have hcode : OneRun s.loop.running (.code :: rest) := hs ▸ h.frames
  unfold doAct
  split
  · rename_i o _
    by_cases hkeep : o.1.keepsStanding = true
    · exact h.of_standing (t := (s.op P R o.1).2.answer W _) (standing_op s hkeep) h.frames
    · -- Of the three, a program can call `close` itself.
      obtain ⟨o, hpublic⟩ := o
      cases o with
      | close =>
          cases hrunning : s.loop.running with
          | true =>
              simp only [op, LoopState.perform, LoopState.close_of_running hrunning]
              exact h.of_standing rfl h.frames
          | false =>
              have hclose : s.loop.close = (none, { s.loop with closed := true }) := by
                unfold LoopState.close
                rw [if_neg (by rw [hrunning]; decide)]
              simp only [op, LoopState.perform, hclose]
              refine ⟨h.frames, fun hrun => ?_⟩
              exact absurd (hrunning.symm.trans hrun) (by decide)
      | enterRun => cases hpublic
      | leaveRun => cases hpublic
      | _ => exact absurd rfl hkeep
  · exact h.of_standing rfl h.frames
  · rename_i f outcome _
    have hstanding := standing_complete (P := P) (R := R) s f outcome
    have hstack := stack_complete P R s f outcome
    exact h.of_standing ((standing_answerError _ _).trans hstanding)
      (by rw [stack_answerError, hstack]; exact h.frames)
  · rename_i f cb context _
    have hstanding := standing_addDoneCallback (P := P) (R := R) s f cb context
    have hstack := stack_addDoneCallback P R s f cb context
    exact h.of_standing ((standing_answerError _ _).trans hstanding)
      (by rw [stack_answerError, hstack]; exact h.frames)
  · exact h.of_standing rfl h.frames
  · exact exclusive_callExceptionHandler h _ hcode
  · rcases op_enterRun (P := P) (R := R) s with ⟨e, hop⟩ | ⟨hstanding, hop⟩
    · rw [hop]
      exact h.of_standing rfl h.frames
    · rw [hop]
      obtain ⟨hrunning, hclosed⟩ := Prod.mk.inj hstanding
      refine ⟨⟨rfl, ?_⟩, fun _ => hclosed⟩
      rw [hrunning] at hcode
      exact hcode
  · rename_i f _
    have hstanding := standing_addDoneCallback (P := P) (R := R) s f stopWhenDone none
    have hstack := stack_addDoneCallback P R s f stopWhenDone none
    revert hstanding hstack
    rcases s.addDoneCallback P R f stopWhenDone none with ⟨e, t⟩
    intro hstanding hstack
    have ht : t.Exclusive := h.of_standing hstanding (hstack ▸ h.frames)
    cases e with
    | some e => exact ht.of_standing rfl ht.frames
    | none =>
        dsimp only
        rcases op_enterRun (P := P) (R := R) t with ⟨e, hop⟩ | ⟨hready, hop⟩
        · rw [hop]
          refine ht.of_standing (t := (t.removeStopCallback f).answer W _) ?_ ?_
          · exact congrArg LoopState.standing (loop_removeStopCallback t f)
          · exact (stack_removeStopCallback t f).symm ▸ ht.frames
        · rw [hop]
          obtain ⟨hrunning, hclosed⟩ := Prod.mk.inj hready
          have hcode' : OneRun t.loop.running (.code :: rest) := by
            rw [← hs, ← hstack]
            exact ht.frames
          rw [hrunning] at hcode'
          exact ⟨⟨rfl, rfl, hcode'⟩, fun _ => hclosed⟩
  · exact h.of_standing rfl hcode
  · exact h.of_standing rfl hcode

theorem exclusive_verdict (h : s.Exclusive) (f : FutId) (completed : Bool)
    {rest : List (Frame ε)} (hrest : OneRun s.loop.running rest) :
    (s.verdict f completed rest).Exclusive := by
  refine h.of_standing (congrArg LoopState.standing (loop_verdict s f completed rest)) ?_
  have hstack : (s.verdict f completed rest).stack = rest := by
    unfold verdict
    split
    · split
      · rfl
      · split <;> rfl
      · rfl
    · split <;> rfl
  rw [hstack]
  exact hrest

/-- `run_forever` takes the flag back when it leaves the stack. -/
theorem exclusive_leaveRun {rest : List (Frame ε)} (hrest : OneRun false rest)
    (signal : Signal ε υ) :
    ({ (s.op P R .leaveRun).2 with stack := rest, signal := signal } :
      Session π ω κ ε υ ρ).Exclusive :=
  ⟨hrest, fun hrunning => by cases hrunning⟩

theorem exclusive_turn (h : s.Exclusive) : (s.turn P R W).Exclusive := by
  cases hs : s.stack with
  | nil =>
      unfold turn
      rw [hs]
      exact h
  | cons fr rest =>
  have hframes : OneRun s.loop.running (fr :: rest) := hs ▸ h.frames
  have hpop : OneRun s.loop.running rest → ∀ signal : Signal ε υ,
      ({ s with stack := rest, signal := signal } : Session π ω κ ε υ ρ).Exclusive :=
    fun hrest _ => h.of_standing rfl hrest
  cases fr with
  | code =>
      cases hsig : s.signal <;> simp only [turn, hs, hsig]
      · exact exclusive_doAct h hs
      · exact h.of_standing rfl h.frames
      · exact h.of_standing rfl h.frames
  | forever =>
      cases hsig : s.signal <;> simp only [turn, hs, hsig]
      · exact exclusive_leaveRun hframes.2 _
      · exact h.of_standing rfl hframes
      · exact exclusive_leaveRun hframes.2 _
  | handle saved =>
      rcases hsig : s.signal with _ | v | ⟨e | e⟩ <;> simp only [turn, hs, hsig]
      · exact hpop hframes _
      · exact h.of_standing rfl hframes
      · exact hpop hframes _
      · have henter : (s.op P R (.enter saved)).2.Exclusive :=
          h.of_standing rfl h.frames
        split
        · exact henter.of_standing rfl hframes
        · exact exclusive_callExceptionHandler henter _ hframes
  | handler e =>
      rcases hsig : s.signal with _ | v | ⟨e' | e'⟩ <;> simp only [turn, hs, hsig]
      · exact hpop hframes _
      · exact hpop hframes _
      · exact hpop hframes _
      · split
        · exact hpop hframes _
        · cases e <;> exact h.of_standing rfl hframes
  | untilComplete f =>
      have hremove : (s.removeStopCallback f).loop.standing = s.loop.standing :=
        congrArg LoopState.standing (loop_removeStopCallback s f)
      have hbelow : OneRun s.loop.running rest := hframes.1 ▸ hframes.2
      cases hsig : s.signal <;> simp only [turn, hs, hsig]
      · exact hpop hbelow _
      · split
        · exact h.of_standing hremove hframes
        · exact h.of_standing hremove hframes
      · exact h.of_standing hremove hbelow
  | cancelling f =>
      have hbelow : OneRun s.loop.running rest := hframes.1 ▸ hframes.2
      cases hsig : s.signal <;> simp only [turn, hs, hsig]
      · exact hpop hbelow _
      · exact h.of_standing rfl hframes
      · exact hpop hbelow _
  | drain f =>
      have hbelow : OneRun s.loop.running rest := hframes.1 ▸ hframes.2
      cases hsig : s.signal <;> simp only [turn, hs, hsig]
      · exact h.of_standing rfl hframes
      · exact h.of_standing rfl hframes
      · exact hpop hbelow _
  | collecting f completed =>
      have hbelow : OneRun s.loop.running rest := hframes.1 ▸ hframes.2
      cases hsig : s.signal <;> simp only [turn, hs, hsig]
      all_goals exact exclusive_verdict h f completed hbelow

theorem exclusive_tick (h : s.Exclusive) : (s.tick P R W).Exclusive := by
  unfold tick
  split
  · have hstep : ({ s with loop := (s.loop.step P).2 } : Session π ω κ ε υ ρ).Exclusive :=
      h.of_standing (LoopState.rescheduled_step P s.loop).standing_eq h.frames
    revert hstep
    rcases s.loop.step P with ⟨outcome, loop⟩
    intro hstep
    cases outcome with
    | skipped entry => exact hstep
    | raised e => exact hstep.of_standing rfl hstep.frames
    | run entry =>
        simp only [afterStep, beginHandle]
        split
        · exact hstep.of_standing rfl hstep.frames
        · exact hstep.of_standing rfl hstep.frames
  · exact exclusive_turn h

/-- In every state of a run the stack fits the standing of the loop. -/
theorem exclusive_after (P : SchedulingPolicy π) (R : RandomSource ρ) (W : Workload ω κ ε υ)
    (policy : π) (seed : Int) (world : ω) (n : Nat) :
    (after P R W (start (LoopState.fresh R policy seed) world) n).Exclusive := by
  induction n with
  | zero => exact ⟨rfl, fun hrunning => by cases hrunning⟩
  | succ n ih => exact exclusive_tick ih

/-! ## What a callback is refused, and what it is not -/

theorem Exclusive.standing_eq (h : s.Exclusive) (hrunning : s.loop.running = true) :
    s.loop.standing = (true, false) :=
  Prod.ext hrunning (h.isOpen hrunning)

/-- What `run_forever` raises on a running loop. -/
def alreadyRunning : LoopError := .runtime "this event loop is already running"

/-- An open loop adds a callback to every future there is. -/
theorem addDoneCallback_of_open (hopen : s.loop.closed = false) (f : FutId)
    (cb : Callback (Body κ)) : (s.addDoneCallback P R f cb none).1 =
      if (s.futures.get? f).isSome then none else some (.invalidState "no such future") := by
  unfold addDoneCallback
  cases hf : s.futures.get? f with
  | none => rfl
  | some fut =>
      dsimp only
      cases hdone : fut.outcome.isSome with
      | true =>
          simp only [op, LoopState.perform, LoopState.callSoon, hopen, Bool.false_eq_true,
            if_false, if_true, Reply.ofHandle]
          rfl
      | false => rfl

/-- What code under `run_forever` is refused: each request is answered with its error, and
the run goes on. -/
structure Refuses (P : SchedulingPolicy π) (R : RandomSource ρ) (W : Workload ω κ ε υ)
    (s : Session π ω κ ε υ ρ) : Prop where
  runForever : W.act s.world = .runForever →
    s.tick P R W = s.answer W (.raised (.loop alreadyRunning))
  close : W.act s.world = .call ⟨.close, rfl⟩ →
    s.tick P R W = s.answer W (.reply (.raised (.runtime "cannot close a running event loop")))
  runUntilComplete : ∀ f, W.act s.world = .runUntilComplete f →
    (s.tick P R W).stack = s.stack ∧ (s.tick P R W).loop.running = true ∧
      (s.tick P R W).world = W.resume s.world (.raised (.loop
        (if (s.futures.get? f).isSome then alreadyRunning else .invalidState "no such future")))

theorem refuses_of_running (h : s.Exclusive) (hrunning : s.loop.running = true)
    {rest : List (Frame ε)} (hs : s.stack = .code :: rest) (hsig : s.signal = .run) :
    Refuses P R W s where
  runForever hact := by
    rw [tick_of_code hs hsig]
    unfold doAct
    rw [hact]
    simp only [op, LoopState.perform, LoopState.enterRun_of_running (h.standing_eq hrunning),
      Reply.ofError, alreadyRunning]
  close hact := by
    rw [tick_of_code hs hsig]
    unfold doAct
    rw [hact]
    simp only [op, LoopState.perform, LoopState.close_of_running hrunning, Reply.ofError]
  runUntilComplete f hact := by
    rw [tick_of_code hs hsig]
    unfold doAct
    rw [hact]
    have hstanding := standing_addDoneCallback (P := P) (R := R) s f stopWhenDone none
    have hstack := stack_addDoneCallback P R s f stopWhenDone none
    have hworld := world_addDoneCallback (P := P) (R := R) s f stopWhenDone none
    have herror := addDoneCallback_of_open (P := P) (R := R) (h.isOpen hrunning) f stopWhenDone
    revert hstanding hstack hworld herror
    dsimp only
    rcases s.addDoneCallback P R f stopWhenDone none with ⟨e, t⟩
    intro hstanding hstack hworld herror
    have ht : t.loop.standing = (true, false) := hstanding.trans (h.standing_eq hrunning)
    obtain ⟨hrun, -⟩ := Prod.mk.inj ht
    split at herror
    · -- the callback was added, and `run_forever` refuses
      rename_i hfut
      obtain rfl := herror
      simp only [op, LoopState.perform, LoopState.enterRun_of_running ht, Reply.ofError, hfut,
        if_true]
      refine ⟨(stack_removeStopCallback t f).trans hstack, ?_, ?_⟩
      · exact (congrArg LoopState.running (loop_removeStopCallback t f)).trans hrun
      · exact congrArg (W.resume · _) ((world_removeStopCallback t f).trans hworld)
    · rename_i hfut
      obtain rfl := herror
      rw [if_neg hfut]
      exact ⟨hstack, hrun, congrArg (W.resume · _) hworld⟩

/-- What code outside `run_forever` is granted, be it in the drain of
`run_until_complete`: a run on an open loop, and that the loop is closed. -/
structure Grants (P : SchedulingPolicy π) (R : RandomSource ρ) (W : Workload ω κ ε υ)
    (s : Session π ω κ ε υ ρ) : Prop where
  runForever : W.act s.world = .runForever → s.loop.closed = false →
    (s.tick P R W).stack = .forever :: s.stack ∧ (s.tick P R W).loop.running = true
  close : W.act s.world = .call ⟨.close, rfl⟩ →
    (s.tick P R W).stack = s.stack ∧ (s.tick P R W).loop.closed = true

theorem grants_of_idle (hrunning : s.loop.running = false) {rest : List (Frame ε)}
    (hs : s.stack = .code :: rest) (hsig : s.signal = .run) : Grants P R W s where
  runForever hact hopen := by
    rw [tick_of_code hs hsig]
    unfold doAct
    rw [hact]
    simp only [op, LoopState.perform, LoopState.enterRun, hopen, hrunning, Bool.false_eq_true,
      if_false, Reply.ofError, hs, and_self]
  close hact := by
    rw [tick_of_code hs hsig]
    unfold doAct
    rw [hact]
    simp only [op, LoopState.perform, LoopState.close, hrunning, Bool.false_eq_true, if_false,
      answer, hs, and_self]

end

end Session

/-- **One run at a time.**  In every state of every program on a new loop, the stack holds a
`run_forever` exactly while the loop counts as running, one only, and what is above it is
a callback of its current step.  Meanwhile the loop is open, and a callback that asks to
close it, or for another run, is refused: the run it is part of goes on.  Code outside
`run_forever`, as in the drain of `run_until_complete`, is granted both. -/
theorem one_run_at_a_time (P : SchedulingPolicy π) (R : RandomSource ρ) (W : Workload ω κ ε υ)
    (policy : π) (seed : Int) (world : ω) (n : Nat) :
    let s := Session.after P R W (.start (LoopState.fresh R policy seed) world) n
    s.stack.countP Frame.isForever = (if s.loop.running then 1 else 0) ∧
      (s.loop.running = true → s.loop.closed = false ∧
        ∃ top rest, s.stack = top ++ .forever :: rest ∧ ∀ fr ∈ top, fr.isCallback = true) ∧
      ∀ rest, s.stack = .code :: rest → s.signal = .run →
        (s.loop.running = true → Session.Refuses P R W s) ∧
        (s.loop.running = false → Session.Grants P R W s) := by
  intro s
  have hs : s.Exclusive := Session.exclusive_after P R W policy seed world n
  refine ⟨hs.frames.countP_eq, fun hrunning => ⟨hs.isOpen hrunning, ?_⟩, fun rest hstack hsig =>
    ⟨fun hrunning => Session.refuses_of_running hs hrunning hstack hsig,
      fun hrunning => Session.grants_of_idle hrunning hstack hsig⟩⟩
  have hframes := hs.frames
  rw [hrunning] at hframes
  obtain ⟨top, rest, hstack, htop, -⟩ := hframes.running
  exact ⟨top, rest, hstack, htop⟩

/-- A callback of a run asks for another run, for an end of the loop, and for a future. -/
def asksUnderRun : Workload Nat Unit Unit Unit :=
  .scripted [.newFuture, .call ⟨.callSoon ⟨some "asking", "function", none, .user ()⟩ none, rfl⟩,
    .runForever, .runForever, .call ⟨.close, rfl⟩, .runUntilComplete 0]

/-- A callback that runs in the drain of `run_until_complete` asks for a run. -/
def asksInDrain : Workload Nat Unit Unit Unit :=
  .scripted [.newFuture, .runUntilComplete 0,
    .call ⟨.callSoon ⟨some "asking", "function", none, .user ()⟩ none, rfl⟩, .ret, .runForever]

/-- The states of such a program on a new loop. -/
def askingRun (W : Workload Nat Unit Unit Unit) (n : Nat) :
    Session (Shipped Unit) Nat Unit Unit Unit Unit :=
  Session.after (shipped .least) .least W
    (.start (LoopState.fresh .least (.seeded (.init .least 0)) 0) 0) n

theorem one_run_at_a_time_asking :
    askingRun asksUnderRun 5 = (askingRun asksUnderRun 4).answer asksUnderRun
        (.raised (.loop Session.alreadyRunning)) ∧
      askingRun asksUnderRun 6 = (askingRun asksUnderRun 5).answer asksUnderRun
        (.reply (.raised (.runtime "cannot close a running event loop"))) ∧
      (askingRun asksUnderRun 7).stack = (askingRun asksUnderRun 6).stack ∧
      (askingRun asksInDrain 9).stack = .forever :: (askingRun asksInDrain 8).stack := by
  have hrefuses (n : Nat) {rest : List (Frame Unit)}
      (hstack : (askingRun asksUnderRun n).stack = .code :: rest)
      (hsig : (askingRun asksUnderRun n).signal = .run)
      (hrunning : (askingRun asksUnderRun n).loop.running = true) :
      Session.Refuses (shipped .least) .least asksUnderRun (askingRun asksUnderRun n) :=
    ((one_run_at_a_time (shipped .least) .least asksUnderRun (.seeded (.init .least 0)) 0 0 n).2.2
      rest hstack hsig).1 hrunning
  have hstack : ∀ n, n < 7 → 4 ≤ n →
      (askingRun asksUnderRun n).stack = [.code, .handle 0, .forever, .code] ∧
      (askingRun asksUnderRun n).signal = .run ∧
      (askingRun asksUnderRun n).loop.running = true := by
    decide +kernel
  obtain ⟨h4, hsig4, hrun4⟩ := hstack 4 (by decide) (by decide)
  obtain ⟨h5, hsig5, hrun5⟩ := hstack 5 (by decide) (by decide)
  obtain ⟨h6, hsig6, hrun6⟩ := hstack 6 (by decide) (by decide)
  have hworld : (askingRun asksUnderRun 4).world = 3 ∧ (askingRun asksUnderRun 5).world = 4 ∧
      (askingRun asksUnderRun 6).world = 5 ∧ (askingRun asksInDrain 8).world = 4 := by
    decide +kernel
  obtain ⟨hw4, hw5, hw6, hw8⟩ := hworld
  have hdrain : (askingRun asksInDrain 8).stack = [.code, .handle 0, .drain 0, .code] ∧
      (askingRun asksInDrain 8).signal = .run ∧
      (askingRun asksInDrain 8).loop.running = false ∧
      (askingRun asksInDrain 8).loop.closed = false := by
    decide +kernel
  obtain ⟨h8, hsig8, hidle, hopen⟩ := hdrain
  refine ⟨(hrefuses 4 h4 hsig4 hrun4).runForever ?_, (hrefuses 5 h5 hsig5 hrun5).close ?_,
    ((hrefuses 6 h6 hsig6 hrun6).runUntilComplete 0 ?_).1, ?_⟩
  · rw [hw4]
    rfl
  · rw [hw5]
    rfl
  · rw [hw6]
    rfl
  · have hgrants := ((one_run_at_a_time (shipped .least) .least asksInDrain
      (.seeded (.init .least 0)) 0 0 8).2.2 _ h8 hsig8).2 hidle
    refine (hgrants.runForever ?_ hopen).1
    show asksInDrain.act (askingRun asksInDrain 8).world = .runForever
    rw [hw8]
    rfl

end SimLoop.Loop
