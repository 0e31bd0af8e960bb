/-
  Loop/Discipline.lean --- the stack of a session is kept in order.

  Which frame waits on which is a table (`Frame.waitsOn`), and so is which signals a
  frame can be given.  Every tick keeps a stack in order and changes the frame on top
  only (`leads_tick`), so whatever is above a waiting frame comes back to it.
-/
import SimLoop.Loop.Session
import Mathlib.Data.List.Chain

set_option autoImplicit false

namespace SimLoop.Loop

open SimLoop.Foundation SimLoop.Policy

variable {π ω κ ε υ ρ : Type}

/-! ## The discipline of the stack -/

/-- Which frame waits directly for which. -/
def Frame.waitsOn : Frame ε → Frame ε → Prop
  | .code, .handle _ | .code, .handler _ | .code, .cancelling _ | .code, .collecting _ _ => True
  | .handle _, .forever | .handle _, .drain _ => True
  | .handler _, .code | .handler _, .forever | .handler _, .drain _ => True
  | .forever, .code | .forever, .untilComplete _ => True
  | .untilComplete _, .code | .cancelling _, .code | .drain _, .code => True
  | .collecting _ _, .code => True
  | _, _ => False

/-- Which signals a frame can be given. -/
def Frame.accepts : Frame ε → Signal ε υ → Prop
  | .code, _ | .forever, _ | .drain _, _ => True
  | .untilComplete _, .run => False
  | .untilComplete _, _ => True
  | _, .returned _ | _, .raised (.user _) => True
  | _, _ => False

/-- Every frame waits on one it can wait on, and the top frame can take the signal. -/
def InOrder (stack : List (Frame ε)) (signal : Signal ε υ) : Prop :=
  stack.IsChain Frame.waitsOn ∧ ∀ fr ∈ stack.head?, fr.accepts signal

namespace Session

/-- The stack of a session is in order. -/
def Disciplined (s : Session π ω κ ε υ ρ) : Prop := InOrder s.stack s.signal

section

variable (P : SchedulingPolicy π) (R : RandomSource ρ) (W : Workload ω κ ε υ)
variable (s : Session π ω κ ε υ ρ)

@[simp] theorem stack_op (o : Op (Body κ) ε) : (s.op P R o).2.stack = s.stack := rfl

@[simp] theorem signal_op (o : Op (Body κ) ε) : (s.op P R o).2.signal = s.signal := rfl

@[simp] theorem futures_op (o : Op (Body κ) ε) : (s.op P R o).2.futures = s.futures := rfl

@[simp] theorem stack_scheduleCallbacks (callbacks : List (Callback (Body κ) × ContextId)) :
    (s.scheduleCallbacks P R callbacks).2.stack = s.stack := by
  induction callbacks generalizing s with
  | nil => rfl
  | cons c rest ih =>
      unfold scheduleCallbacks
      have hop := stack_op P R s (.callSoon c.1 (some c.2))
      revert hop
      rcases s.op P R (.callSoon c.1 (some c.2)) with ⟨r, t⟩
      intro hop
      cases r with
      | raised e => exact hop
      | _ => exact (ih t).trans hop

@[simp] theorem stack_complete (f : FutId) (outcome : Except ε υ) :
    (s.complete P R f outcome).2.stack = s.stack := by
  unfold complete
  split
  · rfl
  · split
    · rfl
    · exact stack_scheduleCallbacks P R _ _

@[simp] theorem stack_addDoneCallback (f : FutId) (cb : Callback (Body κ))
    (context : Option ContextId) : (s.addDoneCallback P R f cb context).2.stack = s.stack := by
  unfold addDoneCallback
  split
  · rfl
  · split
    · have hop := stack_op P R s (.callSoon cb context)
      revert hop
      rcases s.op P R (.callSoon cb context) with ⟨r, t⟩
      intro hop
      cases r <;> exact hop
    · cases context with
      | some c => rfl
      | none =>
          have hop := stack_op P R s .copyContext
          revert hop
          rcases s.op P R .copyContext with ⟨r, t⟩
          intro hop
          cases r <;> exact hop

@[simp] theorem stack_removeStopCallback (f : FutId) :
    (s.removeStopCallback f).stack = s.stack := by
  unfold removeStopCallback
  split <;> rfl

@[simp] theorem done_removeStopCallback (f : FutId) : (s.removeStopCallback f).done f = s.done f := by
  unfold removeStopCallback done
  cases h : s.futures.get? f with
  | none => simp [h]
  | some fut => simp

end

end Session

theorem Frame.accepts_returned (fr : Frame ε) (v : Option υ) : fr.accepts (.returned v) := by
  cases fr <;> trivial

theorem Frame.accepts_raised_user (fr : Frame ε) (e : ε) :
    fr.accepts (.raised (.user e) : Signal ε υ) := by
  cases fr <;> trivial

theorem InOrder.returned {fr : Frame ε} {rest : List (Frame ε)}
    (h : (fr :: rest).IsChain Frame.waitsOn) (v : Option υ) : InOrder rest (.returned v) :=
  ⟨(List.isChain_cons.mp h).2, fun x _ => x.accepts_returned v⟩

theorem InOrder.raised_user {fr : Frame ε} {rest : List (Frame ε)}
    (h : (fr :: rest).IsChain Frame.waitsOn) (e : ε) :
    InOrder rest (.raised (.user e) : Signal ε υ) :=
  ⟨(List.isChain_cons.mp h).2, fun x _ => x.accepts_raised_user e⟩

/-- An exception of the loop may pass to a frame below that takes it. -/
theorem InOrder.raised_loop {fr : Frame ε} {rest : List (Frame ε)}
    (h : (fr :: rest).IsChain Frame.waitsOn) (e : LoopError)
    (hfr : ∀ x, fr.waitsOn x → x.accepts (.raised (.loop e) : Signal ε υ)) :
    InOrder rest (.raised (.loop e) : Signal ε υ) :=
  ⟨(List.isChain_cons.mp h).2, fun x hx => hfr x ((List.isChain_cons.mp h).1 x hx)⟩

/-- One more frame on top. -/
theorem chain_cons {fr : Frame ε} {rest : List (Frame ε)} (h : rest.IsChain Frame.waitsOn)
    (hfr : ∀ x ∈ rest.head?, fr.waitsOn x) : (fr :: rest).IsChain Frame.waitsOn :=
  List.isChain_cons.mpr ⟨hfr, h⟩

/-- Another frame in the place of the top one. -/
theorem chain_replace {fr gr : Frame ε} {rest : List (Frame ε)}
    (h : (fr :: rest).IsChain Frame.waitsOn) (hgr : ∀ x, fr.waitsOn x → gr.waitsOn x) :
    (gr :: rest).IsChain Frame.waitsOn :=
  List.isChain_cons.mpr
    ⟨fun x hx => hgr x ((List.isChain_cons.mp h).1 x hx), (List.isChain_cons.mp h).2⟩

namespace Session

/-- A tick left everything below the frame it was about alone, and the stack in order. -/
def Leads (rest : List (Frame ε)) (t : Session π ω κ ε υ ρ) : Prop :=
  (∃ top, t.stack = top ++ rest) ∧ t.Disciplined

section

variable {P : SchedulingPolicy π} {R : RandomSource ρ} {W : Workload ω κ ε υ}
variable {s : Session π ω κ ε υ ρ} {fr : Frame ε} {rest : List (Frame ε)}

theorem leads_returnTo (t : Session π ω κ ε υ ρ) (h : (fr :: rest).IsChain Frame.waitsOn)
    (v : Option υ) : Leads rest (t.returnTo rest v) :=
  ⟨⟨[], rfl⟩, InOrder.returned h v⟩

theorem leads_raiseTo_user (t : Session π ω κ ε υ ρ) (h : (fr :: rest).IsChain Frame.waitsOn)
    (e : ε) : Leads rest (t.raiseTo rest (.user e)) :=
  ⟨⟨[], rfl⟩, InOrder.raised_user h e⟩

theorem leads_raiseTo_loop (t : Session π ω κ ε υ ρ) (h : (fr :: rest).IsChain Frame.waitsOn)
    (e : LoopError)
    (hfr : ∀ x, fr.waitsOn x → x.accepts (.raised (.loop e) : Signal ε υ)) :
    Leads rest (t.raiseTo rest (.loop e)) :=
  ⟨⟨[], rfl⟩, InOrder.raised_loop h e hfr⟩

theorem leads_enterCode (t : Session π ω κ ε υ ρ) (entry : Entry κ ε) {T : List (Frame ε)}
    (h : (.code :: T ++ rest).IsChain Frame.waitsOn) :
    Leads rest (t.enterCode W entry (T ++ rest)) :=
  ⟨⟨.code :: T, rfl⟩, h, fun x hx => by
    obtain rfl : Frame.code = x := by simpa [enterCode] using hx
    trivial⟩

theorem leads_answer (t : Session π ω κ ε υ ρ) (ht : t.stack = .code :: rest)
    (h : (.code :: rest).IsChain Frame.waitsOn) (a : Answer κ ε υ) :
    Leads rest (t.answer W a) :=
  ⟨⟨[.code], ht⟩, by
    refine ⟨(congrArg (List.IsChain Frame.waitsOn) ht).mpr h, fun x hx => ?_⟩
    obtain rfl : Frame.code = x := by simpa [answer, ht] using hx
    trivial⟩

theorem leads_answerError (t : Session π ω κ ε υ ρ) (ht : t.stack = .code :: rest)
    (h : (.code :: rest).IsChain Frame.waitsOn) (e : Option LoopError) :
    Leads rest (t.answerError W e) := by
  cases e with
  | none => exact leads_answer t ht h _
  | some e => exact leads_answer t ht h _

/-- `call_exception_handler` enters the program's handler or returns, over a frame that
can wait for it. -/
theorem leads_callExceptionHandler (t : Session π ω κ ε υ ρ) (e : Option ε)
    {T : List (Frame ε)} (h : (T ++ rest).IsChain Frame.waitsOn)
    (hwait : ∀ x ∈ (T ++ rest).head?, (Frame.handler e).waitsOn x) :
    Leads rest (t.callExceptionHandler P R W e (T ++ rest)) := by
  have hreturn : ∀ u : Session π ω κ ε υ ρ, Leads rest (u.returnTo (T ++ rest) none) :=
    fun u => ⟨⟨T, rfl⟩, h, fun x _ => x.accepts_returned none⟩
  unfold callExceptionHandler
  split
  · rename_i k hk
    refine leads_enterCode (T := .handler e :: T) t _ ?_
    exact chain_cons (chain_cons h hwait) (by simp [Frame.waitsOn])
  · cases e with
    | none => exact hreturn _
    | some e => exact hreturn _

/-- One act of the program. -/
theorem leads_doAct (hs : s.stack = .code :: rest)
    (h : (.code :: rest).IsChain Frame.waitsOn) : Leads rest (s.doAct P R W rest) := by
  have hpush : ∀ (top : List (Frame ε)) (t : Session π ω κ ε υ ρ),
      (.forever :: top ++ rest).IsChain Frame.waitsOn →
      Leads rest
        ({ t with stack := .forever :: top ++ rest, signal := .run } : Session π ω κ ε υ ρ) := by
    intro top t hchain
    refine ⟨⟨.forever :: top, rfl⟩, hchain, fun x hx => ?_⟩
    obtain rfl : Frame.forever = x := by simpa using hx
    trivial
  unfold doAct
  split
  · rename_i o _
    exact leads_answer (s.op P R o.1).2 hs h (.reply (s.op P R o.1).1)
  · exact leads_answer { s with
      futures := s.futures.insert s.nextFuture ⟨none, []⟩
      nextFuture := s.nextFuture + 1 } hs h (.future s.nextFuture)
  · exact leads_answerError _ ((stack_complete P R s _ _).trans hs) h _
  · exact leads_answerError _ ((stack_addDoneCallback P R s _ _ _).trans hs) h _
  · exact leads_answer _ hs h _
  · exact leads_callExceptionHandler (T := [.code]) s _ h (by simp [Frame.waitsOn])
  · have hop := stack_op P R s .enterRun
    revert hop
    rcases s.op P R .enterRun with ⟨r, t⟩
    intro hop
    cases r with
    | raised e => exact leads_answer t (hop.trans hs) h _
    | _ => exact hpush [.code] t (chain_cons h (by simp [Frame.waitsOn]))
  · rename_i f _
    have hadd := stack_addDoneCallback P R s f stopWhenDone none
    revert hadd
    rcases s.addDoneCallback P R f stopWhenDone none with ⟨e, t⟩
    intro hadd
    cases e with
    | some e => exact leads_answer t (hadd.trans hs) h _
    | none =>
        have hop := stack_op P R t .enterRun
        revert hop
        dsimp only
        rcases t.op P R .enterRun with ⟨r, u⟩
        intro hop
        cases r with
        | raised e =>
            exact leads_answer _ ((stack_removeStopCallback u f).trans
              (hop.trans (hadd.trans hs))) h _
        | _ =>
            exact hpush [.untilComplete f, .code] u
              (chain_cons (chain_cons h (by simp [Frame.waitsOn])) (by simp [Frame.waitsOn]))
  · exact leads_returnTo s h none
  · exact leads_raiseTo_user s h _

/-- A turn of the loop's own code, or of the program. -/
theorem leads_turn (hd : s.Disciplined) (hs : s.stack = fr :: rest) :
    Leads rest (s.turn P R W) := by
  obtain ⟨hchain, hsignal⟩ := hd
  rw [hs] at hchain hsignal
  have hacc : fr.accepts s.signal := hsignal fr (by simp)
  have hrest := (List.isChain_cons.mp hchain).2
  have hbelow := (List.isChain_cons.mp hchain).1
  cases fr with
  | code =>
      cases hsig : s.signal <;> simp only [turn, hs, hsig]
      · exact leads_doAct hs hchain
      · exact leads_answer s hs hchain _
      · exact leads_answer s hs hchain _
  | forever =>
      rcases hsig : s.signal with _ | v | ⟨e | e⟩ <;> simp only [turn, hs, hsig]
      · exact leads_returnTo _ hchain none
      · exact ⟨⟨[.forever], rfl⟩, hchain, fun x hx => by
          obtain rfl : Frame.forever = x := by simpa using hx
          trivial⟩
      · exact leads_raiseTo_loop _ hchain e (fun x hx => by cases x <;> trivial)
      · exact leads_raiseTo_user _ hchain e
  | handle saved =>
      rcases hsig : s.signal with _ | v | ⟨e | e⟩ <;> rw [hsig] at hacc
      · exact hacc.elim
      · simp only [turn, hs, hsig]
        exact leads_returnTo _ hchain none
      · exact hacc.elim
      · simp only [turn, hs, hsig]
        split
        · exact leads_raiseTo_user _ hchain e
        · refine leads_callExceptionHandler (T := []) _ (some e) hrest fun x hx => ?_
          have := hbelow x hx
          revert this
          cases x <;> simp [Frame.waitsOn]
  | handler e =>
      rcases hsig : s.signal with _ | v | ⟨e' | e'⟩ <;> rw [hsig] at hacc
      · exact hacc.elim
      · simp only [turn, hs, hsig]
        exact leads_returnTo _ hchain none
      · exact hacc.elim
      · simp only [turn, hs, hsig]
        split
        · exact leads_raiseTo_user _ hchain e'
        · cases e <;> exact leads_returnTo _ hchain none
  | untilComplete f =>
      rcases hsig : s.signal with _ | v | ⟨e | e⟩ <;> rw [hsig] at hacc
      · exact hacc.elim
      · simp only [turn, hs, hsig]
        split
        · refine leads_enterCode (T := [.collecting f true]) _ _ (chain_cons ?_ ?_)
          · exact chain_replace hchain (fun x hx => by cases x <;> trivial)
          · simp [Frame.waitsOn]
        · refine leads_enterCode (T := [.cancelling f]) _ _ (chain_cons ?_ ?_)
          · exact chain_replace hchain (fun x hx => by cases x <;> trivial)
          · simp [Frame.waitsOn]
      · simp only [turn, hs, hsig]
        exact leads_raiseTo_loop _ hchain e (fun x hx => by cases x <;> trivial)
      · simp only [turn, hs, hsig]
        exact leads_raiseTo_user _ hchain e
  | cancelling f =>
      rcases hsig : s.signal with _ | v | ⟨e | e⟩ <;> rw [hsig] at hacc
      · exact hacc.elim
      · simp only [turn, hs, hsig]
        refine ⟨⟨[.drain f], rfl⟩, ?_, fun x hx => ?_⟩
        · exact chain_replace hchain (fun x hx => by cases x <;> trivial)
        · obtain rfl : Frame.drain f = x := by simpa using hx
          trivial
      · exact hacc.elim
      · simp only [turn, hs, hsig]
        exact leads_raiseTo_user _ hchain e
  | drain f =>
      rcases hsig : s.signal with _ | v | ⟨e | e⟩ <;> simp only [turn, hs, hsig]
      · refine leads_enterCode (T := [.collecting f false]) _ _ (chain_cons ?_ ?_)
        · exact chain_replace hchain (fun x hx => by cases x <;> trivial)
        · simp [Frame.waitsOn]
      · exact ⟨⟨[.drain f], rfl⟩, hchain, fun x hx => by
          obtain rfl : Frame.drain f = x := by simpa using hx
          trivial⟩
      · exact leads_raiseTo_loop _ hchain e (fun x hx => by cases x <;> trivial)
      · exact leads_raiseTo_user _ hchain e
  | collecting f completed =>
      have hloop : ∀ e x, (Frame.collecting f completed : Frame ε).waitsOn x →
          x.accepts (.raised (.loop e) : Signal ε υ) := fun e x hx => by cases x <;> trivial
      simp only [turn, hs, verdict]
      split
      · split
        · exact leads_raiseTo_user _ hchain _
        · split
          · exact leads_raiseTo_user _ hchain _
          · exact leads_returnTo _ hchain _
        · exact leads_raiseTo_loop _ hchain _ (hloop _)
      · split
        · exact leads_raiseTo_user _ hchain _
        · exact leads_raiseTo_loop _ hchain _ (hloop _)

/-- A session that asks for a step is at one of the two loops, and there is work. -/
theorem wantsStep_iff : s.wantsStep = true ↔
    s.signal = .run ∧ (s.loop.ready ≠ [] ∨ s.loop.timers ≠ []) ∧
      ((∃ rest, s.stack = .forever :: rest ∧ s.loop.stopping = false) ∨
        ∃ f rest, s.stack = .drain f :: rest ∧ s.done f = false) := by
  have hwork : (!s.loop.ready.isEmpty || !s.loop.timers.isEmpty) = true ↔
      s.loop.ready ≠ [] ∨ s.loop.timers ≠ [] := by simp
  unfold wantsStep
  split
  · rename_i rest hs hsig
    simp only [hs, hsig, Bool.and_eq_true, Bool.not_eq_true', hwork]
    constructor
    · rintro ⟨hstop, h⟩
      exact ⟨trivial, h, .inl ⟨rest, rfl, hstop⟩⟩
    · rintro ⟨-, h, ⟨_, _, hstop⟩ | ⟨_, _, habs, _⟩⟩
      · exact ⟨hstop, h⟩
      · cases habs
  · rename_i f rest hs hsig
    simp only [hs, hsig, Bool.and_eq_true, Bool.not_eq_true', hwork]
    constructor
    · rintro ⟨h, hdone⟩
      exact ⟨trivial, h, .inr ⟨f, rest, rfl, hdone⟩⟩
    · rintro ⟨-, h, ⟨_, habs, _⟩ | ⟨g, _, heq, hdone⟩⟩
      · cases habs
      · obtain ⟨hfg, -⟩ := List.cons.inj heq
        obtain rfl : f = g := by simpa using hfg
        exact ⟨h, hdone⟩
  · rename_i hforever hdrain
    simp only [Bool.false_eq_true, false_iff]
    rintro ⟨hsig, -, ⟨rest, hs, -⟩ | ⟨f, rest, hs, -⟩⟩
    · exact hforever rest hs hsig
    · exact hdrain f rest hs hsig

/-- What follows a step of one of the two loops. -/
theorem leads_afterStep (hs : s.stack = fr :: rest)
    (h : (fr :: rest).IsChain Frame.waitsOn)
    (hfr : fr = .forever ∨ ∃ f, fr = .drain f) (outcome : LoopState.StepOutcome (Body κ)) :
    Leads rest (s.afterStep P R W outcome) := by
  have hstay : ∀ t : Session π ω κ ε υ ρ, t.stack = fr :: rest → Leads rest t := by
    intro t ht
    refine ⟨⟨[fr], ht⟩, ?_⟩
    unfold Disciplined
    rw [ht]
    refine ⟨h, fun x hx => ?_⟩
    obtain rfl : fr = x := by simpa using hx
    rcases hfr with rfl | ⟨f, rfl⟩ <;> trivial
  cases outcome with
  | raised e => exact hstay _ hs
  | skipped e => exact hstay _ hs
  | run entry =>
      simp only [afterStep, beginHandle]
      split
      · exact hstay _ hs
      · rw [hs]
        refine leads_enterCode (T := [.handle s.loop.current, fr]) _ _
          (chain_cons (chain_cons h ?_) (by simp [Frame.waitsOn]))
        intro x hx
        obtain rfl : fr = x := by simpa using hx
        rcases hfr with rfl | ⟨f, rfl⟩ <;> trivial

/-- The frame rule: a tick changes the frame on top only, and keeps the stack in order. -/
theorem leads_tick (hd : s.Disciplined) (hs : s.stack = fr :: rest) :
    Leads rest (s.tick P R W) := by
  unfold tick
  split
  · rename_i hw
    obtain ⟨-, -, hloop⟩ := wantsStep_iff.mp hw
    have hchain : (fr :: rest).IsChain Frame.waitsOn := hs ▸ hd.1
    have hfr : fr = .forever ∨ ∃ f, fr = .drain f := by
      rcases hloop with ⟨r, h, -⟩ | ⟨f, r, h, -⟩
      · exact .inl (List.cons.inj (hs.symm.trans h)).1
      · exact .inr ⟨f, (List.cons.inj (hs.symm.trans h)).1⟩
    exact leads_afterStep (s := { s with loop := (s.loop.step P).2 }) hs hchain hfr _
  · exact leads_turn hd hs

/-- Code of the program, and what waits directly for it on a loop's behalf, lets only
exceptions of the program out. -/
theorem turn_raises_user (hd : s.Disciplined) (hs : s.stack = fr :: rest)
    (hfr : fr = .code ∨ (∃ c, fr = .handle c) ∨ ∃ e, fr = .handler e) (e : LoopError) :
    (s.turn P R W).signal ≠ .raised (.loop e) := by
  have hacc : fr.accepts s.signal := hd.2 fr (by simp [hs])
  have hhandler : ∀ (t : Session π ω κ ε υ ρ) (e' : Option ε) (stack : List (Frame ε)),
      (t.callExceptionHandler P R W e' stack).signal ≠ .raised (.loop e) := by
    intro t e' stack
    unfold callExceptionHandler
    split
    · simp [enterCode]
    · split <;> simp [returnTo]
  have hanswer : ∀ (t : Session π ω κ ε υ ρ) (e' : Option LoopError),
      (t.answerError W e').signal ≠ .raised (.loop e) := by
    intro t e'
    cases e' <;> simp [answerError, answer]
  rcases hfr with rfl | ⟨c, rfl⟩ | ⟨e', rfl⟩
  · cases hsig : s.signal <;> simp only [turn, hs, hsig]
    · unfold doAct
      split
      · simp [answer]
      · simp [answer]
      · exact hanswer _ _
      · exact hanswer _ _
      · simp [answer]
      · exact hhandler _ _ _
      · split <;> simp [answer]
      · split
        · simp [answer]
        · split <;> simp [answer]
      · simp [returnTo]
      · simp [raiseTo]
    · simp [answer]
    · simp [answer]
  · rcases hsig : s.signal with _ | v | ⟨e' | e'⟩ <;> rw [hsig] at hacc
    · exact hacc.elim
    · simp [turn, hs, hsig, returnTo]
    · exact hacc.elim
    · simp only [turn, hs, hsig]
      split
      · simp [raiseTo]
      · exact hhandler _ _ _
  · rcases hsig : s.signal with _ | v | ⟨e'' | e''⟩ <;> rw [hsig] at hacc
    · exact hacc.elim
    · simp [turn, hs, hsig, returnTo]
    · exact hacc.elim
    · simp only [turn, hs, hsig]
      split
      · simp [raiseTo]
      · split <;> simp [returnTo]

theorem tick_raises_user (hd : s.Disciplined) (hs : s.stack = fr :: rest)
    (hfr : fr = .code ∨ (∃ c, fr = .handle c) ∨ ∃ e, fr = .handler e) (e : LoopError) :
    (s.tick P R W).signal ≠ .raised (.loop e) := by
  have hw : ¬ s.wantsStep = true := by
    intro hw
    obtain ⟨-, -, ⟨r, h, -⟩ | ⟨g, r, h, -⟩⟩ := wantsStep_iff.mp hw
    all_goals
      obtain ⟨rfl, -⟩ := List.cons.inj (hs.symm.trans h)
      rcases hfr with h | ⟨_, h⟩ | ⟨_, h⟩ <;> cases h
  unfold tick
  rw [if_neg hw]
  exact turn_raises_user hd hs hfr e

end

end Session

end SimLoop.Loop
