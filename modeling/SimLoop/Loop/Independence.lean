/-
  Loop/Independence.lean --- the seeded streams do not leak into one another.

  A loop keeps a stream each for the program, its uuids, the network and the disks, so
  that drawing from one does not move the others.  `mask` puts some of the streams
  aside; a program that takes no notice of what it draws from these goes through the
  same states whatever they hold, the streams themselves excepted.
-/
import SimLoop.Loop.Agenda
import SimLoop.Loop.Recasting
import SimLoop.Policy.PctProgram

set_option autoImplicit false

namespace SimLoop.Loop

open SimLoop.Foundation SimLoop.Policy

variable {π ω κ ε υ ρ : Type}

/-! ## Putting streams aside -/

namespace LoopState

/-- The loop with the streams that `m` names replaced. -/
def mask (m : Stream → Option ρ) (s : LoopState π κ ε ρ) : LoopState π κ ε ρ :=
  { s with
    userRandom := (m .user).getD s.userRandom
    uuidRandom := (m .uuid).getD s.uuidRandom
    netRng := (m .net).getD s.netRng
    diskRng := (m .disk).getD s.diskRng }

variable (m : Stream → Option ρ)

theorem stream_mask (s : LoopState π κ ε ρ) (st : Stream) :
    (s.mask m).stream st = (m st).getD (s.stream st) := by
  cases st <;> rfl

theorem mask_mask (s : LoopState π κ ε ρ) : (s.mask m).mask m = s.mask m := by
  have hidem : ∀ (o : Option ρ) (r : ρ), o.getD (o.getD r) = o.getD r := by
    intro o r
    cases o <;> rfl
  simp only [mask, hidem]

/-- A stream that is put aside is gone, whatever it was set to. -/
theorem mask_setStream {st : Stream} (h : (m st).isSome = true) (s : LoopState π κ ε ρ) (r : ρ) :
    (s.setStream r st).mask m = s.mask m := by
  obtain ⟨q, hq⟩ := Option.isSome_iff_exists.mp h
  cases st <;> simp only [mask, setStream, hq, Option.getD_some]

theorem setStream_mask {st : Stream} (h : m st = none) (s : LoopState π κ ε ρ) (r : ρ) :
    (s.mask m).setStream r st = (s.setStream r st).mask m := by
  cases st <;> simp only [mask, setStream, h, Option.getD_none]

/-! ## What no call but a draw tells apart -/

theorem dropCancelled_mask (l : List (TimerEntry κ)) (s : LoopState π κ ε ρ) :
    dropCancelled l (s.mask m) = (dropCancelled l s).mask m := by
  induction l generalizing s with
  | nil => rfl
  | cons t rest ih =>
      unfold dropCancelled
      by_cases hc : s.isCancelled t.seq
      · rw [if_pos hc, if_pos (show (s.mask m).isCancelled t.seq from hc)]
        exact ih (s.record .cancel t.seq t.label (s.hostOf t.context))
      · rw [if_neg hc, if_neg (show ¬ (s.mask m).isCancelled t.seq from hc)]
        rfl

theorem collectDue_mask (l : List (TimerEntry κ)) (s : LoopState π κ ε ρ) :
    collectDue l (s.mask m) = (collectDue l s).mask m := by
  induction l generalizing s with
  | nil => rfl
  | cons t rest ih =>
      unfold collectDue
      by_cases hd : t.when_ ≤ s.now
      · rw [if_pos hd, if_pos (show t.when_ ≤ (s.mask m).now from hd)]
        by_cases hc : s.isCancelled t.seq
        · rw [if_pos hc, if_pos (show (s.mask m).isCancelled t.seq from hc)]
          exact ih (s.record .cancel t.seq t.label (s.hostOf t.context))
        · rw [if_neg hc, if_neg (show ¬ (s.mask m).isCancelled t.seq from hc)]
          exact ih { s with ready := s.ready ++ [t.due] }
      · rw [if_neg hd, if_neg (show ¬ t.when_ ≤ (s.mask m).now from hd)]
        rfl

theorem advanceClock_mask (s : LoopState π κ ε ρ) :
    (s.mask m).advanceClock = (s.advanceClock.1, s.advanceClock.2.mask m) := by
  have hdrop : dropCancelled (s.mask m).timers (s.mask m) = (dropCancelled s.timers s).mask m :=
    dropCancelled_mask m s.timers s
  cases htimers : (dropCancelled s.timers s).timers with
  | nil =>
      have hmask : (dropCancelled (s.mask m).timers (s.mask m)).timers = [] := by
        rw [hdrop]
        exact htimers
      simp only [advanceClock, htimers, hmask]
      exact Prod.ext rfl hdrop
  | cons t rest =>
      have hmask : (dropCancelled (s.mask m).timers (s.mask m)).timers = t :: rest := by
        rw [hdrop]
        exact htimers
      rw [advanceClock_eq htimers, advanceClock_eq hmask, hdrop]
      exact Prod.ext rfl (collectDue_mask m (t :: rest)
        ((dropCancelled s.timers s).moveTo (max (dropCancelled s.timers s).now t.when_)))

theorem pop_mask (s : LoopState π κ ε ρ) (i : Nat) :
    (s.mask m).pop i = ((s.pop i).1, (s.pop i).2.mask m) := by
  cases hi : s.ready[i]? with
  | none =>
      rw [pop_eq_of_none hi, pop_eq_of_none (s := s.mask m) hi]
      rfl
  | some e =>
      rw [pop_eq_of_some hi, pop_eq_of_some (s := s.mask m) hi]
      rfl

theorem draw_mask (P : SchedulingPolicy π) (s : LoopState π κ ε ρ) :
    (s.mask m).draw P = ((s.draw P).1, (s.draw P).2.mask m) := by
  unfold draw
  rw [show (s.mask m).policy = s.policy from rfl,
    show (s.mask m).readyViews = s.readyViews from rfl]
  rcases P.choose s.policy s.readyViews with ⟨e | index, p⟩
  · rfl
  · dsimp only
    split
    · rfl
    · split
      · rfl
      · exact pop_mask m { s with policy := p } index.toNat

theorem step_mask (P : SchedulingPolicy π) (s : LoopState π κ ε ρ) :
    (s.mask m).step P = ((s.step P).1, (s.step P).2.mask m) := by
  unfold step
  rw [show (s.mask m).ready = s.ready from rfl, advanceClock_mask]
  split
  · rcases s.advanceClock with ⟨_ | e, t⟩
    · exact draw_mask m P t
    · rfl
  · exact draw_mask m P s

theorem callSoon_mask (s : LoopState π κ ε ρ) (cb : Callback κ) (context : Option ContextId) :
    (s.mask m).callSoon cb context =
      ((s.callSoon cb context).1, (s.callSoon cb context).2.mask m) := by
  unfold callSoon
  rw [show (s.mask m).closed = s.closed from rfl]
  split
  · rfl
  · cases context <;> rfl

theorem callAtTrue_mask (s : LoopState π κ ε ρ) (when_ shown : ℚ) (cb : Callback κ)
    (context : Option ContextId) :
    (s.mask m).callAtTrue when_ shown cb context =
      ((s.callAtTrue when_ shown cb context).1,
        (s.callAtTrue when_ shown cb context).2.mask m) := by
  unfold callAtTrue
  rw [show (s.mask m).closed = s.closed from rfl]
  split
  · rfl
  · cases context <;> rfl

/-- **No call but a draw from a stream that is put aside tells a loop from its mask.** -/
theorem perform_mask (P : SchedulingPolicy π) (R : RandomSource ρ) (s : LoopState π κ ε ρ)
    {op : Op κ ε} (h : ∀ st d, op = .draw st d → m st = none) :
    (s.mask m).perform P R op = ((s.perform P R op).1, (s.perform P R op).2.mask m) := by
  cases op with
  | step => simp only [perform, step_mask]
  | callSoon cb context => simp only [perform, callSoon_mask]
  | callLater delay cb context =>
      have hcall := callAtTrue_mask m s (s.now + delay) (s.now + delay + s.offsetNow) cb context
      simp only [perform, callLater, ← show (s.mask m).offsetNow = s.offsetNow from rfl] at hcall ⊢
      rw [show (s.mask m).now = s.now from rfl, hcall]
  | callAt when_ cb context =>
      have hcall := callAtTrue_mask m s (when_ - s.offsetNow) when_ cb context
      simp only [perform, callAt, ← show (s.mask m).offsetNow = s.offsetNow from rfl] at hcall ⊢
      rw [hcall]
  | createTask task cb context =>
      simp only [perform, createTask, callSoon_mask]
      rcases s.callSoon cb context with ⟨_ | _, _⟩ <;> rfl
  | cancel seq =>
      simp only [perform, cancel]
      rw [show (s.mask m).nextSeq = s.nextSeq from rfl]
      split <;> rfl
  | enterRun =>
      simp only [perform, enterRun]
      rw [show (s.mask m).closed = s.closed from rfl, show (s.mask m).running = s.running from rfl]
      split
      · rfl
      · split <;> rfl
  | close =>
      simp only [perform, close]
      rw [show (s.mask m).running = s.running from rfl]
      split <;> rfl
  | draw st d =>
      have hnone := h st d rfl
      have hstream : (s.mask m).stream st = s.stream st := by
        rw [stream_mask, hnone, Option.getD_none]
      simp only [perform, hstream, setStream_mask m hnone]
  | _ => rfl

end LoopState

/-! ## Programs that do not look -/

/-- The program takes no notice of the numbers it draws from the streams in `S`. -/
def Heedless (W : Workload ω κ ε υ) (S : Stream → Bool) : Prop :=
  ∀ w st d h q q', S st = true → W.act w = .call ⟨.draw st d, h⟩ →
    W.resume w (.reply (.number q)) = W.resume w (.reply (.number q'))

/-- Two loops are the same but for what the streams in `S` hold. -/
structure SameBut (S : Stream → Bool) (s t : LoopState π κ ε ρ) : Prop where
  fields : t = { s with
    userRandom := t.userRandom
    uuidRandom := t.uuidRandom
    netRng := t.netRng
    diskRng := t.diskRng }
  streams : ∀ st, S st = false → t.stream st = s.stream st

/-- Put the streams in `S` aside. -/
def aside (S : Stream → Bool) (r : ρ) (st : Stream) : Option ρ := if S st then some r else none

theorem aside_of_mem {S : Stream → Bool} {st : Stream} (h : S st = true) (r : ρ) :
    aside S r st = some r := if_pos h

theorem aside_of_not_mem {S : Stream → Bool} {st : Stream} (h : S st = false) (r : ρ) :
    aside S r st = none := if_neg (ne_true_of_eq_false h)

theorem SameBut.mask_eq {S : Stream → Bool} {s t : LoopState π κ ε ρ} (h : SameBut S s t) (r : ρ) :
    s.mask (aside S r) = t.mask (aside S r) := by
  have hkept : ∀ st, (aside S r st).getD (s.stream st) = (aside S r st).getD (t.stream st) := by
    intro st
    cases hS : S st with
    | true => rw [aside_of_mem hS, Option.getD_some, Option.getD_some]
    | false => rw [h.streams st hS]
  rw [h.fields]
  unfold LoopState.mask
  congr 1
  · exact hkept .user
  · exact hkept .uuid
  · exact hkept .net
  · exact hkept .disk

theorem SameBut.of_mask_eq {S : Stream → Bool} {s t : LoopState π κ ε ρ} {r : ρ}
    (h : s.mask (aside S r) = t.mask (aside S r)) : SameBut S s t := by
  constructor
  · have hback : t = { t.mask (aside S r) with
        userRandom := t.userRandom
        uuidRandom := t.uuidRandom
        netRng := t.netRng
        diskRng := t.diskRng } := rfl
    rw [← h] at hback
    exact hback
  · intro st hS
    have hstream := congrArg (fun u => u.stream st) h
    simp only [LoopState.stream_mask, aside_of_not_mem hS, Option.getD_none] at hstream
    exact hstream.symm

/-! ## Two runs -/

section

variable {P : SchedulingPolicy π} {R : RandomSource ρ} {W : Workload ω κ ε υ} {S : Stream → Bool}

theorem unseen_mask (m : Stream → Option ρ) :
    Unseen P R (LoopState.mask m : LoopState π (Body κ) ε ρ → LoopState π (Body κ) ε ρ)
      (fun o => ∀ st d, o = .draw st d → m st = none) where
  perform s _ h := LoopState.perform_mask m P R s h
  internal o h := by
    rintro st d rfl
    cases h
  ready _ := rfl
  timers _ := rfl
  stopping _ := rfl
  unhandled _ := rfl
  exceptionHandler _ := rfl
  current _ := rfl

namespace Session

/-- A session with the streams in `S` put aside. -/
def masked (S : Stream → Bool) (r : ρ) (s : Session π ω κ ε υ ρ) : Session π ω κ ε υ ρ :=
  s.recast (LoopState.mask (aside S r)) id

/-- **A tick does the same to the masked session**, if the program is heedless. -/
theorem tick_masked (hW : Heedless W S) (r : ρ) (s : Session π ω κ ε υ ρ) :
    ((s.masked S r).tick P R W).masked S r = (s.tick P R W).masked S r := by
  have hidem : ∀ t : Session π ω κ ε υ ρ, (t.masked S r).masked S r = t.masked S r := by
    intro t
    simp only [masked, recast, LoopState.mask_mask, id]
  by_cases hdraw : ∃ rest st d h, s.stack = .code :: rest ∧ s.signal = .run ∧
      W.act s.world = .call ⟨.draw st d, h⟩ ∧ S st = true
  · obtain ⟨rest, st, d, h, hstack, hsignal, hact, hS⟩ := hdraw
    have hmask : (aside S r st).isSome = true := by rw [aside_of_mem hS]; rfl
    -- The numbers drawn differ, and the program goes on the same from either.
    rw [tick_of_code hstack hsignal, tick_of_code (s := s.masked S r) hstack hsignal]
    unfold doAct
    rw [show (s.masked S r).world = s.world from rfl, hact]
    simp only [op, LoopState.perform, answer, masked, recast, id]
    rw [hW s.world st d h _ (d.from R (s.loop.stream st)).1 hS hact,
      LoopState.mask_setStream _ hmask, LoopState.mask_setStream _ hmask, LoopState.mask_mask]
  · have htick : (s.masked S r).tick P R W = (s.tick P R W).masked S r := by
      refine tick_recast (unseen_mask _) ⟨fun _ _ => rfl, fun _ _ _ => rfl⟩ s
        (LoopState.step_mask _ P s.loop) fun rest hstack hsignal => ⟨rfl, ?_, fun _ _ _ => rfl⟩
      rintro ⟨o, h⟩ ho st d rfl
      refine aside_of_not_mem (Bool.eq_false_iff.mpr fun hS => ?_) r
      exact hdraw ⟨rest, st, d, h, hstack, hsignal, ho, hS⟩
    rw [htick]
    exact hidem _

theorem masked_after (hW : Heedless W S) (r : ρ) {s t : Session π ω κ ε υ ρ}
    (h : s.masked S r = t.masked S r) (n : Nat) :
    (after P R W s n).masked S r = (after P R W t n).masked S r := by
  induction n with
  | zero => exact h
  | succ n ih =>
      calc (after P R W s (n + 1)).masked S r
          = (((after P R W s n).masked S r).tick P R W).masked S r := (tick_masked hW r _).symm
        _ = (((after P R W t n).masked S r).tick P R W).masked S r := by rw [ih]
        _ = (after P R W t (n + 1)).masked S r := tick_masked hW r _

end Session

end

/-- **The seeded streams do not leak.**  Two loops that are the same but for what some of
the streams hold take a program that pays no heed to the numbers of these streams through
the same states, the streams themselves excepted: every choice, every event, every other
draw and every outcome is the same. -/
theorem streams_do_not_leak (P : SchedulingPolicy π) (R : RandomSource ρ)
    (W : Workload ω κ ε υ) (S : Stream → Bool) (hW : Heedless W S)
    (loop loop' : LoopState π (Body κ) ε ρ) (hloops : SameBut S loop loop') (world : ω) (n : Nat) :
    let s := Session.after P R W (.start loop world) n
    let t := Session.after P R W (.start loop' world) n
    SameBut S s.loop t.loop ∧ t = { s with loop := t.loop } := by
  intro s t
  have hstart : (Session.start loop world : Session π ω κ ε υ ρ).masked S loop.userRandom =
      (Session.start loop' world).masked S loop.userRandom := by
    simp only [Session.masked, Session.recast, Session.start, hloops.mask_eq loop.userRandom]
  have hafter : s.masked S loop.userRandom = t.masked S loop.userRandom :=
    Session.masked_after hW _ hstart n
  refine ⟨.of_mask_eq (congrArg Session.loop hafter), ?_⟩
  have hback : t = { t.masked S loop.userRandom with loop := t.loop } := rfl
  rw [← hafter] at hback
  exact hback

/-! ## A program that draws and drops what it drew -/

/-- Draws for itself, queues a callback and draws for the network. -/
def idleDraws : Workload Nat Unit Unit Unit :=
  .scripted [
    .call ⟨.draw .user .random, rfl⟩,
    .call ⟨.callSoon ⟨some "work", "function", none, .user ()⟩ none, rfl⟩,
    .call ⟨.draw .net .random, rfl⟩,
    .call ⟨.draw .user .random, rfl⟩,
    .runForever]

/-- What the example draws from: two numbers that differ, then zeros. -/
def twoNumbers : RandomSource Nat := drawing (1 : Equiv.Perm (Fin 2)) ∅

/-- A new loop whose program stream holds `user`. -/
def loopDrawing (user : Nat) : LoopState (Shipped Nat) (Body Unit) Unit Nat :=
  { LoopState.fresh twoNumbers (.seeded (.init twoNumbers 0)) 0 with userRandom := user }

/-- The example on such a loop. -/
def idleRun (user n : Nat) : Session (Shipped Nat) Nat Unit Unit Unit Nat :=
  Session.after (shipped twoNumbers) twoNumbers idleDraws (.start (loopDrawing user) 0) n

theorem streams_do_not_leak_idle :
    (twoNumbers.random 0).1 ≠ (twoNumbers.random 1).1 ∧
      (idleRun 0 8).loop.userRandom = 2 ∧ (idleRun 1 8).loop.userRandom = 3 ∧
      ∀ n, (idleRun 1 n).loop.recorder = (idleRun 0 n).loop.recorder ∧
        (idleRun 1 n).loop.netRng = (idleRun 0 n).loop.netRng := by
  refine ⟨by decide +kernel, by decide +kernel, by decide +kernel, fun n => ?_⟩
  have hW : Heedless idleDraws (fun st => st == .user) := fun _ _ _ _ _ _ _ _ => rfl
  have hloops : SameBut (fun st => st == .user) (loopDrawing 0) (loopDrawing 1) := by
    refine ⟨rfl, fun st hst => ?_⟩
    cases st with
    | user => cases hst
    | _ => rfl
  have hrun := (streams_do_not_leak (shipped twoNumbers) twoNumbers idleDraws
    (fun st => st == .user) hW _ _ hloops 0 n).1
  refine ⟨?_, hrun.streams .net rfl⟩
  have hrecorder := congrArg LoopState.recorder hrun.fields
  exact hrecorder

end SimLoop.Loop
