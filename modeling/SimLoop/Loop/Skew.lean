/-
  Loop/Skew.lean --- wrong clocks and the schedule.

  A `ClockProgram` does anything but look at its clock readings: it can add a duration
  to one and hand the sum to `call_at`.  `level` takes a loop to the one the same run
  would be on if every host's clock were right: the offsets are gone and each timer
  advertises its true deadline.  As long as every reading is used under the host whose
  clock it is of, a run and its levelled run stay in lock step (`levels_clockRun`), so
  two runs that differ in their offsets only have one levelled run in common.
-/
import SimLoop.Loop.Conservation
import SimLoop.Loop.SessionRuns

set_option autoImplicit false

namespace SimLoop.Loop

open SimLoop.Foundation SimLoop.Policy

variable {π ω κ ε υ ρ : Type}

/-! ## Programs that only schedule by the clock -/

/-- The call reads a clock, takes a reading, or sets a clock. -/
def Op.isClock : Op κ ε → Bool
  | .time | .callAt _ _ _ | .setClock _ _ => true
  | _ => false

/-- The act is a call that has to do with clocks. -/
def Act.isClock : Act κ ε υ → Bool
  | .call o => o.1.isClock
  | _ => false

/-- What a program does next that only schedules by its clock readings. -/
inductive ClockAct (κ ε υ : Type) where
  | other (a : { a : Act κ ε υ // a.isClock = false })
  /-- `loop.time()`, which becomes the next reading. -/
  | readClock
  /-- `loop.call_at(reading + delay, ...)`, with the readings numbered from 0. -/
  | callAt (reading : Nat) (delay : ℚ) (cb : Callback (Body κ)) (context : Option ContextId)

/-- A program that only schedules by its clock readings: it is not shown what they are. -/
structure ClockProgram (ω κ ε υ : Type) where
  act : ω → ClockAct κ ε υ
  resume : ω → Answer κ ε υ → ω
  enter : ω → Entry κ ε → ω
  classOf : ε → ExcClass

/-- The program as the loop runs it, with the readings it holds. -/
def ClockProgram.workload (W : ClockProgram ω κ ε υ) : Workload (ω × List ℚ) κ ε υ where
  act w :=
    match W.act w.1 with
    | .other a => a.1
    | .readClock => .call ⟨.time, rfl⟩
    | .callAt reading delay cb context =>
      .call ⟨.callAt (w.2.getD reading 0 + delay) cb context, rfl⟩
  resume w a :=
    match W.act w.1, a with
    | .readClock, .reply (.number q) => (W.resume w.1 (.value none), w.2 ++ [q])
    | _, _ => (W.resume w.1 a, w.2)
  enter w entry := (W.enter w.1 entry, w.2)
  classOf := W.classOf

/-- The program that performs the listed acts one after the other, whatever they return. -/
def ClockProgram.scripted (acts : List (ClockAct κ ε υ)) : ClockProgram Nat κ ε υ where
  act n := acts[n]?.getD (.other ⟨.ret, rfl⟩)
  resume n _ := n + 1
  enter n _ := n + 1
  classOf _ := .exception

/-- Where a reading was taken: under which host, and after how many draws of the loop. -/
structure Reading where
  host : HostName
  draws : Nat
  deriving DecidableEq

/-- The offset of a host's clock. -/
def offsetOf (offsets : Dict HostName ℚ) (host : HostName) : ℚ := (offsets.get? host).getD 0

namespace Session

/-- What the program does next, when it is its turn. -/
def nextAct (W : ClockProgram ω κ ε υ) (s : Session π (ω × List ℚ) κ ε υ ρ) :
    Option (ClockAct κ ε υ) :=
  match s.stack, s.signal with
  | .code :: _, .run => some (W.act s.world.1)
  | _, _ => none

/-- The reading the program is about to take. -/
def taking (W : ClockProgram ω κ ε υ) (s : Session π (ω × List ℚ) κ ε υ ρ) : List Reading :=
  match s.nextAct W with
  | some .readClock => [⟨s.loop.currentHost, s.loop.choiceLog.length⟩]
  | _ => []

end Session

/-- A session and the readings its program has taken. -/
abbrev ClockSession (π ω κ ε υ ρ : Type) := Session π (ω × List ℚ) κ ε υ ρ × List Reading

section

variable (P : SchedulingPolicy π) (R : RandomSource ρ) (W : ClockProgram ω κ ε υ)

/-- The next state. -/
def ClockSession.tick (x : ClockSession π ω κ ε υ ρ) : ClockSession π ω κ ε υ ρ :=
  (x.1.tick P R W.workload, x.2 ++ x.1.taking W)

/-- A new loop on which the clocks of hosts are off. -/
def LoopState.skewed (policy : π) (seed : Int) (offsets : Dict HostName ℚ) :
    LoopState π κ ε ρ :=
  { LoopState.fresh R policy seed with clockOffsets := offsets }

/-- The `n`-th state of a program run with the given offsets. -/
def clockRun (policy : π) (seed : Int) (world : ω) (offsets : Dict HostName ℚ) :
    Nat → ClockSession π ω κ ε υ ρ
  | 0 => (.start (.skewed R policy seed offsets) (world, []), [])
  | n + 1 => ClockSession.tick P R W (clockRun policy seed world offsets n)

end

/-- A sum the program hands to `call_at` is of a reading that meets `G`. -/
def ClockSession.CallsAtBy (W : ClockProgram ω κ ε υ)
    (G : Session π (ω × List ℚ) κ ε υ ρ → Reading → Prop) (x : ClockSession π ω κ ε υ ρ) : Prop :=
  ∀ k delay cb context, x.1.nextAct W = some (.callAt k delay cb context) →
    ∃ r, x.2[k]? = some r ∧ G x.1 r

/-- The reading was taken in the step that is running. -/
def sameStep (s : Session π (ω × List ℚ) κ ε υ ρ) (r : Reading) : Prop :=
  r.draws = s.loop.choiceLog.length

/-- The reading was taken under the host that is running. -/
def sameHost (s : Session π (ω × List ℚ) κ ε υ ρ) (r : Reading) : Prop :=
  r.host = s.loop.currentHost

/-! ## What handles advertise -/

/-- The timer's handle advertises its true deadline plus the offset of the host that
scheduled it. -/
def Advertised (offsets : Dict HostName ℚ) (events : List TraceEvent) (t : TimerEntry κ) : Prop :=
  (∃ e ∈ events, e.kind = .schedule ∧ e.seq = t.seq) ∧
    ∀ e ∈ events, e.kind = .schedule → e.seq = t.seq → t.shown = t.when_ + offsetOf offsets e.host

/-! ## Levelling a loop -/

/-- The timer with its true deadline on show. -/
def TimerEntry.level (t : TimerEntry κ) : TimerEntry κ := { t with shown := t.when_ }

theorem heappush_level (t : TimerEntry κ) (l : List (TimerEntry κ)) :
    heappush t.level (l.map TimerEntry.level) = (heappush t l).map TimerEntry.level := by
  induction l with
  | nil => rfl
  | cons u rest ih =>
      have hbefore : t.level.before u.level ↔ t.before u := Iff.rfl
      simp only [heappush, List.map_cons, List.orderedInsert_cons] at ih ⊢
      by_cases h : t.before u
      · rw [if_pos (hbefore.mpr h), if_pos h]
        rfl
      · rw [if_neg (mt hbefore.mp h), if_neg h, ih]
        rfl

namespace LoopState

/-- The loop as it would be if every clock were right. -/
def level (s : LoopState π κ ε ρ) : LoopState π κ ε ρ :=
  { s with clockOffsets := Dict.empty, timers := s.timers.map TimerEntry.level }

@[simp] theorem offsetNow_level (s : LoopState π κ ε ρ) : s.level.offsetNow = 0 := by
  simp [offsetNow, level]

theorem dropCancelled_level (l : List (TimerEntry κ)) (s : LoopState π κ ε ρ) :
    dropCancelled (l.map TimerEntry.level) s.level = (dropCancelled l s).level := by
  induction l generalizing s with
  | nil => rfl
  | cons t rest ih =>
      rw [List.map_cons]
      unfold dropCancelled
      by_cases hc : s.isCancelled t.seq
      · rw [if_pos hc, if_pos (show s.level.isCancelled t.level.seq from hc)]
        exact ih (s.record .cancel t.seq t.label (s.hostOf t.context))
      · rw [if_neg hc, if_neg (show ¬ s.level.isCancelled t.level.seq from hc)]
        rfl

theorem collectDue_level (l : List (TimerEntry κ)) (s : LoopState π κ ε ρ) :
    collectDue (l.map TimerEntry.level) s.level = (collectDue l s).level := by
  induction l generalizing s with
  | nil => rfl
  | cons t rest ih =>
      rw [List.map_cons]
      unfold collectDue
      by_cases hd : t.when_ ≤ s.now
      · rw [if_pos hd, if_pos (show t.level.when_ ≤ s.level.now from hd)]
        by_cases hc : s.isCancelled t.seq
        · rw [if_pos hc, if_pos (show s.level.isCancelled t.level.seq from hc)]
          exact ih (s.record .cancel t.seq t.label (s.hostOf t.context))
        · rw [if_neg hc, if_neg (show ¬ s.level.isCancelled t.level.seq from hc)]
          exact ih { s with ready := s.ready ++ [t.due] }
      · rw [if_neg hd, if_neg (show ¬ t.level.when_ ≤ s.level.now from hd)]
        rfl

theorem advanceClock_level (s : LoopState π κ ε ρ) :
    s.level.advanceClock = (s.advanceClock.1, s.advanceClock.2.level) := by
  have hdrop : dropCancelled s.level.timers s.level = (dropCancelled s.timers s).level :=
    dropCancelled_level s.timers s
  cases htimers : (dropCancelled s.timers s).timers with
  | nil =>
      have hlevel : (dropCancelled s.level.timers s.level).timers = [] := by
        rw [hdrop, level, htimers]
        rfl
      simp only [advanceClock, htimers, hlevel]
      exact Prod.ext rfl hdrop
  | cons t rest =>
      have hlevel : (dropCancelled s.level.timers s.level).timers =
          t.level :: rest.map TimerEntry.level := by
        rw [hdrop, level, htimers]
        rfl
      rw [advanceClock_eq htimers, advanceClock_eq hlevel, hdrop]
      exact Prod.ext rfl (collectDue_level (t :: rest)
        ((dropCancelled s.timers s).moveTo (max (dropCancelled s.timers s).now t.when_)))

theorem pop_level (s : LoopState π κ ε ρ) (i : Nat) :
    s.level.pop i = ((s.pop i).1, (s.pop i).2.level) := by
  cases hi : s.ready[i]? with
  | none =>
      rw [pop_eq_of_none hi, pop_eq_of_none (s := s.level) hi]
      rfl
  | some e =>
      rw [pop_eq_of_some hi, pop_eq_of_some (s := s.level) hi]
      rfl

theorem draw_level (P : SchedulingPolicy π) (s : LoopState π κ ε ρ) :
    s.level.draw P = ((s.draw P).1, (s.draw P).2.level) := by
  unfold draw
  rw [show s.level.policy = s.policy from rfl, show s.level.readyViews = s.readyViews from rfl]
  rcases P.choose s.policy s.readyViews with ⟨e | index, p⟩
  · rfl
  · dsimp only
    split
    · rfl
    · split
      · rfl
      · exact pop_level { s with policy := p } index.toNat

/-- **A step does not look at the offsets, nor at what timers advertise.** -/
theorem step_level (P : SchedulingPolicy π) (s : LoopState π κ ε ρ) :
    s.level.step P = ((s.step P).1, (s.step P).2.level) := by
  unfold step
  rw [show s.level.ready = s.ready from rfl, advanceClock_level]
  split
  · rcases s.advanceClock with ⟨_ | e, t⟩
    · exact draw_level P t
    · rfl
  · exact draw_level P s

theorem callSoon_level (s : LoopState π κ ε ρ) (cb : Callback κ) (context : Option ContextId) :
    s.level.callSoon cb context = ((s.callSoon cb context).1, (s.callSoon cb context).2.level) := by
  unfold callSoon
  by_cases hc : s.closed
  · rw [if_pos hc, if_pos (show s.level.closed from hc)]
  · rw [if_neg hc, if_neg (show ¬ s.level.closed from hc)]
    cases context <;> rfl

theorem callAtTrue_level (s : LoopState π κ ε ρ) (when_ shown : ℚ) (cb : Callback κ)
    (context : Option ContextId) :
    s.level.callAtTrue when_ when_ cb context =
      ((s.callAtTrue when_ shown cb context).1, (s.callAtTrue when_ shown cb context).2.level) := by
  unfold callAtTrue
  by_cases hc : s.closed
  · rw [if_pos hc, if_pos (show s.level.closed from hc)]
  · rw [if_neg hc, if_neg (show ¬ s.level.closed from hc)]
    have hpush := fun context => heappush_level
      (TimerEntry.mk when_ s.nextSeq cb.label context shown cb) s.timers
    cases context with
    | none =>
        refine Prod.ext rfl ?_
        simp only [handleContext, copyContext, level, record, currentHost, hostOf]
        rw [← hpush]
        rfl
    | some context =>
        refine Prod.ext rfl ?_
        simp only [handleContext, level, record, currentHost, hostOf]
        rw [← hpush]
        rfl

theorem callLater_level (s : LoopState π κ ε ρ) (delay : ℚ) (cb : Callback κ)
    (context : Option ContextId) :
    s.level.callLater delay cb context =
      ((s.callLater delay cb context).1, (s.callLater delay cb context).2.level) := by
  unfold callLater
  rw [offsetNow_level, add_zero]
  exact callAtTrue_level s (s.now + delay) _ cb context

/-- The deadline on the running host's clock and the true one are the same timer. -/
theorem callAt_level (s : LoopState π κ ε ρ) (when_ : ℚ) (cb : Callback κ)
    (context : Option ContextId) :
    s.level.callAt (when_ - s.offsetNow) cb context =
      ((s.callAt when_ cb context).1, (s.callAt when_ cb context).2.level) := by
  unfold callAt
  rw [offsetNow_level, sub_zero]
  exact callAtTrue_level s (when_ - s.offsetNow) _ cb context

theorem createTask_level (s : LoopState π κ ε ρ) (task : TaskId) (cb : Callback κ)
    (context : Option ContextId) :
    s.level.createTask task cb context =
      ((s.createTask task cb context).1, (s.createTask task cb context).2.level) := by
  simp only [createTask, callSoon_level]
  rcases s.callSoon cb context with ⟨_ | _, _⟩ <;> rfl

/-- **A call that has nothing to do with clocks is answered the same on the levelled loop.** -/
theorem perform_level (P : SchedulingPolicy π) (R : RandomSource ρ) (s : LoopState π κ ε ρ)
    {op : Op κ ε} (h : op.isClock = false) :
    s.level.perform P R op = ((s.perform P R op).1, (s.perform P R op).2.level) := by
  cases op with
  | time | callAt | setClock => cases h
  | step => simp only [perform, step_level]
  | callSoon cb context => simp only [perform, callSoon_level]
  | callLater delay cb context => simp only [perform, callLater_level]
  | createTask task cb context => simp only [perform, createTask_level]
  | cancel seq =>
      simp only [perform, cancel]
      rw [show s.level.nextSeq = s.nextSeq from rfl]
      split <;> rfl
  | enterRun =>
      simp only [perform, enterRun]
      rw [show s.level.closed = s.closed from rfl, show s.level.running = s.running from rfl]
      split
      · rfl
      · split <;> rfl
  | close =>
      simp only [perform, close]
      rw [show s.level.running = s.running from rfl]
      split <;> rfl
  | draw st d => cases st <;> rfl
  | _ => rfl

end LoopState

/-! ## Handles say what the clock of their host will read -/

/-- From `s` to `t` nothing is booked: no number is given out, no timer comes, and what is
recorded announces nothing. -/
structure Idle (s t : LoopState π κ ε ρ) : Prop where
  offsets : t.clockOffsets = s.clockOffsets
  nextSeq : t.nextSeq = s.nextSeq
  timers : ∀ timer ∈ t.timers, timer ∈ s.timers
  events : ∃ new, t.recorder.events = s.recorder.events ++ new ∧ ∀ e ∈ new, e.kind ≠ .schedule

namespace Idle

variable {s t u : LoopState π κ ε ρ}

theorem of_eq (hoffsets : t.clockOffsets = s.clockOffsets) (hseq : t.nextSeq = s.nextSeq)
    (htimers : t.timers = s.timers) (hrecorder : t.recorder = s.recorder) : Idle s t :=
  ⟨hoffsets, hseq, fun _ h => htimers ▸ h, [], by rw [hrecorder, List.append_nil], by simp⟩

theorem trans (h : Idle s t) (h' : Idle t u) : Idle s u := by
  obtain ⟨new, hnew, hkinds⟩ := h.events
  obtain ⟨new', hnew', hkinds'⟩ := h'.events
  refine ⟨h'.offsets.trans h.offsets, h'.nextSeq.trans h.nextSeq,
    fun timer ht => h.timers timer (h'.timers timer ht), new ++ new', ?_, fun e he => ?_⟩
  · rw [hnew', hnew, List.append_assoc]
  · exact (List.mem_append.mp he).elim (hkinds e) (hkinds' e)

theorem record (s : LoopState π κ ε ρ) {kind : EventKind} (hkind : kind ≠ .schedule) (seq : Int)
    (label : String) (host : HostName) : Idle s (s.record kind seq label host) := by
  refine ⟨rfl, rfl, fun _ h => h, [⟨kind, s.now, seq, label, host⟩], rfl, fun e he => ?_⟩
  rw [List.mem_singleton.mp he]
  exact hkind

theorem dropCancelled (l : List (TimerEntry κ)) (s : LoopState π κ ε ρ)
    (hl : ∀ t ∈ l, t ∈ s.timers) : Idle s (LoopState.dropCancelled l s) := by
  induction l generalizing s with
  | nil =>
      refine ⟨rfl, rfl, fun _ h => absurd h List.not_mem_nil, [], ?_, by simp⟩
      simp [LoopState.dropCancelled]
  | cons t rest ih =>
      unfold LoopState.dropCancelled
      split
      · exact (record s (by simp) t.seq t.label (s.hostOf t.context)).trans
          (ih _ fun u hu => hl u (List.mem_cons_of_mem t hu))
      · exact ⟨rfl, rfl, hl, [], by simp, by simp⟩

theorem collectDue (l : List (TimerEntry κ)) (s : LoopState π κ ε ρ)
    (hl : ∀ t ∈ l, t ∈ s.timers) : Idle s (LoopState.collectDue l s) := by
  induction l generalizing s with
  | nil =>
      refine ⟨rfl, rfl, fun _ h => absurd h List.not_mem_nil, [], ?_, by simp⟩
      simp [LoopState.collectDue]
  | cons t rest ih =>
      unfold LoopState.collectDue
      have hrest : ∀ u ∈ rest, u ∈ s.timers := fun u hu => hl u (List.mem_cons_of_mem t hu)
      split
      · split
        · exact (record s (by simp) t.seq t.label (s.hostOf t.context)).trans (ih _ hrest)
        · have hready : Idle s { s with ready := s.ready ++ [t.due] } := .of_eq rfl rfl rfl rfl
          exact hready.trans (ih _ hrest)
      · exact ⟨rfl, rfl, hl, [], by simp, by simp⟩

theorem advanceClock (s : LoopState π κ ε ρ) : Idle s s.advanceClock.2 := by
  have hdrop := dropCancelled s.timers s fun _ h => h
  cases htimers : (LoopState.dropCancelled s.timers s).timers with
  | nil =>
      simp only [LoopState.advanceClock, htimers]
      exact hdrop
  | cons t rest =>
      rw [LoopState.advanceClock_eq htimers]
      refine hdrop.trans (trans (t := LoopState.moveTo _ _) ?_ (collectDue _ _ fun u hu => ?_))
      · exact ⟨rfl, rfl, fun _ h => h, [_], rfl, by simp⟩
      · exact htimers ▸ hu

theorem draw (P : SchedulingPolicy π) (s : LoopState π κ ε ρ) : Idle s (s.draw P).2 := by
  obtain ⟨e, p, log, h⟩ | ⟨i, e, p, -, -, -, h⟩ := s.draw_cases P
  · rw [h]
    exact .of_eq rfl rfl rfl rfl
  · rw [h]
    refine ⟨rfl, rfl, fun _ h => h, [_], rfl, fun e he => ?_⟩
    rw [List.mem_singleton.mp he]
    dsimp only
    split <;> simp

theorem step (P : SchedulingPolicy π) (s : LoopState π κ ε ρ) : Idle s (s.step P).2 := by
  have hadvance := advanceClock s
  unfold LoopState.step
  split
  · revert hadvance
    rcases s.advanceClock with ⟨_ | e, t⟩
    · exact fun h => h.trans (draw P t)
    · exact id
  · exact draw P s

end Idle

/-- No number is announced twice, and every timer's handle is honest. -/
structure Honest (offsets : Dict HostName ℚ) (s : LoopState π κ ε ρ) : Prop where
  fixed : s.clockOffsets = offsets
  announced : ∀ e ∈ s.recorder.events, e.kind = .schedule → e.seq < s.nextSeq
  timers : ∀ t ∈ s.timers, t.seq < s.nextSeq ∧ Advertised offsets s.recorder.events t

namespace Honest

variable {offsets : Dict HostName ℚ} {s t : LoopState π κ ε ρ}

theorem idle (h : Honest offsets s) (hidle : Idle s t) : Honest offsets t := by
  obtain ⟨new, hnew, hkinds⟩ := hidle.events
  refine ⟨hidle.offsets.trans h.fixed, fun e he hkind => ?_, fun timer ht => ?_⟩
  · rw [hnew] at he
    rw [hidle.nextSeq]
    exact (List.mem_append.mp he).elim (fun he => h.announced e he hkind)
      fun he => absurd hkind (hkinds e he)
  · obtain ⟨hlt, ⟨e, he, hkind, hseq⟩, hall⟩ := h.timers timer (hidle.timers timer ht)
    rw [hnew, hidle.nextSeq]
    refine ⟨hlt, ⟨e, List.mem_append_left _ he, hkind, hseq⟩, fun e he hkind hseq => ?_⟩
    exact (List.mem_append.mp he).elim (fun he => hall e he hkind hseq)
      fun he => absurd hkind (hkinds e he)

/-- The next number is announced under a host, perhaps for a timer whose handle is honest. -/
theorem book (h : Honest offsets s) {label : String} {host : HostName}
    (hoffsets : t.clockOffsets = s.clockOffsets) (hseq : t.nextSeq = s.nextSeq + 1)
    (hevents : t.recorder.events =
      s.recorder.events ++ [⟨.schedule, s.now, s.nextSeq, label, host⟩])
    (htimers : ∀ timer ∈ t.timers, timer ∈ s.timers ∨
      timer.seq = s.nextSeq ∧ timer.shown = timer.when_ + offsetOf offsets host) :
    Honest offsets t := by
  refine ⟨hoffsets.trans h.fixed, fun e he hkind => ?_, fun timer ht => ?_⟩
  · rw [hevents] at he
    rcases List.mem_append.mp he with he | he
    · have := h.announced e he hkind
      omega
    · rw [List.mem_singleton.mp he]
      dsimp only
      omega
  · rw [hevents]
    rcases htimers timer ht with hold | ⟨hnew, hshown⟩
    · obtain ⟨hlt, ⟨e, he, hkind, heq⟩, hall⟩ := h.timers timer hold
      refine ⟨by omega, ⟨e, List.mem_append_left _ he, hkind, heq⟩, fun e he hkind heq => ?_⟩
      rcases List.mem_append.mp he with he | he
      · exact hall e he hkind heq
      · rw [List.mem_singleton.mp he] at heq
        dsimp only at heq
        omega
    · refine ⟨by omega, ⟨_, List.mem_append_right _ List.mem_cons_self, rfl, ?_⟩,
        fun e he hkind heq => ?_⟩
      · exact congrArg Nat.cast hnew.symm
      · rcases List.mem_append.mp he with he | he
        · have := h.announced e he hkind
          omega
        · rw [List.mem_singleton.mp he]
          exact hshown

theorem callSoon (h : Honest offsets s) (cb : Callback κ) (context : Option ContextId) :
    Honest offsets (s.callSoon cb context).2 := by
  unfold LoopState.callSoon
  split
  · exact h
  · cases context with
    | none => exact h.book rfl rfl rfl fun _ ht => .inl ht
    | some c => exact h.book rfl rfl rfl fun _ ht => .inl ht

/-- Copying the current context changes no one's host. -/
theorem currentHost_copyContext (s : LoopState π κ ε ρ) :
    s.copyContext.2.currentHost = s.currentHost := by
  unfold LoopState.currentHost LoopState.hostOf LoopState.copyContext
  cases hget : s.contexts.get? s.current with
  | none => simp only [hget]
  | some host =>
      simp only
      rw [Dict.get?_insert]
      split <;> simp only [hget]

theorem callAtTrue (h : Honest offsets s) {when_ shown : ℚ} (hshown : shown = when_ + s.offsetNow)
    (cb : Callback κ) (context : Option ContextId) :
    Honest offsets (s.callAtTrue when_ shown cb context).2 := by
  have hnow : s.offsetNow = offsetOf offsets s.currentHost := by
    rw [LoopState.offsetNow, h.fixed]
    rfl
  unfold LoopState.callAtTrue
  split
  · exact h
  · cases context with
    | none =>
        refine h.book rfl rfl rfl fun timer ht => (Agenda.mem_heappush.mp ht).elim (fun hnew => ?_) .inl
        rw [hnew]
        refine .inr ⟨rfl, ?_⟩
        exact hshown.trans (congrArg (when_ + ·)
          (hnow.trans (congrArg (offsetOf offsets) (currentHost_copyContext s).symm)))
    | some c =>
        refine h.book rfl rfl rfl fun timer ht => (Agenda.mem_heappush.mp ht).elim (fun hnew => ?_) .inl
        rw [hnew]
        exact .inr ⟨rfl, hshown.trans (congrArg (when_ + ·) hnow)⟩

/-- **No call but `set_clock` breaks the honesty of handles.** -/
theorem perform (h : Honest offsets s) (P : SchedulingPolicy π) (R : RandomSource ρ) {op : Op κ ε}
    (hop : ∀ host q, op ≠ .setClock host q) : Honest offsets (s.perform P R op).2 := by
  cases op with
  | setClock host q => exact absurd rfl (hop host q)
  | callSoon cb context => exact h.callSoon cb context
  | callLater delay cb context => exact h.callAtTrue rfl cb context
  | callAt when_ cb context => exact h.callAtTrue (sub_add_cancel _ _).symm cb context
  | createTask task cb context =>
      have hsoon := h.callSoon cb context
      simp only [LoopState.perform, LoopState.createTask]
      revert hsoon
      rcases s.callSoon cb context with ⟨_ | _, t⟩
      · exact id
      · exact fun ht => ht.idle (.of_eq rfl rfl rfl rfl)
  | cancel seq =>
      simp only [LoopState.perform, LoopState.cancel]
      split
      · exact h.idle (.of_eq rfl rfl rfl rfl)
      · exact h
  | step => exact h.idle (Idle.step P s)
  | enterRun =>
      simp only [LoopState.perform, LoopState.enterRun]
      split
      · exact h
      · split
        · exact h
        · exact h.idle (.of_eq rfl rfl rfl rfl)
  | close =>
      simp only [LoopState.perform, LoopState.close]
      split
      · exact h
      · exact h.idle (.of_eq rfl rfl rfl rfl)
  | trace uid label => exact h.idle (Idle.record s (by simp) uid label "")
  | draw st d =>
      cases st <;> exact h.idle (.of_eq rfl rfl rfl rfl)
  | _ => exact h.idle (.of_eq rfl rfl rfl rfl)

end Honest

/-! ## A tick of a levelled session -/

/-- A state of the program with the readings it would hold if every clock were right. -/
def levelReadings (offsets : Dict HostName ℚ) (taken : List Reading) (w : ω × List ℚ) :
    ω × List ℚ :=
  (w.1, List.zipWith (fun q r => q - offsetOf offsets r.host) w.2 taken)

namespace ClockSession

/-- The session as it would be if every clock were right. -/
def level (offsets : Dict HostName ℚ) (x : ClockSession π ω κ ε υ ρ) : ClockSession π ω κ ε υ ρ :=
  (x.1.recast LoopState.level (levelReadings offsets x.2), x.2)

end ClockSession

theorem unseen_level (P : SchedulingPolicy π) (R : RandomSource ρ) :
    Unseen P R (LoopState.level : LoopState π (Body κ) ε ρ → LoopState π (Body κ) ε ρ)
      (fun o => o.isClock = false) where
  perform s _ h := LoopState.perform_level P R s h
  internal o h := by cases o <;> first | rfl | cases h
  ready _ := rfl
  timers s := List.isEmpty_map
  stopping _ := rfl
  unhandled _ := rfl
  exceptionHandler _ := rfl
  current _ := rfl

theorem unseen_id (P : SchedulingPolicy π) (R : RandomSource ρ) :
    Unseen P R (id : LoopState π (Body κ) ε ρ → LoopState π (Body κ) ε ρ) (fun _ => True) :=
  ⟨fun _ _ _ => rfl, fun _ _ => trivial, fun _ => rfl, fun _ => rfl, fun _ => rfl, fun _ => rfl,
    fun _ => rfl, fun _ => rfl⟩

section

variable {P : SchedulingPolicy π} {R : RandomSource ρ} {W : ClockProgram ω κ ε υ}

theorem ClockProgram.act_of_other {w : ω × List ℚ} {a : { a : Act κ ε υ // a.isClock = false }}
    (h : W.act w.1 = .other a) : W.workload.act w = a.1 := by
  simp only [workload, h]

theorem ClockProgram.resume_of_other {w : ω × List ℚ}
    {a : { a : Act κ ε υ // a.isClock = false }} (h : W.act w.1 = .other a)
    (answer : Answer κ ε υ) : W.workload.resume w answer = (W.resume w.1 answer, w.2) := by
  simp only [workload, h]

theorem ClockProgram.resume_of_direct (w : ω × List ℚ) {answer : Answer κ ε υ}
    (h : answer.isDirect = true) : W.workload.resume w answer = (W.resume w.1 answer, w.2) := by
  cases answer with
  | reply r => cases h
  | _ => cases hact : W.act w.1 <;> simp only [workload, hact]

/-- A program takes no notice of its readings. -/
theorem unnoticed_readings (g : List ℚ → List ℚ) :
    Unnoticed W.workload (fun w : ω × List ℚ => (w.1, g w.2)) where
  enter _ _ := rfl
  resume w a h := by
    rw [ClockProgram.resume_of_direct w h, ClockProgram.resume_of_direct _ h]

theorem alike_readings (g : List ℚ → List ℚ) {w : ω × List ℚ}
    {a : { a : Act κ ε υ // a.isClock = false }} (h : W.act w.1 = .other a) :
    Alike W.workload (fun w : ω × List ℚ => (w.1, g w.2)) (fun o => o.isClock = false) w where
  act := (ClockProgram.act_of_other (w := (w.1, g w.2)) h).trans (ClockProgram.act_of_other h).symm
  allowed o ho := by
    have hcall : a.1 = .call o := (ClockProgram.act_of_other h).symm.trans ho
    have hclock := a.2
    rw [hcall] at hclock
    exact hclock
  resume o r _ := by
    rw [ClockProgram.resume_of_other h, ClockProgram.resume_of_other (w := (w.1, g w.2)) h]

namespace Session

variable {s : Session π (ω × List ℚ) κ ε υ ρ}

theorem nextAct_of_code {rest : List (Frame ε)} (hstack : s.stack = .code :: rest)
    (hsignal : s.signal = .run) : s.nextAct W = some (W.act s.world.1) := by
  unfold nextAct
  rw [hstack, hsignal]

theorem nextAct_eq_some {act : ClockAct κ ε υ} (h : s.nextAct W = some act) :
    ∃ rest, s.stack = .code :: rest ∧ s.signal = .run ∧ W.act s.world.1 = act := by
  unfold nextAct at h
  split at h
  · rename_i rest hstack hsignal
    exact ⟨rest, hstack, hsignal, Option.some.inj h⟩
  · cases h

theorem tick_of_act {act : ClockAct κ ε υ} (h : s.nextAct W = some act) :
    ∃ rest, s.tick P R W.workload = s.doAct P R W.workload rest := by
  obtain ⟨rest, hstack, hsignal, -⟩ := nextAct_eq_some h
  exact ⟨rest, tick_of_code hstack hsignal⟩

theorem tick_of_readClock (h : s.nextAct W = some .readClock) :
    s.tick P R W.workload =
      { s with
        world := (W.resume s.world.1 (.value none), s.world.2 ++ [s.loop.time])
        signal := .run } := by
  obtain ⟨-, -, -, hact⟩ := nextAct_eq_some h
  obtain ⟨rest, htick⟩ := tick_of_act (P := P) (R := R) h
  have hcall : W.workload.act s.world = .call ⟨.time, rfl⟩ := by
    simp only [ClockProgram.workload, hact]
  rw [htick, doAct, hcall]
  simp only [op, LoopState.perform, answer, ClockProgram.workload, hact]

theorem tick_of_callAt {k : Nat} {delay : ℚ} {cb : Callback (Body κ)} {context : Option ContextId}
    (h : s.nextAct W = some (.callAt k delay cb context)) :
    s.tick P R W.workload =
      { s with
        loop := (s.loop.callAt (s.world.2.getD k 0 + delay) cb context).2
        world := (W.resume s.world.1
          (.reply (.ofHandle (s.loop.callAt (s.world.2.getD k 0 + delay) cb context).1)), s.world.2)
        signal := .run } := by
  obtain ⟨-, -, -, hact⟩ := nextAct_eq_some h
  obtain ⟨rest, htick⟩ := tick_of_act (P := P) (R := R) h
  have hcall : W.workload.act s.world =
      .call ⟨.callAt (s.world.2.getD k 0 + delay) cb context, rfl⟩ := by
    simp only [ClockProgram.workload, hact]
  rw [htick, doAct, hcall]
  simp only [op, LoopState.perform, answer, ClockProgram.workload, hact]

/-- The clock readings a tick takes and uses. -/
theorem nextAct_cases (W : ClockProgram ω κ ε υ) (s : Session π (ω × List ℚ) κ ε υ ρ) :
    ((∀ act, s.nextAct W = some act → ∃ a, act = .other a) ∧ s.taking W = []) ∨
      (s.nextAct W = some .readClock ∧
        s.taking W = [⟨s.loop.currentHost, s.loop.choiceLog.length⟩]) ∨
      ∃ k delay cb context,
        s.nextAct W = some (.callAt k delay cb context) ∧ s.taking W = [] := by
  unfold taking
  cases hact : s.nextAct W with
  | none => exact .inl ⟨(fun _ h => by cases h), rfl⟩
  | some act =>
      cases act with
      | other a => exact .inl ⟨fun _ h => ⟨a, (Option.some.inj h).symm⟩, rfl⟩
      | readClock => exact .inr (.inl ⟨rfl, rfl⟩)
      | callAt k delay cb context => exact .inr (.inr ⟨k, delay, cb, context, rfl, rfl⟩)

/-- A tick that neither reads the clock nor uses a reading leaves the readings alone. -/
theorem readings_tick (h : ∀ act, s.nextAct W = some act → ∃ a, act = .other a) :
    (s.tick P R W.workload).world.2 = s.world.2 := by
  -- The program would not notice if these readings replaced those it holds afterwards.
  have hcommute : s.tick P R W.workload =
      (s.tick P R W.workload).recast id fun w => (w.1, s.world.2) :=
    tick_recast (unseen_id P R) (unnoticed_readings (W := W) fun _ => s.world.2) s rfl
      fun rest hstack hsignal => by
        obtain ⟨a, ha⟩ := h _ (nextAct_of_code hstack hsignal)
        have halike := alike_readings (fun _ => s.world.2) ha
        exact ⟨halike.act, fun _ _ => trivial, halike.resume⟩
  have hreadings := congrArg (fun t : Session π (ω × List ℚ) κ ε υ ρ => t.world.2) hcommute
  exact hreadings

end Session

namespace ClockSession

variable {offsets : Dict HostName ℚ} {x : ClockSession π ω κ ε υ ρ}

/-- **A tick commutes with levelling**, when a reading that is used is of the clock of the
host that is running. -/
theorem tick_level (hfixed : x.1.loop.clockOffsets = offsets)
    (hlen : x.1.world.2.length = x.2.length) (hown : x.CallsAtBy W sameHost) :
    (x.tick P R W).level offsets = (x.level offsets).tick P R W := by
  have hoffset : x.1.loop.offsetNow = offsetOf offsets x.1.loop.currentHost := by
    rw [LoopState.offsetNow, hfixed]
    rfl
  have hnext : (x.level offsets).1.nextAct W = x.1.nextAct W := rfl
  rw [tick, tick, show (x.level offsets).1.taking W = x.1.taking W from rfl]
  obtain ⟨hact, htaking⟩ | ⟨hact, htaking⟩ | ⟨k, delay, cb, context, hact, htaking⟩ :=
    Session.nextAct_cases W x.1
  · rw [htaking, List.append_nil]
    refine Prod.ext ?_ (List.append_nil x.2).symm
    let g : List ℚ → List ℚ := fun qs =>
      List.zipWith (fun q r => q - offsetOf offsets r.host) qs x.2
    exact (Session.tick_recast (unseen_level P R) (unnoticed_readings (W := W) g) x.1
      (LoopState.step_level P x.1.loop) fun rest hstack hsignal => by
        obtain ⟨a, ha⟩ := hact _ (Session.nextAct_of_code hstack hsignal)
        exact alike_readings g ha).symm
  · rw [htaking, Session.tick_of_readClock hact, Session.tick_of_readClock (hnext.trans hact)]
    refine Prod.ext ?_ rfl
    -- The reading, less the offset of the host it was taken under, is the true time.
    have htime : x.1.loop.time - offsetOf offsets x.1.loop.currentHost =
        x.1.loop.level.time := by
      rw [LoopState.time, LoopState.time, LoopState.offsetNow_level, hoffset,
        add_sub_cancel_right, add_zero]
      rfl
    simp only [level, Session.recast, levelReadings, List.zipWith_append hlen,
      List.zipWith_cons_cons, List.zipWith_nil_left, htime]
  · obtain ⟨r, hr, hhost⟩ := hown k delay cb context hact
    rw [htaking, Session.tick_of_callAt hact, Session.tick_of_callAt (hnext.trans hact)]
    -- The reading is of this host's clock, so its offset goes out of the deadline.
    have hreading : (x.level offsets).1.world.2.getD k 0 + delay =
        x.1.world.2.getD k 0 + delay - x.1.loop.offsetNow := by
      have hk : k < x.2.length := (List.getElem?_eq_some_iff.mp hr).1
      have hq : x.1.world.2[k]? = some (x.1.world.2.get ⟨k, hlen ▸ hk⟩) :=
        List.getElem?_eq_getElem (hlen ▸ hk)
      rw [hoffset, ← show r.host = x.1.loop.currentHost from hhost]
      simp only [level, Session.recast, levelReadings, List.getD_eq_getElem?_getD,
        List.getElem?_zipWith, hr, hq, Option.getD_some]
      exact sub_add_eq_add_sub _ _ _
    rw [hreading, show (x.level offsets).1.loop = x.1.loop.level from rfl,
      LoopState.callAt_level]
    refine Prod.ext ?_ rfl
    simp only [level, Session.recast, levelReadings, List.append_nil]

theorem length_tick (hlen : x.1.world.2.length = x.2.length) :
    (x.tick P R W).1.world.2.length = (x.tick P R W).2.length := by
  obtain ⟨hact, htaking⟩ | ⟨hact, htaking⟩ | ⟨k, delay, cb, context, hact, htaking⟩ :=
    Session.nextAct_cases W x.1
  · rw [tick, htaking, List.append_nil, Session.readings_tick hact]
    exact hlen
  · rw [tick, htaking, Session.tick_of_readClock hact]
    simp [hlen]
  · rw [tick, htaking, Session.tick_of_callAt hact]
    simp [hlen]

theorem honest_tick (h : Honest offsets x.1.loop) : Honest offsets (x.tick P R W).1.loop := by
  have hcalls : Session.CallsIn P R (fun o => ∀ host q, o ≠ .setClock host q) x.1
      (x.tick P R W).1 := by
    refine Session.callsIn_tick (fun o ho => ?_) x.1 (by simp) fun o ho => ?_
    · rintro host q rfl
      cases ho
    · rintro host q hset
      cases hact : W.act x.1.world.1 with
      | other a =>
          have hclock := a.2
          rw [ClockProgram.act_of_other hact] at ho
          rw [ho, Act.isClock, hset] at hclock
          cases hclock
      | readClock =>
          simp only [ClockProgram.workload, hact, Act.call.injEq] at ho
          rw [← ho] at hset
          cases hset
      | callAt k delay cb context =>
          simp only [ClockProgram.workload, hact, Act.call.injEq] at ho
          rw [← ho] at hset
          cases hset
  exact hcalls.keeps (fun u o ho hu => hu.perform P R ho) h

end ClockSession

/-! ## Two runs -/

variable {policy : π} {seed : Int} {world : ω} {offsets : Dict HostName ℚ}

/-- In every state of a run handles are honest, and a reading was recorded for each the
program holds. -/
theorem kept_clockRun (n : Nat) :
    Honest offsets (clockRun P R W policy seed world offsets n).1.loop ∧
      (clockRun P R W policy seed world offsets n).1.world.2.length =
        (clockRun P R W policy seed world offsets n).2.length := by
  induction n with
  | zero =>
      exact ⟨⟨rfl, fun _ h => absurd h List.not_mem_nil, fun _ h => absurd h List.not_mem_nil⟩, rfl⟩
  | succ n ih => exact ⟨ClockSession.honest_tick ih.1, ClockSession.length_tick ih.2⟩

/-- **A run and its levelled run stay in lock step**, as long as every reading is used under
the host whose clock it is of. -/
theorem level_clockRun
    (hown : ∀ n, (clockRun P R W policy seed world offsets n).level offsets =
        clockRun P R W policy seed world Dict.empty n →
      (clockRun P R W policy seed world offsets n).CallsAtBy W sameHost) (n : Nat) :
    (clockRun P R W policy seed world offsets n).level offsets =
      clockRun P R W policy seed world Dict.empty n := by
  induction n with
  | zero => rfl
  | succ n ih =>
      have hkept : Honest offsets (clockRun P R W policy seed world offsets n).1.loop ∧
          (clockRun P R W policy seed world offsets n).1.world.2.length =
            (clockRun P R W policy seed world offsets n).2.length := kept_clockRun n
      exact (ClockSession.tick_level hkept.1.fixed hkept.2 (hown n ih)).trans
        (congrArg (ClockSession.tick P R W) ih)

end

/-- **Clock skew does not touch the schedule.**  Let a program use a clock reading only by
adding a duration to it and handing the sum to `call_at` under the host whose clock it read,
in the same step or a later one.  Whatever offsets the clocks of the hosts are given before
the run, the run draws the same entries, has the same true clock and records the same trace
after every tick; and every handle advertises the true deadline of its timer plus the offset
of the host that scheduled it. -/
theorem schedule_ignores_offsets (P : SchedulingPolicy π) (R : RandomSource ρ)
    (W : ClockProgram ω κ ε υ) (policy : π) (seed : Int) (world : ω)
    (offsets offsets' : Dict HostName ℚ)
    (hown : ∀ n, (clockRun P R W policy seed world offsets n).CallsAtBy W sameHost) (n : Nat) :
    let s := (clockRun P R W policy seed world offsets n).1.loop
    let t := (clockRun P R W policy seed world offsets' n).1.loop
    (s.choiceLog = t.choiceLog ∧ s.now = t.now ∧ s.recorder = t.recorder) ∧
      (∀ timer ∈ s.timers, Advertised offsets s.recorder.events timer) ∧
      ∀ timer ∈ t.timers, Advertised offsets' t.recorder.events timer := by
  have hleft : ∀ n, (clockRun P R W policy seed world offsets n).level offsets =
      clockRun P R W policy seed world Dict.empty n := level_clockRun fun n _ => hown n
  -- The other run uses its readings as the levelled run does, and that as the first does.
  have hright : ∀ n, (clockRun P R W policy seed world offsets' n).level offsets' =
      clockRun P R W policy seed world Dict.empty n := level_clockRun fun n hn => by
      have hlevelled : ((clockRun P R W policy seed world offsets n).level offsets).CallsAtBy W
          sameHost := hown n
      rw [hleft n, ← hn] at hlevelled
      exact hlevelled
  have hsame := congrArg (fun x : ClockSession π ω κ ε υ ρ => x.1.loop)
    ((hleft n).trans (hright n).symm)
  have hlog := congrArg LoopState.choiceLog hsame
  have hnow := congrArg LoopState.now hsame
  have hrecorder := congrArg LoopState.recorder hsame
  refine ⟨⟨hlog, hnow, hrecorder⟩, fun timer ht => ?_, fun timer ht => ?_⟩
  · exact ((kept_clockRun n).1.timers timer ht).2
  · exact ((kept_clockRun n).1.timers timer ht).2

/-! ## A worker whose clock is ahead -/

/-- Whether the sum the program hands to `call_at` is of a reading that meets `G`. -/
instance (W : ClockProgram ω κ ε υ) (G : Session π (ω × List ℚ) κ ε υ ρ → Reading → Prop)
    [∀ s r, Decidable (G s r)] (x : ClockSession π ω κ ε υ ρ) : Decidable (x.CallsAtBy W G) :=
  match hact : x.1.nextAct W with
  | some (.callAt k _ _ _) =>
    match hr : x.2[k]? with
    | some r => decidable_of_iff (G x.1 r) <| by
        simp only [ClockSession.CallsAtBy, hact, Option.some.injEq, ClockAct.callAt.injEq]
        constructor
        · rintro hG k' delay cb context ⟨rfl, -⟩
          exact ⟨r, hr, hG⟩
        · intro h
          obtain ⟨r', hr', hG⟩ := h k _ _ _ ⟨rfl, rfl, rfl, rfl⟩
          rw [hr] at hr'
          exact Option.some.inj hr' ▸ hG
    | none => isFalse fun h => by
        obtain ⟨r, hr', -⟩ := h _ _ _ _ hact
        rw [hr] at hr'
        cases hr'
  | some (.other _) => isTrue fun _ _ _ _ h => by rw [hact] at h; cases h
  | some .readClock => isTrue fun _ _ _ _ h => by rw [hact] at h; cases h
  | none => isTrue fun _ _ _ _ h => by rw [hact] at h; cases h

instance (s : Session π (ω × List ℚ) κ ε υ ρ) (r : Reading) : Decidable (sameHost s r) :=
  inferInstanceAs (Decidable (_ = _))

instance (s : Session π (ω × List ℚ) κ ε υ ρ) (r : Reading) : Decidable (sameStep s r) :=
  inferInstanceAs (Decidable (_ = _))

/-- A run that is over stays as it is. -/
theorem clockRun_of_over {P : SchedulingPolicy π} {R : RandomSource ρ} {W : ClockProgram ω κ ε υ}
    {policy : π} {seed : Int} {world : ω} {offsets : Dict HostName ℚ} {m : Nat}
    (hover : (clockRun P R W policy seed world offsets m).1.stack = []) {n : Nat} (hn : m ≤ n) :
    clockRun P R W policy seed world offsets n = clockRun P R W policy seed world offsets m := by
  induction n, hn using Nat.le_induction with
  | base => rfl
  | succ n _ ih =>
      have hstay : ∀ x : ClockSession π ω κ ε υ ρ, x.1.stack = [] → x.tick P R W = x := by
        intro x hx
        have htaking : x.1.taking W = [] := by
          unfold Session.taking Session.nextAct
          rw [hx]
        have htick : x.1.tick P R W.workload = x.1 := by
          unfold Session.tick Session.wantsStep Session.turn
          rw [hx]
          rfl
        rw [ClockSession.tick, htick, htaking, List.append_nil]
      rw [clockRun, ih]
      exact hstay _ hover

/-- A call of the program. -/
def ask (op : Op (Body Unit) Unit) (h : op.isPublic = true) (h' : op.isClock = false) :
    ClockAct Unit Unit Unit :=
  .other ⟨.call ⟨op, h⟩, h'⟩

/-- A callable of the program. -/
def callable (name : String) : Callback (Body Unit) := ⟨some name, "function", none, .user ()⟩

/-- What `Host("worker").create_task` comes to: a callback queued from a context pinned to the
worker. -/
def onWorker (acts : List (ClockAct Unit Unit Unit)) : List (ClockAct Unit Unit Unit) :=
  [ask .copyContext rfl rfl, ask (.enter 1) rfl rfl, ask (.setHost "worker") rfl rfl] ++ acts ++
    [ask (.enter 0) rfl rfl]

/-- The worker asks to be called a second after now, on its clock. -/
def workerTimer : ClockProgram Nat Unit Unit Unit :=
  .scripted (onWorker [.readClock, .callAt 0 1 (callable "tick") none] ++
    [.other ⟨.runForever, rfl⟩])

/-- The worker reads its clock and raises; the exception handler, which runs under the driver,
asks to be called a second after that reading, in the same step. -/
def handOver : ClockProgram Nat Unit Unit Unit :=
  .scripted (onWorker [ask (.callSoon (callable "work") none) rfl rfl] ++
    [ask (.setExceptionHandler (some (.user ()))) rfl rfl, .other ⟨.runForever, rfl⟩,
      .readClock, .other ⟨.raise (), rfl⟩, .callAt 0 1 (callable "tick") none])

theorem recordable_nil : ∀ c ∈ ([] : List Nat), c ≤ maxChoice :=
  fun _ h => absurd h List.not_mem_nil

/-- The states of a program on a new loop with the given offsets. -/
def scriptedRun (W : ClockProgram Nat Unit Unit Unit) (offsets : Dict HostName ℚ) (n : Nat) :
    ClockSession (Shipped Unit) Nat Unit Unit Unit Unit :=
  clockRun (shipped .least) .least W (.scripted ⟨[], 0, none, recordable_nil⟩) 0 0 offsets n

/-- The worker's clock is five seconds ahead. -/
def workerAhead : Dict HostName ℚ := Dict.empty.insert "worker" 5

/-- A condition that holds up to a state in which the run is over holds from there on. -/
theorem scriptedRun_all {W : ClockProgram Nat Unit Unit Unit} {offsets : Dict HostName ℚ}
    {I : ClockSession (Shipped Unit) Nat Unit Unit Unit Unit → Prop} {m : Nat}
    (hover : (scriptedRun W offsets m).1.stack = []) (h : ∀ n ≤ m, I (scriptedRun W offsets n))
    (n : Nat) : I (scriptedRun W offsets n) := by
  rcases Nat.le_total n m with hle | hge
  · exact h n hle
  · have hsame : scriptedRun W offsets n = scriptedRun W offsets m := clockRun_of_over hover hge
    exact hsame ▸ h m (le_refl m)

/-- A reading that is used in the step it was taken in, but under another host, moves the
schedule by the offset of the host it was taken under. -/
theorem not_schedule_ignores_offsets :
    (∀ n, (scriptedRun handOver Dict.empty n).CallsAtBy handOver sameStep) ∧
      (∀ n, (scriptedRun handOver workerAhead n).CallsAtBy handOver sameStep) ∧
      (scriptedRun handOver Dict.empty 22).1.loop.now = 1 ∧
      (scriptedRun handOver workerAhead 22).1.loop.now = 6 ∧
      (scriptedRun handOver Dict.empty 22).1.loop.recorder ≠
        (scriptedRun handOver workerAhead 22).1.loop.recorder := by
  refine ⟨scriptedRun_all (m := 22) ?_ ?_, scriptedRun_all (m := 22) ?_ ?_, ?_, ?_, ?_⟩
  all_goals decide +kernel

theorem schedule_ignores_offsets_worker :
    (scriptedRun workerTimer workerAhead 9).1.loop.now = 1 ∧
      ∀ n, (scriptedRun workerTimer workerAhead n).1.loop.now =
        (scriptedRun workerTimer Dict.empty n).1.loop.now := by
  have hown : ∀ n, (scriptedRun workerTimer workerAhead n).CallsAtBy workerTimer sameHost :=
    scriptedRun_all (m := 14) (by decide +kernel) (by decide +kernel)
  exact ⟨by decide +kernel, fun n => (schedule_ignores_offsets (shipped .least) .least workerTimer
    (.scripted ⟨[], 0, none, recordable_nil⟩) 0 0 workerAhead Dict.empty hown n).1.2.1⟩

end SimLoop.Loop
