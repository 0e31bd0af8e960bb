/-
  Shrink/Labels.lean --- naming the kept steps (`_labels_at`, `_shrink.py`).

  The trace has no step boundaries, so the labelled run notes how long it is whenever
  the policy is asked.  A scripted policy neither raises nor answers what the choice log
  cannot hold, so each question is followed at once by the event of the entry that is
  popped, and the note is the index of that event.  What is noted during teardown lies
  beyond the events that were read before it.
-/
import SimLoop.Loop.Replay
import SimLoop.Loop.SessionRuns

set_option autoImplicit false

namespace SimLoop.Shrink

open SimLoop.Foundation SimLoop.Policy SimLoop.Loop

variable {π ω κ ε υ ρ : Type}

/-! ## Marks -/

/-- `_StepMarks`, over the states of the policy it wraps. -/
structure StepMarks (π : Type) where
  inner : π
  divergedAt : Option Nat
  at_ : List Nat

/-- `_StepMarks.choose`, when the recorder holds `recorded` events. -/
def StepMarks.choose (P : SchedulingPolicy π) (recorded : Nat) (marks : StepMarks π)
    (ready : List ReadyView) : Except ValueError Int × StepMarks π :=
  let marks := { marks with at_ := marks.at_ ++ [recorded] }
  match P.choose marks.inner ready with
  | (.error e, inner) => (.error e, { marks with inner := inner })
  | (.ok choice, inner) =>
    (.ok choice, { marks with inner := inner, divergedAt := P.divergedAt inner })

/-- A `_StepMarks` as a policy. -/
def marking (P : SchedulingPolicy π) (recorded : Nat) : SchedulingPolicy (StepMarks π) where
  choose := StepMarks.choose P recorded
  divergedAt := StepMarks.divergedAt

/-- The policy of a step taken now: it is asked once something is ready, and reads the
loop's own recorder. -/
def markingNow (P : SchedulingPolicy π) (s : LoopState (StepMarks π) κ ε ρ) :
    SchedulingPolicy (StepMarks π) :=
  marking P s.readied.2.recorder.events.length

/-! ## The labelled run -/

section

variable (R : RandomSource ρ) (W : Workload ω κ ε υ)

/-- `loop._policy = _StepMarks(loop._policy, loop._recorder)`. -/
def marked (loop : LoopState π κ ε ρ) : LoopState (StepMarks π) κ ε ρ :=
  { loop with policy := ⟨loop.policy, none, []⟩ }

/-- The `i`-th state of a program run under marks, teardown included. -/
def labelledRun (loop : LoopState (Shipped ρ) (Body κ) ε ρ) (world : ω) :
    Nat → Session (StepMarks (Shipped ρ)) ω κ ε υ ρ
  | 0 => .start (marked loop) world
  | i + 1 =>
    let s := labelledRun loop world i
    s.tick (markingNow (shipped R) s.loop) R W

/-- What the loop over `kept` makes of the marks and the events. -/
def readLabels (marks : List Nat) (events : List TraceEvent) (kept : List Nat) : List String :=
  kept.map fun step =>
    let at_ := marks.getD step events.length
    match events[at_]? with
    | some event => event.label
    | none => "?"

/-- `_labels_at`, of a program that is at its tick `n` when its events are read and at its
tick `m` when it has been torn down. -/
def replayLabels (world : ω) (seed : Int) (choices : List Int) (kept : List Nat) (n m : Nat) :
    Except ValueError (List String) :=
  if kept = [] then .ok []
  else
    match (LoopState.fromChoices R choices seed :
      Except ValueError (LoopState (Shipped ρ) (Body κ) ε ρ)) with
    | .error e => .error e
    | .ok loop =>
      .ok (readLabels (labelledRun R W loop world m).loop.policy.at_
        (labelledRun R W loop world n).loop.recorder.events kept)

/-- The entry a step took off the ready list, with the kind of its event. -/
def taken : LoopState.StepOutcome κ → List (ReadyEntry κ × EventKind)
  | .raised _ => []
  | .skipped entry => [(entry, .cancel)]
  | .run entry => [(entry, .run)]

/-- The entry the next tick pops, if that is a step of the loop. -/
def popped (s : Session (StepMarks (Shipped ρ)) ω κ ε υ ρ) :
    List (ReadyEntry (Body κ) × EventKind) :=
  if s.wantsStep then taken (s.loop.step (markingNow (shipped R) s.loop)).1 else []

/-- The entries popped in the first `n` ticks, decision by decision. -/
def decisions (loop : LoopState (Shipped ρ) (Body κ) ε ρ) (world : ω) (n : Nat) :
    List (ReadyEntry (Body κ) × EventKind) :=
  (List.range n).flatMap fun i => popped R (labelledRun R W loop world i)

end

/-! ## One step -/

/-- A scripted policy answers with an index the queue has and the choice log can hold. -/
theorem scripted_choose (q : ScriptedPolicy) {ready : List ReadyView} (h : ready ≠ []) :
    ∃ (i : Nat) (q' : ScriptedPolicy),
      q.choose ready = (.ok (i : Int), q') ∧ i < ready.length ∧ i ≤ maxChoice := by
  have hpos := List.length_pos_of_ne_nil h
  simp only [ScriptedPolicy.choose]
  split
  · exact ⟨0, _, rfl, hpos, Nat.zero_le _⟩
  · rename_i choice hchoice
    have hmax := q.recordable choice (List.mem_of_getElem? hchoice)
    split
    · exact ⟨ready.length - 1, _, Prod.ext (congrArg Except.ok (by omega)) rfl, by omega, by omega⟩
    · exact ⟨choice, _, rfl, by omega, hmax⟩

/-- The mark points at the event of the entry. -/
def Points (events : List TraceEvent) (mark : Nat) (pop : ReadyEntry κ × EventKind) : Prop :=
  ∃ time host, events[mark]? = some ⟨pop.2, time, pop.1.seq, pop.1.label, host⟩

theorem Points.mono {events events' : List TraceEvent} {mark : Nat} {pop : ReadyEntry κ × EventKind}
    (h : Points events mark pop) (hpre : events <+: events') : Points events' mark pop := by
  obtain ⟨time, host, hget⟩ := h
  obtain ⟨more, rfl⟩ := hpre
  refine ⟨time, host, ?_⟩
  rw [List.getElem?_append_left (List.getElem?_eq_some_iff.mp hget).1]
  exact hget

/-- A step under marks either raises before the policy is asked, or notes the index at which
the event of the popped entry is recorded next. -/
theorem step_marked {R : RandomSource ρ} {s : LoopState (StepMarks (Shipped ρ)) κ ε ρ}
    {q : ScriptedPolicy} (hq : s.policy.inner = .scripted q) :
    (taken (s.step (markingNow (shipped R) s)).1 = [] ∧
      (s.step (markingNow (shipped R) s)).2 = s.readied.2) ∨
    ∃ (pop : ReadyEntry κ × EventKind) (q' : ScriptedPolicy) (host : HostName),
      taken (s.step (markingNow (shipped R) s)).1 = [pop] ∧
      (s.step (markingNow (shipped R) s)).2.policy.inner = .scripted q' ∧
      (s.step (markingNow (shipped R) s)).2.policy.at_ =
        s.policy.at_ ++ [s.readied.2.recorder.events.length] ∧
      (s.step (markingNow (shipped R) s)).2.recorder.events = s.readied.2.recorder.events ++
        [⟨pop.2, s.readied.2.now, pop.1.seq, pop.1.label, host⟩] := by
  obtain ⟨hpolicy, -⟩ := LoopState.readied_keeps s
  rcases hreadied : s.readied with ⟨_ | e, t⟩
  · right
    rw [hreadied] at hpolicy
    dsimp only at hpolicy
    have hne : t.readyViews ≠ [] := fun hnil =>
      LoopState.ready_ne_nil_of_readied hreadied (List.map_eq_nil_iff.mp hnil)
    obtain ⟨i, q', hchoose, hi, hmax⟩ := scripted_choose q hne
    rw [LoopState.readyViews_length] at hi
    have hasked : (markingNow (shipped R) s).choose t.policy t.readyViews =
        (.ok (i : Int), ⟨.scripted q', q'.divergedAt,
          s.policy.at_ ++ [t.recorder.events.length]⟩) := by
      have hinner : (shipped R).choose s.policy.inner t.readyViews = (.ok (i : Int), .scripted q') := by
        rw [hq]
        simp only [shipped, hchoose]
      simp only [markingNow, marking, StepMarks.choose, hreadied, hpolicy, hinner]
      rfl
    have hstep : s.step (markingNow (shipped R) s) =
        ({ t with
          policy := ⟨.scripted q', q'.divergedAt, s.policy.at_ ++ [t.recorder.events.length]⟩ } :
            LoopState (StepMarks (Shipped ρ)) κ ε ρ).pop i := by
      rw [LoopState.step_of_readied hreadied, LoopState.draw, hasked]
      dsimp only
      rw [if_neg (by omega), if_neg (by omega), Int.toNat_natCast]
    have hpop := hstep.trans (LoopState.pop_eq_of_some (e := t.ready[i])
      (List.getElem?_eq_getElem hi))
    rw [hpop]
    refine ⟨(t.ready[i], if t.isCancelled t.ready[i].seq then .cancel else .run), q', _, ?_, rfl,
      rfl, rfl⟩
    change taken (if t.isCancelled t.ready[i].seq then _ else _) = _
    split <;> rfl
  · left
    rw [LoopState.step_of_readied_error hreadied]
    exact ⟨rfl, rfl⟩

/-! ## One tick -/

section

variable {R : RandomSource ρ} {W : Workload ω κ ε υ}

theorem policy_turn (P : SchedulingPolicy π) (s : Session π ω κ ε υ ρ) :
    (s.turn P R W).loop.policy = s.loop.policy := by
  have h := Session.turn_rebase P R W s s.loop.policy s.loop.choiceLog
  rw [Session.rebase_self] at h
  exact (congrArg (fun t => t.loop.policy) h).trans rfl

/-- Entering the callback touches neither the policy nor the trace. -/
theorem afterStep_keeps (P : SchedulingPolicy π) (s : Session π ω κ ε υ ρ)
    (outcome : LoopState.StepOutcome (Body κ)) :
    (s.afterStep P R W outcome).loop.policy = s.loop.policy ∧
      (s.afterStep P R W outcome).loop.recorder = s.loop.recorder := by
  cases outcome with
  | raised e => exact ⟨rfl, rfl⟩
  | skipped entry => exact ⟨rfl, rfl⟩
  | run entry =>
    simp only [Session.afterStep, Session.beginHandle]
    split <;> exact ⟨rfl, rfl⟩

/-- The recorder is only added to before the policy is asked. -/
theorem events_readied (s : LoopState π κ ε ρ) :
    s.recorder.events <+: s.readied.2.recorder.events := by
  unfold LoopState.readied
  split
  · rename_i hidle
    exact Agenda.events_mono (s.advanceClock_agenda (List.isEmpty_iff.mp hidle) [])
  · exact List.prefix_refl _

/-- The marks of a run under a scripted policy: one for each entry popped, at its event. -/
structure Marked (s : Session (StepMarks (Shipped ρ)) ω κ ε υ ρ)
    (pops : List (ReadyEntry (Body κ) × EventKind)) : Prop where
  scripted : ∃ q, s.loop.policy.inner = .scripted q
  pointed : List.Forall₂ (Points s.loop.recorder.events) s.loop.policy.at_ pops

/-- How one tick adds to the trace and to the marks. -/
structure Grows (s t : Session (StepMarks (Shipped ρ)) ω κ ε υ ρ) : Prop where
  events : s.loop.recorder.events <+: t.loop.recorder.events
  marks : ∃ later, t.loop.policy.at_ = s.loop.policy.at_ ++ later ∧
    ∀ mark ∈ later, s.loop.recorder.events.length ≤ mark

theorem Grows.refl (s : Session (StepMarks (Shipped ρ)) ω κ ε υ ρ) : Grows s s :=
  ⟨List.prefix_refl _, [], (List.append_nil _).symm, fun _ h => absurd h List.not_mem_nil⟩

theorem Grows.trans {s t u : Session (StepMarks (Shipped ρ)) ω κ ε υ ρ} (h : Grows s t)
    (h' : Grows t u) : Grows s u := by
  obtain ⟨first, hfirst, hlate⟩ := h.marks
  obtain ⟨second, hsecond, hlater⟩ := h'.marks
  refine ⟨h.events.trans h'.events, first ++ second, ?_, fun mark hmark => ?_⟩
  · rw [hsecond, hfirst, List.append_assoc]
  · rcases List.mem_append.mp hmark with hmark | hmark
    · exact hlate mark hmark
    · exact h.events.length_le.trans (hlater mark hmark)

/-- A tick keeps the marks at the events of the popped entries. -/
theorem tick_marked {s : Session (StepMarks (Shipped ρ)) ω κ ε υ ρ}
    {pops : List (ReadyEntry (Body κ) × EventKind)} (hs : Marked s pops) :
    Marked (s.tick (markingNow (shipped R) s.loop) R W) (pops ++ popped R s) ∧
      Grows s (s.tick (markingNow (shipped R) s.loop) R W) := by
  obtain ⟨q, hq⟩ := hs.scripted
  have hevents :=
    (Session.calls_tick (P := markingNow (shipped R) s.loop) (R := R) (W := W) s).events_mono
  have hold := hs.pointed.imp fun mark pop h => Points.mono h hevents
  by_cases hw : s.wantsStep
  · have hpopped : popped R s = taken (s.loop.step (markingNow (shipped R) s.loop)).1 := if_pos hw
    have htick : s.tick (markingNow (shipped R) s.loop) R W =
        ({ s with loop := (s.loop.step (markingNow (shipped R) s.loop)).2 } :
          Session _ _ _ _ _ _).afterStep (markingNow (shipped R) s.loop) R W
            (s.loop.step (markingNow (shipped R) s.loop)).1 := if_pos hw
    obtain ⟨hpolicy, hrecorder⟩ := afterStep_keeps (R := R) (W := W)
      (markingNow (shipped R) s.loop)
      ({ s with loop := (s.loop.step (markingNow (shipped R) s.loop)).2 } : Session _ _ _ _ _ _)
      (s.loop.step (markingNow (shipped R) s.loop)).1
    rw [← htick] at hpolicy hrecorder
    dsimp only at hpolicy hrecorder
    rcases step_marked (R := R) hq with ⟨htaken, hstep⟩ |
      ⟨pop, q', host, htaken, hinner, hat, hrecorded⟩
    · have hsame : (s.tick (markingNow (shipped R) s.loop) R W).loop.policy = s.loop.policy := by
        rw [hpolicy, hstep]
        exact (LoopState.readied_keeps s.loop).1
      rw [hpopped, htaken, List.append_nil]
      refine ⟨⟨⟨q, by rw [hsame, hq]⟩, ?_⟩, hevents, [], ?_, fun _ h => absurd h List.not_mem_nil⟩
      · rw [hsame]
        exact hold
      · rw [hsame, List.append_nil]
    · rw [hpopped, htaken]
      refine ⟨⟨⟨q', by rw [hpolicy, hinner]⟩, ?_⟩, hevents,
        [s.loop.readied.2.recorder.events.length], ?_, fun mark hmark => ?_⟩
      · rw [hpolicy, hat]
        refine List.rel_append hold (.cons ⟨s.loop.readied.2.now, host, ?_⟩ .nil)
        rw [hrecorder, hrecorded, List.getElem?_concat_length]
      · rw [hpolicy, hat]
      · rw [List.mem_singleton.mp hmark]
        exact (events_readied s.loop).length_le
  · have hpopped : popped R s = [] := if_neg hw
    have htick : s.tick (markingNow (shipped R) s.loop) R W =
        s.turn (markingNow (shipped R) s.loop) R W := if_neg hw
    have hsame : (s.tick (markingNow (shipped R) s.loop) R W).loop.policy = s.loop.policy := by
      rw [htick]
      exact policy_turn _ s
    rw [hpopped, List.append_nil]
    refine ⟨⟨⟨q, by rw [hsame, hq]⟩, ?_⟩, hevents, [], ?_, fun _ h => absurd h List.not_mem_nil⟩
    · rw [hsame]
      exact hold
    · rw [hsame, List.append_nil]

/-! ## Whole runs -/

variable {loop : LoopState (Shipped ρ) (Body κ) ε ρ} {world : ω}

theorem marked_labelledRun {q : ScriptedPolicy} (hq : loop.policy = .scripted q) (n : Nat) :
    Marked (labelledRun R W loop world n) (decisions R W loop world n) := by
  induction n with
  | zero => exact ⟨⟨q, hq⟩, .nil⟩
  | succ n ih =>
    have hdecisions : decisions R W loop world (n + 1) =
        decisions R W loop world n ++ popped R (labelledRun R W loop world n) := by
      simp only [decisions, List.range_succ, List.flatMap_append, List.flatMap_singleton]
    rw [hdecisions]
    exact (tick_marked ih).1

theorem grows_labelledRun {q : ScriptedPolicy} (hq : loop.policy = .scripted q) {n m : Nat}
    (h : n ≤ m) : Grows (labelledRun R W loop world n) (labelledRun R W loop world m) := by
  induction m, h using Nat.le_induction with
  | base => exact .refl _
  | succ m _ ih => exact ih.trans (tick_marked (marked_labelledRun hq m)).2

end

theorem policy_fromChoices {R : RandomSource ρ} {choices : List Int} {seed : Int}
    {loop : LoopState (Shipped ρ) κ ε ρ} (h : LoopState.fromChoices R choices seed = .ok loop) :
    ∃ q, loop.policy = .scripted q := by
  unfold LoopState.fromChoices at h
  split at h
  · cases h
  · cases h
    exact ⟨_, rfl⟩

/-- **Labels name the step they claim to.**  Of a run from accepted choices whose events are
read at the tick `n` and that is torn down by the tick `m`, `_labels_at` returns one label
for each kept step: where the run has made that decision, the label of the event recorded
for the callback that decision popped, and `?` elsewhere. -/
theorem labels_name_steps (R : RandomSource ρ) (W : Workload ω κ ε υ) (world : ω) (seed : Int)
    (choices : List Int) (kept : List Nat) {n m : Nat} (hnm : n ≤ m)
    {loop : LoopState (Shipped ρ) (Body κ) ε ρ}
    (hloop : LoopState.fromChoices R choices seed = .ok loop) :
    let pops := decisions R W loop world n
    let marks := (labelledRun R W loop world n).loop.policy.at_
    let events := (labelledRun R W loop world n).loop.recorder.events
    marks.length = pops.length ∧
    ∃ labels, replayLabels R W world seed choices kept n m = .ok labels ∧
      labels.length = kept.length ∧
      ∀ k step : Nat, kept[k]? = some step →
        (∀ entry kind, pops[step]? = some (entry, kind) →
          labels[k]? = some entry.label ∧
          ∃ (mark : Nat) (time : ℚ) (host : HostName), marks[step]? = some mark ∧
            events[mark]? = some ⟨kind, time, entry.seq, entry.label, host⟩) ∧
        (pops.length ≤ step → labels[k]? = some "?") := by
  intro pops marks events
  obtain ⟨q, hq⟩ := policy_fromChoices hloop
  have hpointed : List.Forall₂ (Points events) marks pops := (marked_labelledRun hq n).pointed
  have hgrows : Grows (labelledRun R W loop world n) (labelledRun R W loop world m) :=
    grows_labelledRun hq hnm
  obtain ⟨later, hlater, hlate⟩ := hgrows.marks
  refine ⟨hpointed.length_eq,
    readLabels (labelledRun R W loop world m).loop.policy.at_ events kept, ?_, ?_, ?_⟩
  · unfold replayLabels
    split
    · rename_i hnone
      rw [hnone]
      rfl
    · rw [hloop]
  · exact List.length_map _
  · intro k step hk
    have hlabel : ∀ marks', (readLabels marks' events kept)[k]? =
        some (match events[marks'.getD step events.length]? with
          | some event => event.label
          | none => "?") := by
      intro marks'
      rw [readLabels, List.getElem?_map, hk]
      rfl
    rw [hlabel, hlater]
    constructor
    · intro entry kind hpop
      have hstep : step < marks.length := by
        rw [hpointed.length_eq]
        exact (List.getElem?_eq_some_iff.mp hpop).1
      obtain ⟨time, host, hevent⟩ : Points events marks[step] (entry, kind) := by
        have h := hpointed.get hstep (List.getElem?_eq_some_iff.mp hpop).1
        rw [List.get_eq_getElem, List.get_eq_getElem, (List.getElem?_eq_some_iff.mp hpop).2] at h
        exact h
      have hmark : (marks ++ later).getD step events.length = marks[step] := by
        rw [List.getD_eq_getElem?_getD, List.getElem?_append_left hstep,
          List.getElem?_eq_getElem hstep, Option.getD_some]
      refine ⟨?_, marks[step], time, host, List.getElem?_eq_getElem hstep, hevent⟩
      rw [hmark, hevent]
    · intro hstep
      rw [← hpointed.length_eq] at hstep
      have hbeyond : events.length ≤ (marks ++ later).getD step events.length := by
        rw [List.getD_eq_getElem?_getD, List.getElem?_append_right hstep]
        cases hmark : later[step - marks.length]? with
        | none => exact le_refl _
        | some mark => exact hlate mark (List.mem_of_getElem? hmark)
      rw [List.getElem?_eq_none hbeyond]

theorem labels_name_steps_twoCallbacks :
    ∃ labels, replayLabels .least twoCallbacks 0 0 [1] [0, 5] 12 14 = .ok labels ∧
      labels[0]? = some "second" ∧ labels[1]? = some "?" := by
  have hloop : LoopState.fromChoices .least [1] 0 =
      .ok (LoopState.fresh .least lastFirst 0 : LoopState (Shipped Unit) (Body Unit) Unit Unit) :=
    rfl
  obtain ⟨-, labels, hlabels, -, hkept⟩ := labels_name_steps .least twoCallbacks 0 0 [1] [0, 5]
    (show 12 ≤ 14 by decide) hloop
  refine ⟨labels, hlabels, ?_, (hkept 1 5 rfl).2 (by decide +kernel)⟩
  have hpop : ((decisions .least twoCallbacks (LoopState.fresh .least lastFirst 0) 0 12)[0]?).map
      (fun pop => pop.1.label) = some "second" := by decide +kernel
  obtain ⟨⟨entry, kind⟩, hentry, hlabel⟩ := Option.map_eq_some_iff.mp hpop
  exact ((hkept 0 0 rfl).1 entry kind hentry).1.trans (congrArg some hlabel)

end SimLoop.Shrink
