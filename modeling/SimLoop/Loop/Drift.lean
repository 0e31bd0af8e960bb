/-
  Loop/Drift.lean --- where a replay leaves its recording.

  A replay tolerates drift: an index the queue does not have is clamped, and past the end
  of the recording the first callback runs.  `departure` says where a choice log parts
  from a recording; the replay's `diverged_at` is that, in every state of every run.
-/
import SimLoop.Foundation.Agreement
import SimLoop.Loop.Replay

set_option autoImplicit false

namespace SimLoop.Policy

open SimLoop.Foundation

/-- The first step at which a log is not what the recording says, if there is one. -/
def departure (choices log : List Nat) : Option Nat :=
  let k := agreement (· == ·) log choices
  if k < log.length then some k else none

theorem matchAt_beq_iff {log choices : List Nat} {k : Nat} :
    MatchAt (· == ·) log choices k ↔ k < log.length ∧ log[k]? = choices[k]? := by
  constructor
  · intro h
    obtain ⟨x, y, hx, hy, hxy⟩ := id h
    exact ⟨h.lt_left, by rw [hx, hy, beq_iff_eq.mp hxy]⟩
  · rintro ⟨hk, heq⟩
    exact ⟨log[k], log[k], List.getElem?_eq_getElem hk,
      heq ▸ List.getElem?_eq_getElem hk, beq_self_eq_true _⟩

/-- Without a departure the log is the beginning of the recording. -/
theorem departure_eq_none_iff {choices log : List Nat} :
    departure choices log = none ↔ log <+: choices := by
  have hle : agreement (· == ·) log choices ≤ log.length := agreement_le_left
  unfold departure
  dsimp only
  rw [ite_eq_right_iff]
  constructor
  · intro h
    have heq : agreement (· == ·) log choices = log.length := by
      by_contra hne
      cases h (by omega)
    rw [List.prefix_iff_getElem?]
    intro k hk
    have hmatch := matchAt_beq_iff.mp (matchAt_of_lt_agreement (heq.symm ▸ hk))
    rw [← hmatch.2, List.getElem?_eq_getElem hk]
  · intro hprefix hlt
    refine absurd (matchAt_beq_iff.mpr ⟨hlt, ?_⟩) not_matchAt_agreement
    rw [List.prefix_iff_getElem?.mp hprefix _ hlt, List.getElem?_eq_getElem hlt]

/-- A departure is a step of the log that follows the recording up to there and not there. -/
theorem departure_eq_some_iff {choices log : List Nat} {k : Nat} :
    departure choices log = some k ↔
      k < log.length ∧ log.take k <+: choices ∧ log[k]? ≠ choices[k]? := by
  have hbelow : k ≤ log.length →
      ((∀ j < k, MatchAt (· == ·) log choices j) ↔ log.take k <+: choices) := by
    intro hk
    have hlength : (log.take k).length = k := List.length_take_of_le hk
    rw [List.prefix_iff_getElem?]
    constructor
    · intro h j hj
      have hmatch := matchAt_beq_iff.mp (h j (hlength ▸ hj))
      rw [← hmatch.2, List.getElem?_eq_getElem hmatch.1, List.getElem_take]
    · intro h j hj
      have hget := h j (hlength.symm ▸ hj)
      rw [List.getElem_take] at hget
      exact matchAt_beq_iff.mpr ⟨by omega, by rw [hget, List.getElem?_eq_getElem]⟩
  unfold departure
  dsimp only
  constructor
  · intro h
    obtain ⟨hlt, hk⟩ := Option.ite_none_right_eq_some.mp h
    obtain ⟨hmatch, hnot⟩ := agreement_eq_iff.mp (Option.some.inj hk)
    rw [Option.some.inj hk] at hlt
    exact ⟨hlt, (hbelow hlt.le).mp hmatch, fun heq => hnot (matchAt_beq_iff.mpr ⟨hlt, heq⟩)⟩
  · rintro ⟨hlt, hprefix, hne⟩
    have hk : agreement (· == ·) log choices = k := agreement_eq_iff.mpr
      ⟨(hbelow hlt.le).mpr hprefix, fun h => hne (matchAt_beq_iff.mp h).2⟩
    rw [hk, if_pos hlt]

/-- The first departure stands; before one, the next choice decides. -/
theorem departure_concat (choices log : List Nat) (c : Nat) :
    departure choices (log ++ [c]) =
      (departure choices log).or
        (if choices[log.length]? = some c then none else some log.length) := by
  have hle : agreement (· == ·) log choices ≤ log.length := agreement_le_left
  have hlength : (log ++ [c]).length = log.length + 1 := by simp
  unfold departure
  dsimp only
  rw [hlength]
  rcases Nat.lt_or_eq_of_le hle with hlt | heq
  · rw [agreement_concat_of_lt hlt, if_pos (by omega), if_pos hlt, Option.some_or]
  · rw [heq, if_neg (Nat.lt_irrefl _), Option.none_or]
    by_cases hc : choices[log.length]? = some c
    · rw [agreement_concat_of_match heq hc (beq_self_eq_true c), if_neg (Nat.lt_irrefl _),
        if_pos hc]
    · have hne : ∀ y, choices[log.length]? = some y → (c == y) = false := by
        rintro y hy
        exact beq_eq_false_iff_ne.mpr fun h => hc (h ▸ hy)
      rw [agreement_concat_of_not_match heq hne, if_pos (Nat.lt_succ_self _), if_neg hc]

namespace ScriptedPolicy

/-- A scripted policy has kept count of a log, and of where it departed. -/
structure Tracks (p : ScriptedPolicy) (choices log : List Nat) : Prop where
  choices_eq : p.choices = choices
  step_eq : p.step = log.length
  departed : p.divergedAt = departure choices log

theorem divergedAt_diverge (p : ScriptedPolicy) (step : Nat) :
    (p.diverge step).divergedAt = p.divergedAt.or (some step) := by
  unfold diverge
  cases h : p.divergedAt with
  | none => rfl
  | some k => rw [h]; rfl

/-- A choice is one of the queue's indices, one the log can hold, and is accounted for. -/
theorem Tracks.choose {p : ScriptedPolicy} {choices log : List Nat} (h : p.Tracks choices log)
    {ready : List ReadyView} (hready : ready ≠ []) :
    ∃ (i : Nat) (q : ScriptedPolicy), p.choose ready = (.ok (i : Int), q) ∧ i < ready.length ∧
      i ≤ maxChoice ∧ q.Tracks choices (log ++ [i]) := by
  have hpos : 0 < ready.length := List.length_pos_iff.mpr hready
  have hlength : ∀ i, p.step + 1 = (log ++ [i]).length := fun i => by simp [h.step_eq]
  have hnext : p.choices[p.step]? = choices[log.length]? := by rw [h.choices_eq, h.step_eq]
  have hdeparts : ∀ i, choices[log.length]? ≠ some i →
      (({ p with step := p.step + 1 } : ScriptedPolicy).diverge p.step).Tracks choices
        (log ++ [i]) := by
    intro i hne
    refine ⟨(choices_diverge _ _).trans h.choices_eq, (step_diverge _ _).trans (hlength i), ?_⟩
    rw [divergedAt_diverge, departure_concat, if_neg hne, h.step_eq]
    exact congrArg (Option.or · _) h.departed
  cases hc : choices[log.length]? with
  | none =>
      refine ⟨0, _, choose_past_end ready ?_, hpos, Nat.zero_le _, hdeparts 0 (by simp [hc])⟩
      exact List.getElem?_eq_none_iff.mp (hnext.trans hc)
  | some c =>
      have hmax : c ≤ maxChoice := p.recordable c (List.mem_of_getElem? (hnext.trans hc))
      by_cases hin : c < ready.length
      · refine ⟨c, _, choose_recorded (hnext.trans hc) hin, hin, hmax, h.choices_eq, hlength c, ?_⟩
        rw [departure_concat, if_pos hc, Option.or_none]
        exact h.departed
      · -- The recorded index is clamped, to one that is not the recorded one.
        refine ⟨ready.length - 1, _, ?_, by omega, by omega,
          hdeparts (ready.length - 1) fun heq => ?_⟩
        · simp only [ScriptedPolicy.choose, hnext, hc]
          rw [if_pos (Nat.not_lt.mp hin), Int.ofNat_sub hpos]
          rfl
        · have := Option.some.inj (hc.symm.trans heq)
          omega

end ScriptedPolicy

end SimLoop.Policy

namespace SimLoop.Loop

open SimLoop.Foundation SimLoop.Policy

variable {ω κ ε υ ρ : Type} {R : RandomSource ρ}

/-- A loop replays a recording, and its policy has kept count. -/
def LoopState.Replays (s : LoopState (Shipped ρ) κ ε ρ) (choices : List Nat) : Prop :=
  ∃ p, s.policy = .scripted p ∧ p.Tracks choices s.choiceLog

theorem LoopState.policy_pop {π : Type} (s : LoopState π κ ε ρ) (i : Nat) :
    (s.pop i).2.policy = s.policy := by
  cases hi : s.ready[i]? with
  | none => rw [pop_eq_of_none hi]
  | some e =>
      rw [pop_eq_of_some hi]
      rfl

theorem LoopState.Replays.step {s : LoopState (Shipped ρ) κ ε ρ} {choices : List Nat}
    (h : s.Replays choices) : (s.step (shipped R)).2.Replays choices := by
  obtain ⟨p, hpolicy, htracks⟩ := h
  obtain ⟨hkept, hlog⟩ := readied_keeps s
  rcases hreadied : s.readied with ⟨_ | e, t⟩
  · rw [hreadied] at hkept hlog
    rw [step_of_readied hreadied]
    have hviews : t.readyViews ≠ [] := fun hnil =>
      ready_ne_nil_of_readied hreadied (List.map_eq_nil_iff.mp hnil)
    obtain ⟨i, q, hchoose, -, hmax, hq⟩ := htracks.choose hviews
    have hpol : t.policy = .scripted p := hkept.trans hpolicy
    have hanswer : (shipped R).choose t.policy t.readyViews = (.ok (i : Int), .scripted q) := by
      rw [hpol]
      simp only [shipped, hchoose]
    have hdraw : t.draw (shipped R) = ({ t with policy := .scripted q } :
        LoopState (Shipped ρ) κ ε ρ).pop i := by
      unfold draw
      rw [hanswer]
      dsimp only
      rw [if_neg (by omega), if_neg (by omega), Int.toNat_natCast]
    refine ⟨q, ?_, ?_⟩
    · rw [hdraw]
      exact LoopState.policy_pop _ i
    · rw [hdraw, choiceLog_pop]
      exact hlog.symm ▸ hq
  · rw [hreadied] at hkept hlog
    rw [step_of_readied_error hreadied]
    exact ⟨p, hkept.trans hpolicy, hlog.symm ▸ htracks⟩

/-! ## Replays of whole programs -/

namespace Session

variable {W : Workload ω κ ε υ} {choices : List Nat}

theorem policy_turn (s : Session (Shipped ρ) ω κ ε υ ρ) :
    (s.turn (shipped R) R W).loop.policy = s.loop.policy := by
  have h := turn_rebase (shipped R) R W s s.loop.policy s.loop.choiceLog
  rw [rebase_self] at h
  exact (congrArg (fun t => t.loop.policy) h).trans rfl

theorem policy_afterStep (s : Session (Shipped ρ) ω κ ε υ ρ)
    (outcome : LoopState.StepOutcome (Body κ)) :
    (s.afterStep (shipped R) R W outcome).loop.policy = s.loop.policy := by
  have h := afterStep_rebase (shipped R) R W s s.loop.policy s.loop.choiceLog outcome
  rw [rebase_self] at h
  exact (congrArg (fun t => t.loop.policy) h).trans rfl

theorem replays_tick {s : Session (Shipped ρ) ω κ ε υ ρ} (h : s.loop.Replays choices) :
    (s.tick (shipped R) R W).loop.Replays choices := by
  unfold tick
  split
  · obtain ⟨p, hpolicy, htracks⟩ := h.step (R := R)
    exact ⟨p, (policy_afterStep _ _).trans hpolicy, (choiceLog_afterStep _ _).symm ▸ htracks⟩
  · obtain ⟨p, hpolicy, htracks⟩ := h
    exact ⟨p, (policy_turn s).trans hpolicy, (choiceLog_turn s).symm ▸ htracks⟩

theorem replays_runOn {loop : LoopState (Shipped ρ) (Body κ) ε ρ} (h : loop.Replays choices)
    (world : ω) (n : Nat) : (runOn R W loop world n).loop.Replays choices := by
  induction n with
  | zero => exact h
  | succ n ih => exact replays_tick ih

end Session

/-- A list of choices is accepted as it is, or holds one that could not have been recorded. -/
theorem checkAll_cases (choices : List Int) :
    (∃ l hl, ScriptedPolicy.checkAll choices = .ok ⟨l, hl⟩ ∧ l = choices.map Int.toNat ∧
        ∀ c ∈ choices, 0 ≤ c ∧ c ≤ maxChoice) ∨
      (∃ e, ScriptedPolicy.checkAll choices = .error e) ∧
        ∃ c ∈ choices, ¬ (0 ≤ c ∧ c ≤ maxChoice) := by
  induction choices with
  | nil => exact .inl ⟨[], by simp, rfl, rfl, by simp⟩
  | cons c rest ih =>
      cases hc : ScriptedPolicy.checkChoice c with
      | error e =>
          refine .inr ⟨⟨e, ?_⟩, c, List.mem_cons_self, fun hin => ?_⟩
          · unfold ScriptedPolicy.checkAll
            split
            · rename_i e' he
              rw [hc] at he
              exact congrArg _ (Except.error.inj he).symm
            · rename_i hok
              rw [hc] at hok
              cases hok
          · rw [ScriptedPolicy.checkChoice_eq_ok_iff.mpr hin] at hc
            cases hc
      | ok =>
          have hin := ScriptedPolicy.checkChoice_eq_ok_iff.mp hc
          obtain ⟨l, hl, hrest, rfl, hall⟩ | ⟨⟨e, hrest⟩, d, hd, hbad⟩ := ih
          · refine .inl ⟨(c :: rest).map Int.toNat, ?_, ?_, rfl, ?_⟩
            · intro x hx
              rcases List.mem_cons.mp hx with rfl | hx
              · omega
              · exact hl x hx
            · unfold ScriptedPolicy.checkAll
              split
              · rename_i e he
                rw [hc] at he
                cases he
              · rw [hrest]
                rfl
            · intro x hx
              rcases List.mem_cons.mp hx with rfl | hx
              · exact hin
              · exact hall x hx
          · refine .inr ⟨⟨e, ?_⟩, d, List.mem_cons_of_mem _ hd, hbad⟩
            unfold ScriptedPolicy.checkAll
            split
            · rename_i e' he
              rw [hc] at he
              cases he
            · rw [hrest]

/-- **Where a replay drifted.**  `_from_choices` refuses exactly the lists with an entry that
cannot have been recorded.  Of every other list, every seed and every program: in every
state of the replay, `diverged_at` is `None` exactly while the choices made so far are the
beginning of the recording, and it is `k` exactly if the step `k` was the first one that
did not do what the recording says. -/
theorem diverged_at_exact (R : RandomSource ρ) (W : Workload ω κ ε υ) (world : ω)
    (faultSeed : Int) (choices : List Int) :
    ((∃ e, (LoopState.fromChoices R choices faultSeed :
        Except ValueError (LoopState (Shipped ρ) (Body κ) ε ρ)) = .error e) ↔
      ∃ c ∈ choices, ¬ (0 ≤ c ∧ c ≤ maxChoice)) ∧
    ∀ replay : LoopState (Shipped ρ) (Body κ) ε ρ,
      LoopState.fromChoices R choices faultSeed = .ok replay →
      ∀ n, let s := Session.runOn R W replay world n
        let recording := choices.map Int.toNat
        let log := s.loop.choiceLog
        ((shipped R).divergedAt s.loop.policy = none ↔ log <+: recording) ∧
        ∀ k, (shipped R).divergedAt s.loop.policy = some k ↔
          k < log.length ∧ log.take k <+: recording ∧ log[k]? ≠ recording[k]? := by
  obtain ⟨l, hl, hcheck, rfl, hall⟩ | ⟨⟨e, hcheck⟩, c, hc, hbad⟩ := checkAll_cases choices
  · have hinit : ScriptedPolicy.init choices = .ok ⟨choices.map Int.toNat, 0, none, hl⟩ := by
      simp only [ScriptedPolicy.init, hcheck]
    have hloop : (LoopState.fromChoices R choices faultSeed :
        Except ValueError (LoopState (Shipped ρ) (Body κ) ε ρ)) =
        .ok (LoopState.fresh R (.scripted ⟨choices.map Int.toNat, 0, none, hl⟩) faultSeed) := by
      simp only [LoopState.fromChoices, hinit]
      rfl
    refine ⟨⟨?_, ?_⟩, ?_⟩
    · rintro ⟨e, he⟩
      rw [hloop] at he
      cases he
    · rintro ⟨c, hc, hbad⟩
      exact absurd (hall c hc) hbad
    · intro replay hreplay n s recording log
      rw [hloop] at hreplay
      have hstart : replay.Replays recording := by
        obtain rfl := Except.ok.inj hreplay
        exact ⟨_, rfl, rfl, rfl, rfl⟩
      obtain ⟨p, hpolicy, htracks⟩ := Session.replays_runOn (R := R) (W := W) hstart world n
      have hdiverged : (shipped R).divergedAt s.loop.policy = departure recording log := by
        rw [show s.loop.policy = .scripted p from hpolicy]
        exact htracks.departed
      rw [hdiverged]
      exact ⟨departure_eq_none_iff, fun k => departure_eq_some_iff⟩
  · have hloop : (LoopState.fromChoices R choices faultSeed :
        Except ValueError (LoopState (Shipped ρ) (Body κ) ε ρ)) = .error e := by
      simp only [LoopState.fromChoices, ScriptedPolicy.init, hcheck]
    refine ⟨⟨fun _ => ⟨c, hc, hbad⟩, fun _ => ⟨e, hloop⟩⟩, ?_⟩
    intro replay hreplay
    rw [hloop] at hreplay
    cases hreplay

/-- A recording whose second choice is out of the queue's range. -/
theorem diverged_at_exact_secondChoice :
    ∃ replay : LoopState (Shipped Unit) (Body Unit) Unit Unit,
      LoopState.fromChoices .least [1, 7] 0 = .ok replay ∧
      (Session.runOn .least twoCallbacks replay 0 12).loop.choiceLog = [1, 0] ∧
      (shipped .least).divergedAt (Session.runOn .least twoCallbacks replay 0 12).loop.policy =
        some 1 := by
  cases hreplay : (LoopState.fromChoices .least [1, 7] 0 :
      Except ValueError (LoopState (Shipped Unit) (Body Unit) Unit Unit)) with
  | error e =>
      obtain ⟨c, hc, hbad⟩ :=
        (diverged_at_exact .least twoCallbacks 0 0 [1, 7]).1.mp ⟨e, hreplay⟩
      have hall : ∀ c ∈ ([1, 7] : List Int), 0 ≤ c ∧ c ≤ maxChoice := by decide
      exact absurd (hall c hc) hbad
  | ok replay =>
      have hlog : (Session.runOn .least twoCallbacks replay 0 12).loop.choiceLog = [1, 0] := by
        obtain rfl := Except.ok.inj hreplay
        decide +kernel
      refine ⟨replay, rfl, hlog, ?_⟩
      refine (((diverged_at_exact .least twoCallbacks 0 0 [1, 7]).2 replay hreplay 12).2 1).mpr ?_
      rw [hlog]
      decide

end SimLoop.Loop
