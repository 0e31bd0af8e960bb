/-
  Policy/PctPriority.lean --- PCT is strict priority scheduling.

  The reference order looks at the history alone: owners never demoted stand above the
  demoted ones and among themselves as they drew when they were first shown; demoted
  owners stand by their latest demotion, the most recent one lowest.  `Standing` ties the
  priorities a policy holds to that order, and every answer keeps it.
-/
import SimLoop.Policy.PctProgram
import Mathlib.Tactic.Linarith
import Mathlib.Tactic.Ring

set_option autoImplicit false

namespace SimLoop.Policy

open SimLoop.Foundation

variable {ρ : Type} {R : RandomSource ρ}

/-! ## Histories -/

/-- The owners shown so far, with one more. -/
def meet (seen : List Int) (owner : Int) : List Int :=
  if owner ∈ seen then seen else seen ++ [owner]

/-- The owners shown so far, with those of a queue. -/
def meetAll (seen : List Int) (ready : List ReadyView) : List Int :=
  ready.foldl (fun seen view => meet seen view.1) seen

/-- The owners of some queues, in the order they are first shown. -/
def shown (queues : List (List ReadyView)) : List Int := queues.foldl meetAll []

namespace PCTPolicy

/-- The policy once it has answered for some queues. -/
def after (R : RandomSource ρ) (p : PCTPolicy ρ) (queues : List (List ReadyView)) : PCTPolicy ρ :=
  queues.foldl (fun p ready => (choose R p ready).2) p

/-- The owner of the entry that is picked. -/
def winner (R : RandomSource ρ) (p : PCTPolicy ρ) (ready : List ReadyView) : Option Int :=
  match (choose R p ready).1 with
  | .ok i => (ready[i.toNat]?).map Prod.fst
  | .error _ => none

/-- The owner that is demoted, if the step is a change point. -/
def demotion (R : RandomSource ρ) (p : PCTPolicy ρ) (ready : List ReadyView) : List Int :=
  if p.stepCount ∈ p.changePoints then (winner R p ready).toList else []

/-- The owners that are demoted on the way through some queues, oldest first. -/
def demotions (R : RandomSource ρ) : PCTPolicy ρ → List (List ReadyView) → List Int
  | _, [] => []
  | p, ready :: rest => demotion R p ready ++ demotions R (choose R p ready).2 rest

/-- One owner holds a higher priority than another. -/
def Ahead (p : PCTPolicy ρ) (a b : Int) : Prop :=
  ∃ x y, p.priorities.get? a = some x ∧ p.priorities.get? b = some y ∧ y < x

end PCTPolicy

/-- The reference order: `draw` is what the owners drew, in the order they were shown. -/
def Outranks (draw : Nat → ℚ) (seen demoted : List Int) (a b : Int) : Prop :=
  if a ∈ demoted then b ∈ demoted ∧ demoted.reverse.idxOf b < demoted.reverse.idxOf a
  else b ∈ demoted ∨ draw (seen.idxOf b) < draw (seen.idxOf a)

/-! ## Owners shown -/

theorem mem_meet {seen : List Int} {owner a : Int} :
    a ∈ meet seen owner ↔ a ∈ seen ∨ a = owner := by
  unfold meet
  split
  · rename_i h
    refine ⟨.inl, fun ha => ha.elim id ?_⟩
    rintro rfl
    exact h
  · rw [List.mem_append, List.mem_singleton]

theorem nodup_meet {seen : List Int} (h : seen.Nodup) (owner : Int) : (meet seen owner).Nodup := by
  unfold meet
  split
  · exact h
  · rename_i howner
    exact List.nodup_append'.mpr ⟨h, List.nodup_singleton _, by simpa using howner⟩

theorem mem_meetAll {seen : List Int} {ready : List ReadyView} {a : Int} :
    a ∈ meetAll seen ready ↔ a ∈ seen ∨ ∃ view ∈ ready, view.1 = a := by
  induction ready generalizing seen with
  | nil => simp [meetAll]
  | cons view rest ih =>
      rw [meetAll, List.foldl_cons, ← meetAll, ih, mem_meet, or_assoc,
        List.exists_mem_cons_iff, eq_comm (a := a)]

theorem shown_concat (queues : List (List ReadyView)) (ready : List ReadyView) :
    shown (queues ++ [ready]) = meetAll (shown queues) ready := by
  simp only [shown, List.foldl_append, List.foldl_cons, List.foldl_nil]

/-! ## Demotions -/

namespace PCTPolicy

theorem after_concat (p : PCTPolicy ρ) (queues : List (List ReadyView)) (ready : List ReadyView) :
    after R p (queues ++ [ready]) = (choose R (after R p queues) ready).2 := by
  simp only [after, List.foldl_append, List.foldl_cons, List.foldl_nil]

theorem demotions_concat (p : PCTPolicy ρ) (queues : List (List ReadyView))
    (ready : List ReadyView) : demotions R p (queues ++ [ready]) =
      demotions R p queues ++ demotion R (after R p queues) ready := by
  induction queues generalizing p with
  | nil => simp only [List.nil_append, demotions, List.append_nil, after, List.foldl_nil]
  | cons first rest ih =>
      simp only [List.cons_append, demotions, ih, List.append_assoc]
      rfl

end PCTPolicy

/-! ## Standings -/

/-- The stream once some numbers have been drawn. -/
def stream (R : RandomSource ρ) (r : ρ) : Nat → ρ
  | 0 => r
  | n + 1 => (R.random (stream R r n)).2

theorem stream_succ (r : ρ) (n : Nat) : stream R (R.random r).2 n = stream R r (n + 1) := by
  induction n with
  | zero => rfl
  | succ n ih =>
      unfold stream
      rw [ih]

theorem drawAt_eq (r : ρ) (n : Nat) :
    PCTPolicy.drawAt R r n = (R.random (stream R r n)).1 := by
  induction n generalizing r with
  | zero => rfl
  | succ n ih =>
      rw [PCTPolicy.drawAt, ih, stream_succ]

/-- The priority an owner holds by its history. -/
def price (draw : Nat → ℚ) (seen demoted : List Int) (a : Int) : ℚ :=
  if a ∈ demoted then (demoted.reverse.idxOf a : ℚ) - demoted.length else draw (seen.idxOf a) + 1

/-- The priorities of a policy are those of its history. -/
structure Standing (R : RandomSource ρ) (r : ρ) (p : PCTPolicy ρ) (seen demoted : List Int) :
    Prop where
  rng : p.rng = stream R r seen.length
  nodup : seen.Nodup
  demoted_seen : demoted ⊆ seen
  known : ∀ a, p.priorities.get? a =
    if a ∈ seen then some (price (PCTPolicy.drawAt R r) seen demoted a) else none
  floor : p.floor = -(demoted.length : ℚ)

namespace Standing

variable {r : ρ} {p : PCTPolicy ρ} {seen demoted : List Int}

/-- A policy that has just been made. -/
theorem init {S : Finset Nat} (hp : p.Fresh S) : Standing R p.rng p [] [] where
  rng := rfl
  nodup := List.nodup_nil
  demoted_seen := List.Subset.refl _
  known a := by
    rw [hp.priorities, if_neg List.not_mem_nil]
    rfl
  floor := by simp [hp.floor]

/-- Reading the priority of an owner draws for it if it is new. -/
theorem priority (h : Standing R r p seen demoted) (owner : Int) :
    Standing R r (PCTPolicy.priority R p owner).2 (meet seen owner) demoted := by
  by_cases howner : owner ∈ seen
  · have hkept : (PCTPolicy.priority R p owner).2 = p := by
      simp only [PCTPolicy.priority, h.known owner, if_pos howner]
    rw [hkept, meet, if_pos howner]
    exact h
  · have hdrawn : (PCTPolicy.priority R p owner).2 = { p with
        rng := (R.random p.rng).2
        priorities := p.priorities.insert owner ((R.random p.rng).1 + 1) } := by
      simp only [PCTPolicy.priority, h.known owner, if_neg howner]
    rw [hdrawn, meet, if_neg howner]
    refine ⟨?_, ?_, fun a ha => List.mem_append_left _ (h.demoted_seen ha), fun a => ?_, h.floor⟩
    · rw [List.length_append, List.length_singleton, stream, ← h.rng]
    · have hnodup := nodup_meet h.nodup owner
      rwa [meet, if_neg howner] at hnodup
    · simp only [Dict.get?_insert]
      by_cases ha : owner = a
      · subst ha
        have hnew : owner ∉ demoted := fun hmem => howner (h.demoted_seen hmem)
        rw [if_pos rfl, if_pos (List.mem_append_right _ (List.mem_singleton.mpr rfl)), price,
          if_neg hnew, List.idxOf_append_of_notMem howner, List.idxOf_cons_self, Nat.add_zero,
          drawAt_eq, ← h.rng]
      · rw [if_neg ha, h.known a]
        by_cases hseen : a ∈ seen
        · rw [if_pos hseen, if_pos (List.mem_append_left _ hseen), price, price,
            List.idxOf_append_of_mem hseen]
        · rw [if_neg hseen, if_neg]
          rw [List.mem_append, List.mem_singleton]
          exact fun hmem => hmem.elim hseen (fun heq => ha heq.symm)

theorem priorityAll (h : Standing R r p seen demoted) (ready : List ReadyView) :
    Standing R r (PCTPolicy.priorityAll R p ready).2 (meetAll seen ready) demoted := by
  induction ready generalizing p seen with
  | nil => exact h
  | cons view rest ih => exact ih (h.priority view.1)

/-- A demotion puts an owner below everyone. -/
theorem demote (h : Standing R r p seen demoted) {owner : Int} (howner : owner ∈ seen) :
    Standing R r (p.demote owner) seen (demoted ++ [owner]) := by
  refine ⟨h.rng, h.nodup, ?_, fun a => ?_, ?_⟩
  · intro a ha
    rcases List.mem_append.mp ha with ha | ha
    · exact h.demoted_seen ha
    · rw [List.mem_singleton.mp ha]
      exact howner
  · simp only [PCTPolicy.demote, Dict.get?_insert, h.known a, h.floor]
    by_cases ha : owner = a
    · subst ha
      rw [if_pos rfl, if_pos howner, price,
        if_pos (List.mem_append_right _ (List.mem_singleton.mpr rfl)), List.reverse_append,
        List.reverse_singleton, List.singleton_append, List.idxOf_cons_self, List.length_append,
        List.length_singleton]
      congr 1
      push_cast
      ring
    · rw [if_neg ha]
      have hmem : a ∈ demoted ++ [owner] ↔ a ∈ demoted := by
        rw [List.mem_append, List.mem_singleton]
        exact ⟨fun hmem => hmem.resolve_right (Ne.symm ha), .inl⟩
      have hprice : price (PCTPolicy.drawAt R r) seen (demoted ++ [owner]) a =
          price (PCTPolicy.drawAt R r) seen demoted a := by
        simp only [price, hmem, List.reverse_append, List.reverse_singleton,
          List.singleton_append, List.idxOf_cons_ne _ ha, List.length_append,
          List.length_singleton]
        split
        · push_cast
          ring
        · rfl
      rw [hprice]
  · simp only [PCTPolicy.demote, h.floor, List.length_append, List.length_singleton]
    push_cast
    ring

/-! ## The order of the standings -/

theorem idxOf_lt {a : Int} (ha : a ∈ demoted) :
    (demoted.reverse.idxOf a : ℚ) < demoted.length := by
  have hlt := List.idxOf_lt_length_iff.mpr (List.mem_reverse.mpr ha)
  rw [List.length_reverse] at hlt
  exact_mod_cast hlt

/-- The priorities of the owners shown are in the reference order. -/
theorem price_lt_iff (r : ρ) (seen demoted : List Int) (a b : Int) :
    price (PCTPolicy.drawAt R r) seen demoted b < price (PCTPolicy.drawAt R r) seen demoted a ↔
      Outranks (PCTPolicy.drawAt R r) seen demoted a b := by
  have hlow : ∀ x ∈ demoted, (demoted.reverse.idxOf x : ℚ) < demoted.length :=
    fun x hx => idxOf_lt hx
  have hhigh : ∀ i, 0 ≤ PCTPolicy.drawAt R r i := PCTPolicy.drawAt_nonneg R r
  unfold price Outranks
  by_cases ha : a ∈ demoted
  · by_cases hb : b ∈ demoted
    · simp only [ha, hb, if_true, true_and, sub_lt_sub_iff_right, Nat.cast_lt]
    · simp only [ha, hb, if_true, if_false, false_and, iff_false, not_lt]
      linarith [hlow a ha, hhigh (seen.idxOf b)]
  · by_cases hb : b ∈ demoted
    · simp only [ha, hb, if_true, if_false, true_or, iff_true]
      linarith [hlow b hb, hhigh (seen.idxOf a)]
    · simp only [ha, hb, if_false, false_or, add_lt_add_iff_right]

/-- Who was shown is ahead in the policy exactly if it outranks. -/
theorem ahead_iff (h : Standing R r p seen demoted) {a b : Int} (ha : a ∈ seen) (hb : b ∈ seen) :
    p.Ahead a b ↔ Outranks (PCTPolicy.drawAt R r) seen demoted a b := by
  rw [← price_lt_iff]
  constructor
  · rintro ⟨x, y, hx, hy, hlt⟩
    rw [h.known a, if_pos ha] at hx
    rw [h.known b, if_pos hb] at hy
    rwa [Option.some.inj hx, Option.some.inj hy]
  · exact fun hlt => ⟨_, _, (h.known a).trans (if_pos ha), (h.known b).trans (if_pos hb), hlt⟩

/-- Of two owners with different draws one outranks the other. -/
theorem outranks_of_le {a b : Int}
    (hdraws : ∀ i j, i < j → j < seen.length →
      PCTPolicy.drawAt R r i ≠ PCTPolicy.drawAt R r j)
    (ha : a ∈ seen) (hb : b ∈ seen) (hne : b ≠ a)
    (hle : price (PCTPolicy.drawAt R r) seen demoted b ≤
      price (PCTPolicy.drawAt R r) seen demoted a) :
    Outranks (PCTPolicy.drawAt R r) seen demoted a b := by
  rw [← price_lt_iff]
  refine lt_of_le_of_ne hle fun heq => hne ?_
  have hhigh : ∀ i, 0 ≤ PCTPolicy.drawAt R r i := PCTPolicy.drawAt_nonneg R r
  have hlow : ∀ x ∈ demoted, (demoted.reverse.idxOf x : ℚ) < demoted.length :=
    fun x hx => idxOf_lt hx
  unfold price at heq
  by_cases hda : a ∈ demoted
  · by_cases hdb : b ∈ demoted
    · simp only [hda, hdb, if_true, sub_left_inj, Nat.cast_inj] at heq
      exact (List.idxOf_inj (List.mem_reverse.mpr hdb)).mp heq
    · simp only [hda, hdb, if_true, if_false] at heq
      linarith [hlow a hda, hhigh (seen.idxOf b)]
  · by_cases hdb : b ∈ demoted
    · simp only [hda, hdb, if_true, if_false] at heq
      linarith [hlow b hdb, hhigh (seen.idxOf a)]
    · simp only [hda, hdb, if_false, add_left_inj] at heq
      rcases lt_trichotomy (seen.idxOf b) (seen.idxOf a) with hlt | hsame | hlt
      · exact absurd heq (hdraws _ _ hlt (List.idxOf_lt_length_iff.mpr ha))
      · exact (List.idxOf_inj hb).mp hsame
      · exact absurd heq.symm (hdraws _ _ hlt (List.idxOf_lt_length_iff.mpr hb))

/-! ## One answer -/

/-- The answer is the earliest entry of highest price, and the policy goes on in the
standing that it leaves. -/
theorem choose (h : Standing R r p seen demoted) {ready : List ReadyView} (hready : ready ≠ []) :
    ∃ (i : Nat) (view : ReadyView), (PCTPolicy.choose R p ready).1 = .ok (i : Int) ∧
      ready[i]? = some view ∧ PCTPolicy.winner R p ready = some view.1 ∧
      (∀ other ∈ ready, price (PCTPolicy.drawAt R r) (meetAll seen ready) demoted other.1 ≤
        price (PCTPolicy.drawAt R r) (meetAll seen ready) demoted view.1) ∧
      (∀ j other, j < i → ready[j]? = some other →
        price (PCTPolicy.drawAt R r) (meetAll seen ready) demoted other.1 <
          price (PCTPolicy.drawAt R r) (meetAll seen ready) demoted view.1) ∧
      Standing R r (PCTPolicy.choose R p ready).2 (meetAll seen ready)
        (demoted ++ PCTPolicy.demotion R p ready) := by
  set p' : PCTPolicy ρ := { p with stepCount := p.stepCount + 1 } with hp'
  have hstanding : Standing R r p' seen demoted :=
    ⟨h.rng, h.nodup, h.demoted_seen, h.known, h.floor⟩
  have hpriced := hstanding.priorityAll ready
  have hseen : ∀ view ∈ ready, view.1 ∈ meetAll seen ready :=
    fun view hview => mem_meetAll.mpr (.inr ⟨view, hview, rfl⟩)
  have hknown : ∀ view ∈ ready, (PCTPolicy.priorityAll R p' ready).2.priorities.get? view.1 =
      some (price (PCTPolicy.drawAt R r) (meetAll seen ready) demoted view.1) :=
    fun view hview => (hpriced.known view.1).trans (if_pos (hseen view hview))
  have hprices := PCTPolicy.priorityAll_fst R hknown
  obtain ⟨x, hx, hmax, hfirst⟩ := earliestMax_spec (l := (PCTPolicy.priorityAll R p' ready).1)
    (by rw [hprices]; simpa using hready)
  rw [hprices] at hx hmax hfirst
  rw [List.getElem?_map] at hx
  obtain ⟨view, hview, rfl⟩ := Option.map_eq_some_iff.mp hx
  have hchoose : PCTPolicy.choose R p ready =
      (.ok (earliestMax (PCTPolicy.priorityAll R p' ready).1 : Nat),
        if p.stepCount ∈ (PCTPolicy.priorityAll R p' ready).2.changePoints then
          (PCTPolicy.priorityAll R p' ready).2.demote view.1
        else (PCTPolicy.priorityAll R p' ready).2) := by
    simp only [PCTPolicy.choose, ← hp', hprices, hview]
  have hpoints := (PCTPolicy.priorityAll_frame R p' ready).2.2
  have hwinner : PCTPolicy.winner R p ready = some view.1 := by
    simp only [PCTPolicy.winner, hchoose, Int.toNat_natCast, hprices, hview, Option.map_some]
  refine ⟨_, view, congrArg Prod.fst hchoose, by rw [hprices]; exact hview, hwinner,
    fun other hother => hmax _ (List.mem_map.mpr ⟨other, hother, rfl⟩),
    fun j other hj hother => hfirst j _ (by rwa [hprices] at hj) (by
      rw [List.getElem?_map, hother, Option.map_some]), ?_⟩
  rw [hchoose, hpoints, PCTPolicy.demotion, hwinner]
  by_cases hstep : p.stepCount ∈ p.changePoints
  · rw [if_pos hstep, if_pos hstep]
    exact hpriced.demote (hseen view (List.mem_of_getElem? hview))
  · rw [if_neg hstep, if_neg hstep, List.append_nil]
    exact hpriced

end Standing

/-! ## Whole runs -/

namespace PCTPolicy

variable {p : PCTPolicy ρ} {S : Finset Nat}

theorem stepCount_choose (p : PCTPolicy ρ) (ready : List ReadyView) :
    (choose R p ready).2.stepCount = p.stepCount + 1 ∧
      (choose R p ready).2.changePoints = p.changePoints := by
  obtain ⟨-, hstep, hpoints⟩ :=
    priorityAll_frame R { p with stepCount := p.stepCount + 1 } ready
  unfold choose
  dsimp only
  split
  · exact ⟨hstep, hpoints⟩
  · split
    · exact ⟨hstep, hpoints⟩
    · exact ⟨hstep, hpoints⟩

/-- An answer leaves the priority of an owner that it does not demote. -/
theorem priorities_choose {ready : List ReadyView} {owner : Int} {x : ℚ}
    (h : p.priorities.get? owner = some x)
    (hkeep : p.stepCount ∈ p.changePoints → winner R p ready ≠ some owner) :
    (choose R p ready).2.priorities.get? owner = some x := by
  have hpoints := (priorityAll_frame R { p with stepCount := p.stepCount + 1 } ready).2.2
  have hkept := priorityAll_keeps R (p := { p with stepCount := p.stepCount + 1 }) ready h
  unfold winner at hkeep
  unfold choose at hkeep ⊢
  dsimp only at hkeep ⊢
  split
  · exact hkept
  · rename_i view hview
    simp only [hview, hpoints, Int.toNat_natCast, Option.map_some] at hkeep ⊢
    split
    · rename_i hstep
      refine (Dict.get?_insert_of_ne _ _ ?_).trans hkept
      rintro rfl
      exact hkeep hstep rfl
    · exact hkept

/-- The policy counts its answers and keeps its change points. -/
theorem after_frame (hp : p.Fresh S) (queues : List (List ReadyView)) :
    (after R p queues).stepCount = queues.length ∧ (after R p queues).changePoints = S := by
  induction queues using List.reverseRecOn with
  | nil => exact ⟨hp.stepCount, hp.changePoints⟩
  | append_singleton queues ready ih =>
      rw [after_concat, List.length_append, List.length_singleton]
      obtain ⟨hstep, hpoints⟩ := stepCount_choose (R := R) (after R p queues) ready
      exact ⟨hstep.trans (congrArg (· + 1) ih.1), hpoints.trans ih.2⟩

/-- After any queues the policy stands by its history. -/
theorem after_standing (hp : p.Fresh S) {queues : List (List ReadyView)}
    (hqueues : ∀ ready ∈ queues, ready ≠ []) :
    Standing R p.rng (after R p queues) (shown queues) (demotions R p queues) := by
  induction queues using List.reverseRecOn with
  | nil => exact .init hp
  | append_singleton queues ready ih =>
      have hlast : ready ≠ [] := hqueues ready (by simp)
      have hstanding := ih fun q hq => hqueues q (List.mem_append_left _ hq)
      obtain ⟨_, _, -, -, -, -, -, hnext⟩ := hstanding.choose hlast
      rw [after_concat, shown_concat, demotions_concat]
      exact hnext

/-- There have been as many demotions as change points were passed. -/
theorem length_demotions (hp : p.Fresh S) {queues : List (List ReadyView)}
    (hqueues : ∀ ready ∈ queues, ready ≠ []) :
    (demotions R p queues).length = (S.filter (· < queues.length)).card := by
  induction queues using List.reverseRecOn with
  | nil => simp [demotions]
  | append_singleton queues ready ih =>
      have hlast : ready ≠ [] := hqueues ready (by simp)
      have hbefore := fun q hq => hqueues q (List.mem_append_left _ hq)
      obtain ⟨hstep, hpoints⟩ := after_frame (R := R) hp queues
      obtain ⟨_, view, -, -, hwinner, -⟩ := (after_standing hp hbefore).choose hlast
      rw [demotions_concat, List.length_append, ih hbefore, demotion, hstep, hpoints, hwinner,
        List.length_append, List.length_singleton]
      by_cases hpoint : queues.length ∈ S
      · have hfilter : S.filter (· < queues.length + 1) =
            insert queues.length (S.filter (· < queues.length)) := by
          ext k
          simp only [Finset.mem_filter, Finset.mem_insert]
          constructor
          · rintro ⟨hk, hlt⟩
            rcases Nat.lt_succ_iff_lt_or_eq.mp hlt with hlt | rfl
            · exact .inr ⟨hk, hlt⟩
            · exact .inl rfl
          · rintro (rfl | ⟨hk, hlt⟩)
            · exact ⟨hpoint, Nat.lt_succ_self _⟩
            · exact ⟨hk, Nat.lt_succ_of_lt hlt⟩
        rw [if_pos hpoint, hfilter, Finset.card_insert_of_notMem (by simp), Option.toList_some,
          List.length_singleton]
      · have hfilter : S.filter (· < queues.length + 1) = S.filter (· < queues.length) := by
          refine Finset.filter_congr fun k hk => ?_
          rw [Nat.lt_succ_iff_lt_or_eq, or_iff_left]
          rintro rfl
          exact hpoint hk
        rw [if_neg hpoint, hfilter, List.length_nil, Nat.add_zero]

/-- `__init__` leaves the policy with fewer change points than the depth, all of them
within the horizon. -/
theorem length_demotions_init {seed : Int} {depth horizon : Int}
    (h : init R seed depth horizon = .ok p) {queues : List (List ReadyView)}
    (hqueues : ∀ ready ∈ queues, ready ≠ []) (hlong : horizon.toNat ≤ queues.length) :
    (demotions R p queues).length = (depth - 1).toNat := by
  obtain ⟨S, hS, hp⟩ := init_fresh h
  obtain ⟨hrange, hcard⟩ := Finset.mem_powersetCard.mp hS
  rw [length_demotions hp hqueues, ← hcard, Finset.filter_true_of_mem]
  exact fun k hk => lt_of_lt_of_le (Finset.mem_range.mp (hrange hk)) hlong

/-- **PCT is strict priority scheduling with permanent demotions.**  Whatever queues it was
asked about, the policy picks the earliest entry of the owner that outranks all others, two
owners it has seen change places only when one of them wins at a change point, and it has
demoted as often as it has passed a change point. -/
theorem strict_priority (hp : p.Fresh S) {before : List (List ReadyView)}
    {ready : List ReadyView} (hbefore : ∀ q ∈ before, q ≠ []) (hready : ready ≠ [])
    (hdraws : ∀ i j, i < j → j < (shown (before ++ [ready])).length →
      drawAt R p.rng i ≠ drawAt R p.rng j) :
    (∃ (i : Nat) (view : ReadyView), (choose R (after R p before) ready).1 = .ok (i : Int) ∧
      ready[i]? = some view ∧
      (∀ other ∈ ready, other.1 = view.1 ∨ Outranks (drawAt R p.rng)
        (shown (before ++ [ready])) (demotions R p before) view.1 other.1) ∧
      ∀ j other, j < i → ready[j]? = some other → other.1 ≠ view.1) ∧
    (∀ a ∈ shown before, ∀ b ∈ shown before,
      ((after R p before).Ahead a b ↔
        Outranks (drawAt R p.rng) (shown before) (demotions R p before) a b) ∧
      (¬((after R p before).Ahead a b ↔ (after R p (before ++ [ready])).Ahead a b) →
        before.length ∈ S ∧ (winner R (after R p before) ready = some a ∨
          winner R (after R p before) ready = some b))) ∧
    (demotions R p before).length = (S.filter (· < before.length)).card ∧
    ∀ (seed : Int) (depth horizon : Int), init R seed depth horizon = .ok p →
      horizon.toNat ≤ before.length → (demotions R p before).length = (depth - 1).toNat := by
  have hstanding := after_standing (R := R) hp hbefore
  obtain ⟨hstep, hpoints⟩ := after_frame (R := R) hp before
  obtain ⟨i, view, hchoose, hview, hwinner, hmax, hfirst, hnext⟩ := hstanding.choose hready
  rw [← shown_concat] at hmax hfirst hnext
  have hseen : ∀ other ∈ ready, other.1 ∈ shown (before ++ [ready]) := by
    intro other hother
    rw [shown_concat]
    exact mem_meetAll.mpr (.inr ⟨other, hother, rfl⟩)
  refine ⟨⟨i, view, hchoose, hview, fun other hother => ?_, fun j other hj hother heq => ?_⟩,
    fun a ha b hb => ⟨hstanding.ahead_iff ha hb, fun hchange => ?_⟩,
    length_demotions hp hbefore, fun seed depth horizon hinit hlong =>
      length_demotions_init hinit hbefore hlong⟩
  · rw [or_iff_not_imp_left]
    intro hne
    exact Standing.outranks_of_le hdraws (hseen view (List.mem_of_getElem? hview))
      (hseen other hother) hne (hmax other hother)
  · have hlt := hfirst j other hj hother
    rw [heq] at hlt
    exact lt_irrefl _ hlt
  · by_contra hquiet
    have hkeep : ∀ c, (c = a ∨ c = b) → before.length ∈ S →
        winner R (after R p before) ready ≠ some c := by
      rintro c hc hpoint hwin
      refine hquiet ⟨hpoint, ?_⟩
      rcases hc with rfl | rfl
      · exact .inl hwin
      · exact .inr hwin
    obtain ⟨x, hx⟩ : ∃ x, (after R p before).priorities.get? a = some x :=
      ⟨_, (hstanding.known a).trans (if_pos ha)⟩
    obtain ⟨y, hy⟩ : ∃ y, (after R p before).priorities.get? b = some y :=
      ⟨_, (hstanding.known b).trans (if_pos hb)⟩
    have hx' : (choose R (after R p before) ready).2.priorities.get? a = some x :=
      priorities_choose hx (by
        rw [hstep, hpoints]
        exact hkeep a (.inl rfl))
    have hy' : (choose R (after R p before) ready).2.priorities.get? b = some y :=
      priorities_choose hy (by
        rw [hstep, hpoints]
        exact hkeep b (.inr rfl))
    refine hchange ?_
    simp only [Ahead, after_concat, hx, hy, hx', hy']

/-- Two owners twice, the first of whom is demoted after its first turn. -/
theorem strict_priority_twice :
    let p : PCTPolicy Nat := ⟨0, Dict.empty, 0, {0}, 0, none⟩
    let queue : List ReadyView := [(0, "reader"), (1, "writer")]
    let R := drawing (1 : Equiv.Perm (Fin 2)) {0}
    ∃ (i : Nat) (view : ReadyView), (choose R (after R p [queue]) queue).1 = .ok (i : Int) ∧
      queue[i]? = some view ∧
      ∀ other ∈ queue, other.1 = view.1 ∨
        Outranks (drawAt R p.rng) (shown [queue, queue]) (demotions R p [queue]) view.1 other.1 := by
  intro p queue R
  have hdraws : ∀ i j, i < j → j < (shown [queue, queue]).length →
      drawAt R p.rng i ≠ drawAt R p.rng j := by
    intro i j hij hj
    have hlength : (shown [queue, queue]).length = 2 := by decide
    rw [hlength] at hj
    obtain ⟨rfl, rfl⟩ : i = 0 ∧ j = 1 := by omega
    decide +kernel
  have hfresh : p.Fresh {0} := ⟨rfl, rfl, rfl, rfl⟩
  have hbefore : ∀ q ∈ [queue], q ≠ [] := by decide
  have hready : queue ≠ [] := by decide
  obtain ⟨i, view, hchoose, hview, hmax, -⟩ :=
    (strict_priority (R := R) hfresh hbefore hready hdraws).1
  exact ⟨i, view, hchoose, hview, hmax⟩

end PCTPolicy

end SimLoop.Policy
