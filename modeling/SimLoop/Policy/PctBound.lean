/-
  Policy/PctBound.lean --- the bound the docstring of `PCTPolicy` states.

  Of all pairs of a ranking and a set of `d - 1` change points, at least the share
  1/(n * horizon^(d-1)) is to meet any `d` constraints that can be met.  That is so
  exactly when round robin meets them at all (`bound_iff`): one pair that hits is
  as good as many, because the rankings that keep the order of the chains inside
  every group of related chains hit with it.  The groups are those the constraints
  join; only when every constraint joins two of them do they need one draw more,
  and then the chains can simply run one after the other.
-/
import SimLoop.Foundation.Rankings
import SimLoop.Policy.PctProgram
import Mathlib.Data.Nat.Choose.Bounds
import Mathlib.Algebra.Order.BigOperators.Group.Finset
import Mathlib.Tactic.Positivity
import Mathlib.Tactic.Ring

set_option autoImplicit false

namespace SimLoop.Policy

open SimLoop.Foundation Equiv Finset Nat

namespace Program

variable {n d h : ℕ} {prog : Program n} {cs : Finset (prog.Step × prog.Step)}

/-- Some order of the chains and some marked steps make round robin meet the constraints:
each chain runs until it has run a marked step or has finished.  No more than `d - 1`
steps are marked, and the change points that mark none fit behind the last step. -/
def RoundRobinMeets (prog : Program n) (cs : Finset (prog.Step × prog.Step)) (d h : ℕ) : Prop :=
  ∃ (r : Perm (Fin n)) (P : Finset prog.Step), #P ≤ d - 1 ∧ d - 1 ≤ #P + (h - prog.total) ∧
    prog.Meets cs (roundRobin (fun _ x => decide (x ∈ P)) 0 (prog.inOrder r))

/-! ## Times and steps -/

section

variable {l : List prog.Step} (hl : prog.Complete l)

include hl

theorem Complete.getElem?_idxOf (x : prog.Step) : l[l.idxOf x]? = some x :=
  List.getElem?_idxOf (hl.mem x)

theorem Complete.idxOf_eq {t : ℕ} {x : prog.Step} (h : l[t]? = some x) : l.idxOf x = t := by
  obtain ⟨ht, rfl⟩ := List.getElem?_eq_some_iff.mp h
  exact hl.nodup.idxOf_getElem t ht

theorem Complete.idxOf_injective : Function.Injective l.idxOf := by
  intro x y (hxy : l.idxOf x = l.idxOf y)
  have := hl.getElem?_idxOf x
  rw [hxy, hl.getElem?_idxOf y] at this
  exact (Option.some.inj this).symm

theorem Complete.idxOf_lt (x : prog.Step) : l.idxOf x < prog.total := by
  rw [← hl.length_eq]
  exact List.idxOf_lt_length_iff.mpr (hl.mem x)

end

/-- What round robin can meet, some interleaving of the chains meets. -/
theorem RoundRobinMeets.satisfiable (hcond : RoundRobinMeets prog cs d h) :
    ∃ l, prog.Interleaving l ∧ prog.Meets cs l := by
  obtain ⟨r, P, -, -, hmeets⟩ := hcond
  exact ⟨_, prog.interleaving_roundRobin _ r, hmeets⟩

/-- Marks at times and marks on the steps that run at those times make one schedule. -/
theorem roundRobin_marks {r : Perm (Fin n)} {P : Finset prog.Step} {S : Finset ℕ}
    {l : List prog.Step} (hl : prog.Complete l)
    (h : ∀ x, l.idxOf x ∈ S ↔ x ∈ P) :
    roundRobin (fun _ x => decide (x ∈ P)) 0 (prog.inOrder r) = l ↔
      roundRobin (fun t _ => decide (t ∈ S)) 0 (prog.inOrder r) = l := by
  have hsame : ∀ i x, l[i]? = some x → decide (x ∈ P) = decide (0 + i ∈ S) := by
    intro i x hx
    rw [Nat.zero_add, ← hl.idxOf_eq hx, decide_eq_decide]
    exact (h x).symm
  constructor
  · rintro rfl
    exact roundRobin_congr hsame
  · rintro rfl
    exact roundRobin_congr fun i x hx => (hsame i x hx).symm

/-- Whatever a fresh policy draws, its schedule is an interleaving of the chains. -/
theorem interleaving_schedule {ρ : Type} {R : RandomSource ρ} (label : prog.Step → String)
    {p : PCTPolicy ρ} {S : Finset ℕ} {r : Perm (Fin n)} (hp : p.Fresh S) (hr : p.Ranks R r) :
    prog.Interleaving (prog.schedule label R p) := by
  rw [prog.schedule_eq_roundRobin label hp hr]
  set l := roundRobin (fun t _ => decide (t ∈ S)) 0 (prog.inOrder r)
  have hl : prog.Complete l := prog.complete_roundRobin _ 0 r
  rw [← (roundRobin_marks (P := univ.filter fun x => l.idxOf x ∈ S) (S := S) (r := r) hl
    fun x => by simp).mpr rfl]
  exact prog.interleaving_roundRobin _ r

/-- Marked steps that hit give change points that hit. -/
theorem exists_hit {r : Perm (Fin n)} {P : Finset prog.Step} (htotal : prog.total ≤ h)
    (hcard : #P ≤ d - 1) (hroom : d - 1 ≤ #P + (h - prog.total))
    (hmeets : prog.Meets cs (roundRobin (fun _ x => decide (x ∈ P)) 0 (prog.inOrder r))) :
    ∃ S ∈ (range h).powersetCard (d - 1), prog.Hits cs r S := by
  set l := roundRobin (fun _ x => decide (x ∈ P)) 0 (prog.inOrder r) with hl
  have hcomplete : prog.Complete l := prog.complete_roundRobin _ 0 r
  -- the marked steps' times, and the change points left over behind the last step
  set S := P.image l.idxOf ∪ Ico prog.total (prog.total + (d - 1 - #P)) with hS
  have htime : ∀ x, l.idxOf x ∈ S ↔ x ∈ P := by
    intro x
    have hlt := hcomplete.idxOf_lt x
    rw [hS, mem_union, mem_Ico, or_iff_left (by omega)]
    exact hcomplete.idxOf_injective.mem_finset_image
  refine ⟨S, mem_powersetCard.mpr ⟨fun t ht => ?_, ?_⟩, ?_⟩
  · rcases mem_union.mp ht with ht | ht
    · obtain ⟨x, -, rfl⟩ := mem_image.mp ht
      have := hcomplete.idxOf_lt x
      exact mem_range.mpr (by omega)
    · have := mem_Ico.mp ht
      exact mem_range.mpr (by omega)
  · have hdisj : Disjoint (P.image l.idxOf) (Ico prog.total (prog.total + (d - 1 - #P))) := by
      refine disjoint_left.mpr fun t ht ht' => ?_
      obtain ⟨x, -, rfl⟩ := mem_image.mp ht
      have := hcomplete.idxOf_lt x
      have := mem_Ico.mp ht'
      omega
    rw [card_union_of_disjoint hdisj, card_image_of_injective _ hcomplete.idxOf_injective,
      Nat.card_Ico]
    omega
  · rw [hits_iff, (roundRobin_marks hcomplete htime).mp rfl]
    exact hmeets

/-- Change points that hit mark steps that hit. -/
theorem roundRobinMeets_of_hits {r : Perm (Fin n)} {S : Finset ℕ}
    (hS : S ∈ (range h).powersetCard (d - 1)) (hhits : prog.Hits cs r S) :
    RoundRobinMeets prog cs d h := by
  obtain ⟨hsub, hcard⟩ := mem_powersetCard.mp hS
  rw [hits_iff] at hhits
  set l := roundRobin (fun t _ => decide (t ∈ S)) 0 (prog.inOrder r) with hl
  have hcomplete : prog.Complete l := prog.complete_roundRobin _ 0 r
  set P : Finset prog.Step := univ.filter fun x => l.idxOf x ∈ S with hP
  have himage : P.image l.idxOf ⊆ S := by
    intro t ht
    obtain ⟨x, hx, rfl⟩ := mem_image.mp ht
    exact (mem_filter.mp hx).2
  have hPcard : #(P.image l.idxOf) = #P := card_image_of_injective _ hcomplete.idxOf_injective
  refine ⟨r, P, ?_, ?_, ?_⟩
  · rw [← hPcard, ← hcard]
    exact card_le_card himage
  · have hcover : S ⊆ P.image l.idxOf ∪ Ico prog.total h := by
      intro t ht
      by_cases hlt : t < prog.total
      · obtain ⟨x, hx⟩ : ∃ x, l[t]? = some x :=
          ⟨_, List.getElem?_eq_getElem (hcomplete.length_eq ▸ hlt)⟩
        have hidx := hcomplete.idxOf_eq hx
        exact mem_union_left _ (mem_image.mpr ⟨x, by simp [hP, hidx, ht], hidx⟩)
      · have := mem_range.mp (hsub ht)
        exact mem_union_right _ (mem_Ico.mpr ⟨by omega, this⟩)
    have := (card_le_card hcover).trans (card_union_le _ _)
    rwa [hcard, hPcard, Nat.card_Ico] at this
  · rw [(roundRobin_marks hcomplete fun x => by simp [hP]).mpr rfl]
    exact hhits

/-! ## Rankings that agree on groups of chains -/

/-- Constraints inside groups of chains hold for every ranking that orders each group as
one does for which they hold. -/
theorem meets_of_agreesOn {κ : Fin n → Fin n} (hκ : ∀ e ∈ cs, κ e.1.1 = κ e.2.1)
    {r r' : Perm (Fin n)} (hr : AgreesOn κ r r') {mark : prog.Step → Bool}
    (hmeets : prog.Meets cs (roundRobin (fun _ => mark) 0 (prog.inOrder r))) :
    prog.Meets cs (roundRobin (fun _ => mark) 0 (prog.inOrder r')) := by
  intro e he
  set q : Fin n → Bool := fun c => κ c = κ e.1.1 with hq
  have hgroup : ((List.finRange n).map r.symm).filter q =
      ((List.finRange n).map r'.symm).filter q := by
    refine @List.Perm.eq_of_pairwise _ (fun a b => r a < r b) _ _ ?_ ?_ ?_ ?_
    · intro a b _ _ hab hba
      exact absurd hab hba.asymm
    · exact (pairwise_ranking r).filter q
    · refine List.Pairwise.imp_of_mem (fun {a b} ha hb hab => ?_) ((pairwise_ranking r').filter q)
      have ha := of_decide_eq_true (List.mem_filter.mp ha).2
      have hb := of_decide_eq_true (List.mem_filter.mp hb).2
      exact (hr a b (ha.trans hb.symm)).mp hab
    · exact ((perm_finRange_map r).trans (perm_finRange_map r').symm).filter q
  have hpair : [e.1, e.2].filter (fun x => q x.1) = [e.1, e.2] := by
    simp [hq, hκ e he]
  have hsub := (hmeets e he).filter fun x => q x.1
  rw [hpair, prog.filter_schedule q mark r, hgroup, ← prog.filter_schedule q mark r'] at hsub
  exact hsub.trans List.filter_sublist

/-- Chains run one after the other meet the constraints that lead from a chain to a later
one. -/
theorem meets_sequential {r : Perm (Fin n)} (hrise : ∀ e ∈ cs, r e.1.1 < r e.2.1) :
    prog.Meets cs (prog.inOrder r).flatten := by
  intro e he
  have hlt := hrise e he
  have hmem : ∀ c, c ∈ (List.finRange n).map r.symm :=
    fun c => List.mem_map.mpr ⟨r c, List.mem_finRange _, r.symm_apply_apply c⟩
  obtain ⟨before, after, hsplit⟩ := List.append_of_mem (hmem e.1.1)
  have hsorted := pairwise_ranking r
  have hlater : e.2.1 ∈ after := by
    have h2 := hmem e.2.1
    rw [hsplit] at h2 hsorted
    rcases List.mem_append.mp h2 with h2 | h2
    · exact absurd hlt ((List.pairwise_append.mp hsorted).2.2 _ h2 _ List.mem_cons_self).asymm
    · rcases List.mem_cons.mp h2 with heq | h2
      · exact absurd hlt (by rw [heq]; exact lt_irrefl _)
      · exact h2
  have hfirst : [e.1].Sublist (prog.chain e.1.1) :=
    List.singleton_sublist.mpr (prog.mem_chain.mpr rfl)
  have hsecond : [e.2].Sublist (after.map prog.chain).flatten :=
    List.singleton_sublist.mpr (List.mem_flatten.mpr
      ⟨_, List.mem_map_of_mem hlater, prog.mem_chain.mpr rfl⟩)
  rw [inOrder, hsplit, List.map_append, List.map_cons, List.flatten_append, List.flatten_cons]
  exact (hfirst.append hsecond).trans (List.sublist_append_right _ _)

/-! ## Marks that change nothing -/

/-- The last step of a chain. -/
def lastStep (prog : Program n) (c : Fin n) : prog.Step :=
  ⟨c, ⟨prog.length c - 1, Nat.sub_lt (prog.length_pos c) one_pos⟩⟩

/-- The times at which chains finish when they run one after the other. -/
def finishTimes (prog : Program n) (r : Perm (Fin n)) : Finset ℕ :=
  univ.image fun c => (prog.inOrder r).flatten.idxOf (prog.lastStep c)

theorem card_finishTimes (r : Perm (Fin n)) : #(prog.finishTimes r) = n := by
  rw [finishTimes, Finset.card_image_of_injective, Finset.card_univ, Fintype.card_fin]
  intro a b hab
  have := (prog.complete_flatten_inOrder r).idxOf_injective hab
  exact congrArg Sigma.fst this

/-- A step that ends a tail of its chain with nothing after it is the last. -/
theorem eq_nil_of_lastStep {c : Fin n} {x : prog.Step} {xs : List prog.Step}
    (hsuffix : x :: xs <:+ prog.chain c) (hx : x = prog.lastStep c) : xs = [] := by
  obtain ⟨before, hchain⟩ := hsuffix
  have hlen : before.length + (xs.length + 1) = prog.length c := by
    simpa using congrArg List.length hchain
  have hget : (prog.chain c)[before.length]? = some x := by
    rw [← hchain]
    simp
  have hplace : before.length = prog.length c - 1 := by
    have hlt : before.length < prog.length c := by omega
    rw [chain, List.getElem?_map, List.getElem?_eq_getElem (by simpa using hlt),
      List.getElem_finRange, Option.map_some, Option.some.injEq, hx, lastStep] at hget
    exact congrArg Fin.val (eq_of_heq (Sigma.mk.inj hget).2)
  exact List.length_eq_zero_iff.mp (by omega)

/-- With change points only where chains finish, the chains run one after the other. -/
theorem roundRobin_finishTimes {r : Perm (Fin n)} {S : Finset ℕ}
    (hS : S ⊆ prog.finishTimes r) :
    roundRobin (fun t _ => decide (t ∈ S)) 0 (prog.inOrder r) = (prog.inOrder r).flatten := by
  refine @roundRobin_sequential _ _ (fun x => x = prog.lastStep x.1) _ _ ?_ ?_
  · intro l hl x xs hsuffix hx
    obtain ⟨c, -, rfl⟩ := List.mem_map.mp hl
    have hc : x.1 = c := prog.mem_chain.mp (hsuffix.subset List.mem_cons_self)
    exact eq_nil_of_lastStep hsuffix (hc ▸ hx)
  · intro i x hx hi
    obtain ⟨c, -, hc⟩ := mem_image.mp (hS (by simpa using of_decide_eq_true hi))
    have hcomplete := prog.complete_flatten_inOrder r
    have : x = prog.lastStep c :=
      hcomplete.idxOf_injective ((hcomplete.idxOf_eq hx).trans hc.symm)
    rw [this]
    rfl

/-- Constraints that lead from a chain to a later one are met by every choice of change
points among the times at which chains finish. -/
theorem choose_le_card_hits (htotal : prog.total ≤ h) {r : Perm (Fin n)}
    (hrise : ∀ e ∈ cs, r e.1.1 < r e.2.1) :
    n.choose (d - 1) ≤ #(((range h).powersetCard (d - 1)).filter fun S => prog.Hits cs r S) := by
  calc n.choose (d - 1) = #((prog.finishTimes r).powersetCard (d - 1)) := by
        rw [card_powersetCard, card_finishTimes]
    _ ≤ _ := card_le_card fun S hS => by
        obtain ⟨hsub, hcard⟩ := mem_powersetCard.mp hS
        refine mem_filter.mpr ⟨mem_powersetCard.mpr ⟨fun t ht => ?_, hcard⟩, ?_⟩
        · obtain ⟨c, -, rfl⟩ := mem_image.mp (hsub ht)
          have := (prog.complete_flatten_inOrder r).idxOf_lt (prog.lastStep c)
          exact mem_range.mpr (by omega)
        · rw [hits_iff, roundRobin_finishTimes hsub]
          exact meets_sequential hrise

/-! ## The count -/

theorem card_draws : #(draws n d h) = n ! * h.choose (d - 1) := by
  rw [draws, card_product, card_powersetCard, card_range, Finset.card_univ, Fintype.card_perm,
    Fintype.card_fin]

/-- Draws that hit, counted ranking by ranking. -/
theorem card_mul_le_card_hits {G : Finset (Perm (Fin n))} {H : ℕ}
    (hG : ∀ r ∈ G, H ≤ #(((range h).powersetCard (d - 1)).filter fun S => prog.Hits cs r S)) :
    #G * H ≤ #(prog.hits cs d h) := by
  have hsum : #(prog.hits cs d h) =
      ∑ r, #(((range h).powersetCard (d - 1)).filter fun S => prog.Hits cs r S) := by
    rw [hits, draws, card_filter, sum_product]
    exact sum_congr rfl fun r _ => (card_filter _ _).symm
  rw [hsum]
  calc #G * H ≤ ∑ r ∈ G, #(((range h).powersetCard (d - 1)).filter fun S => prog.Hits cs r S) := by
        simpa using card_nsmul_le_sum G _ H hG
    _ ≤ _ := sum_le_sum_of_subset (subset_univ G)

/-- `m` of the constraints join groups of chains.  The rankings of a set `G` make up at
least one in `(m + 1) !`, and each hits with at least as many sets of change points
as it takes. -/
theorem exists_hitting_rankings (hd : 1 ≤ d) (hcs : cs.card = d) (htotal : prog.total ≤ h)
    (hcond : RoundRobinMeets prog cs d h) :
    ∃ (G : Finset (Perm (Fin n))) (m H : ℕ), n ! ≤ #G * (m + 1)! ∧
      (m + 1)! ≤ n * H * (d - 1)! ∧
      ∀ r ∈ G, H ≤ #(((range h).powersetCard (d - 1)).filter fun S => prog.Hits cs r S) := by
  obtain ⟨κ, m, hm, hgroups, hjoined, hheight⟩ :=
    exists_classes (cs.toList.map fun e => (e.1.1, e.2.1))
  rw [List.length_map, length_toList, hcs] at hm hheight
  have hκ : ∀ e ∈ cs, κ e.1.1 = κ e.2.1 := fun e he =>
    hjoined _ (List.mem_map.mpr ⟨e, mem_toList.mpr he, rfl⟩)
  obtain ⟨e₀, he₀⟩ : cs.Nonempty := card_pos.mp (by omega)
  have hchains : m + 1 ≤ n := by
    have := card_pos.mpr ⟨κ e₀.1.1, mem_image_of_mem κ (mem_univ e₀.1.1)⟩
    omega
  have hcount : ∀ r : Perm (Fin n), n ! ≤ #(univ.filter fun r' => AgreesOn κ r r') * (m + 1)! :=
    fun r => (factorial_le_agreeing κ r).trans
      (Nat.mul_le_mul_left _ (prod_factorial_classes_le hgroups))
  rcases Nat.lt_or_ge m d with hlt | hge
  · -- some constraint joins nothing new: the one draw is enough
    obtain ⟨r, P, hcard, hroom, hmeets⟩ := hcond
    refine ⟨_, m, 1, hcount r, ?_, fun r' hr' => ?_⟩
    · rw [factorial_succ, mul_one]
      exact Nat.mul_le_mul hchains (factorial_le (by omega))
    · obtain ⟨S, hS, hhits⟩ := exists_hit htotal hcard hroom
        (meets_of_agreesOn hκ (mem_filter.mp hr').2 hmeets)
      exact card_pos.mpr ⟨S, mem_filter.mpr ⟨hS, hhits⟩⟩
  · -- every constraint joins two groups: the chains can run one after the other
    obtain rfl : m = d := by omega
    obtain ⟨height, hrise⟩ := hheight rfl
    obtain ⟨r, hr⟩ := exists_ranking_of_height height
    refine ⟨_, m, n.choose (m - 1), hcount r, ?_, fun r' hr' => ?_⟩
    · have hchoose : m ≤ n.choose (m - 1) := by
        calc m = m.choose (m - 1) := by
              obtain ⟨k, rfl⟩ := Nat.exists_eq_add_of_le' hd
              exact (choose_succ_self_right k).symm
          _ ≤ n.choose (m - 1) := choose_mono _ (by omega)
      calc (m + 1)! = (m + 1) * m * (m - 1)! := by
            rw [factorial_succ, mul_assoc, Nat.mul_factorial_pred (by omega)]
        _ ≤ n * n.choose (m - 1) * (m - 1)! :=
            Nat.mul_le_mul_right _ (Nat.mul_le_mul hchains hchoose)
    · refine choose_le_card_hits htotal fun e he => ?_
      exact ((mem_filter.mp hr').2 _ _ (hκ e he)).mpr
        (hr _ _ (hrise _ (List.mem_map.mpr ⟨e, mem_toList.mpr he, rfl⟩)))

/-- The bound holds exactly when round robin can meet the constraints. -/
theorem bound_iff (prog : Program n) (cs : Finset (prog.Step × prog.Step)) (hd : 1 ≤ d)
    (hcs : cs.card = d) (hroom : d - 1 ≤ h) (htotal : prog.total ≤ h) :
    1 / (n * h ^ (d - 1) : ℚ) ≤ prog.hitFraction cs d h ↔ RoundRobinMeets prog cs d h := by
  obtain ⟨e₀, -⟩ : cs.Nonempty := card_pos.mp (by omega)
  have hn : 0 < n := e₀.1.1.pos
  have hh : 0 < h := by
    have hstep := (prog.complete_flatten_inOrder 1).idxOf_lt e₀.1
    omega
  have hpow : (0 : ℚ) < n * h ^ (d - 1) := by positivity
  constructor
  · intro hbound
    have hpos : 0 < prog.hitFraction cs d h := lt_of_lt_of_le (by positivity) hbound
    have hcard : #(prog.hits cs d h) ≠ 0 := by
      intro hzero
      simp [hitFraction, hzero] at hpos
    obtain ⟨⟨r, S⟩, hx⟩ := card_pos.mp (Nat.pos_of_ne_zero hcard)
    obtain ⟨hx, hhits⟩ := mem_filter.mp hx
    exact roundRobinMeets_of_hits (mem_product.mp hx).2 hhits
  · intro hcond
    obtain ⟨G, m, H, hG, hm, hH⟩ := exists_hitting_rankings hd hcs htotal hcond
    have hdraws : (0 : ℚ) < #(draws n d h) := by
      rw [card_draws]
      exact_mod_cast Nat.mul_pos (factorial_pos n) (choose_pos hroom)
    rw [hitFraction, div_le_div_iff₀ hpow hdraws, one_mul]
    have hcount : #(draws n d h) ≤ #(prog.hits cs d h) * (n * h ^ (d - 1)) := by
      calc #(draws n d h) = n ! * h.choose (d - 1) := card_draws
        _ ≤ #G * (n * H * (d - 1)!) * h.choose (d - 1) :=
            Nat.mul_le_mul_right _ (hG.trans (Nat.mul_le_mul_left _ hm))
        _ = #G * H * (n * ((d - 1)! * h.choose (d - 1))) := by ring
        _ ≤ #(prog.hits cs d h) * (n * h ^ (d - 1)) := by
            refine Nat.mul_le_mul (card_mul_le_card_hits hH) (Nat.mul_le_mul_left _ ?_)
            rw [← descFactorial_eq_factorial_mul_choose]
            exact descFactorial_le_pow h (d - 1)
    exact_mod_cast hcount

/-! ## A program the bound leaves out -/

/-- Three chains `a₀ a₁`, `b₀ b₁` and `c₀`. -/
def crossing : Program 3 where
  length := ![2, 2, 1]
  length_pos := by decide
  owner c := c
  owner_injective := Nat.cast_injective.comp Fin.val_injective

/-- Step `k` of chain `c`. -/
def step (prog : Program n) (c : Fin n) (k : ℕ) (hk : k < prog.length c := by decide) :
    prog.Step :=
  ⟨c, k, hk⟩

/-- The constraints that only `a₀ b₀ c₀ b₁ a₁` meets. -/
def crossingOrder : Finset (crossing.Step × crossing.Step) :=
  {(crossing.step 0 0, crossing.step 1 0), (crossing.step 1 0, crossing.step 2 0),
    (crossing.step 2 0, crossing.step 1 1), (crossing.step 1 1, crossing.step 0 1)}

/-- The bound fails for them: the chain demoted first is the first to come back, so once
`a` and then `b` have been interrupted `a₁` runs before `b₁`, and no draw hits. -/
theorem not_bound_crossing :
    (∃ l, crossing.Interleaving l ∧ crossing.Meets crossingOrder l) ∧
      crossingOrder.card = 4 ∧ 4 - 1 ≤ 5 ∧ crossing.total ≤ 5 ∧
      ¬ 1 / ((3 : ℕ) * (5 : ℕ) ^ (4 - 1) : ℚ) ≤ crossing.hitFraction crossingOrder 4 5 := by
  refine ⟨⟨[crossing.step 0 0, crossing.step 1 0, crossing.step 2 0, crossing.step 1 1,
    crossing.step 0 1], ?_, ?_⟩, by decide, by decide, by decide, ?_⟩
  · unfold Interleaving
    decide
  · decide
  · have hnone : crossing.hits crossingOrder 4 5 = ∅ := by
      refine filter_eq_empty_iff.mpr ?_
      decide +kernel
    rw [hitFraction, hnone, card_empty, Nat.cast_zero, zero_div, not_le]
    positivity

/-- Two chains of two steps each. -/
def lostUpdate : Program 2 where
  length := ![2, 2]
  length_pos := by decide
  owner c := c
  owner_injective := Nat.cast_injective.comp Fin.val_injective

/-- Both chains read before either writes. -/
def lostUpdateOrder : Finset (lostUpdate.Step × lostUpdate.Step) :=
  {(lostUpdate.step 0 0, lostUpdate.step 1 1), (lostUpdate.step 1 0, lostUpdate.step 0 1)}

theorem bound_iff_lostUpdate :
    1 / ((2 : ℕ) * (4 : ℕ) ^ (2 - 1) : ℚ) ≤ lostUpdate.hitFraction lostUpdateOrder 2 4 :=
  (bound_iff lostUpdate lostUpdateOrder (by decide) (by decide) (by decide) (by decide)).mpr
    ⟨1, {lostUpdate.step 0 0}, by decide, by decide, by decide⟩

end Program

end SimLoop.Policy
