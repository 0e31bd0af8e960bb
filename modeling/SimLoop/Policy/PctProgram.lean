/-
  Policy/PctProgram.lean --- PCT on a finite program of chains.

  The schedule of a program depends on two things alone: how the first draws rank
  the chains and which steps are change points (`schedule_eq_roundRobin`).  Every
  ranking and every set `__init__` can sample is drawn by some stream
  (`exists_drawn`), so the pairs of the two are what a run of PCT is drawn from.
-/
import SimLoop.Policy.PctSchedule
import Mathlib.Data.Finset.Powerset
import Mathlib.Data.Finset.Sort
import Mathlib.Data.List.Sort
import Mathlib.Algebra.BigOperators.Fin
import Mathlib.Data.Fintype.Sigma
import Mathlib.Data.Fintype.Perm
import Mathlib.Algebra.Order.Field.Basic

set_option autoImplicit false

namespace SimLoop.Policy

open SimLoop.Foundation Equiv

/-! ## Programs -/

/-- A program of `n` chains, each owned by a task and with a step to run. -/
structure Program (n : Nat) where
  length : Fin n → Nat
  length_pos : ∀ c, 0 < length c
  owner : Fin n → Int
  owner_injective : Function.Injective owner

namespace Program

variable {n : Nat} (prog : Program n)

/-- A step of the program: its chain and its place in the chain. -/
abbrev Step : Type := Σ c : Fin n, Fin (prog.length c)

/-- The steps of the program. -/
def total : Nat := ∑ c, prog.length c

/-- The steps of one chain, in order. -/
def chain (c : Fin n) : List prog.Step :=
  (List.finRange (prog.length c)).map (Sigma.mk c)

/-- The first step of a chain. -/
def firstStep (c : Fin n) : prog.Step :=
  ⟨c, ⟨0, prog.length_pos c⟩⟩

/-- A chain when it enters the ready queue. -/
def ready (c : Fin n) : ReadyChain prog.Step :=
  ⟨prog.owner c, prog.firstStep c, (prog.chain c).tail⟩

/-- The steps in the order the program runs them: at most as many steps as there are,
from a queue that holds every chain. -/
def schedule {ρ : Type} (label : prog.Step → String) (R : RandomSource ρ) (p : PCTPolicy ρ) :
    List prog.Step :=
  pctRun label R prog.total p ((List.finRange n).map prog.ready)

/-- An order in which the steps can run: each chain runs its own steps in order. -/
def Interleaving (l : List prog.Step) : Prop :=
  ∀ c, l.filter (fun x => x.1 = c) = prog.chain c

/-- Every constraint holds: the first of its two steps runs before the second. -/
def Meets (cs : Finset (prog.Step × prog.Step)) (l : List prog.Step) : Prop :=
  ∀ e ∈ cs, [e.1, e.2].Sublist l

instance (cs : Finset (prog.Step × prog.Step)) (l : List prog.Step) :
    Decidable (prog.Meets cs l) :=
  inferInstanceAs (Decidable (∀ e ∈ cs, _))

/-- The chains from the first in a ranking to the last. -/
def inOrder (r : Perm (Fin n)) : List (List prog.Step) :=
  ((List.finRange n).map r.symm).map prog.chain

@[simp] theorem length_chain (c : Fin n) : (prog.chain c).length = prog.length c := by
  simp [chain]

theorem mem_chain {c : Fin n} {x : prog.Step} : x ∈ prog.chain c ↔ x.1 = c := by
  constructor
  · intro h
    obtain ⟨k, -, rfl⟩ := List.mem_map.mp h
    rfl
  · rintro rfl
    exact List.mem_map.mpr ⟨x.2, List.mem_finRange _, rfl⟩

theorem nodup_chain (c : Fin n) : (prog.chain c).Nodup :=
  (List.nodup_finRange _).map sigma_mk_injective

theorem steps_ready (c : Fin n) : (prog.ready c).steps = prog.chain c := by
  have hne : prog.chain c ≠ [] := List.length_pos_iff.mp (by simpa using prog.length_pos c)
  have hhead : (prog.chain c).head hne = prog.firstStep c := by
    simp only [chain, List.head_eq_getElem, List.getElem_map, List.getElem_finRange, firstStep]
    rfl
  rw [← List.cons_head_tail hne, hhead]
  rfl

/-! ## Every step once -/

theorem nodup_flatten_inOrder (r : Perm (Fin n)) : (prog.inOrder r).flatten.Nodup := by
  rw [List.nodup_flatten]
  constructor
  · intro l hl
    obtain ⟨c, -, rfl⟩ := List.mem_map.mp hl
    exact prog.nodup_chain c
  · refine List.pairwise_map.mpr (((List.nodup_finRange n).map r.symm.injective).imp ?_)
    intro a b hab x ha hb
    exact hab ((prog.mem_chain.mp ha).symm.trans (prog.mem_chain.mp hb))

theorem mem_flatten_inOrder (r : Perm (Fin n)) (x : prog.Step) :
    x ∈ (prog.inOrder r).flatten := by
  refine List.mem_flatten.mpr ⟨prog.chain x.1, List.mem_map_of_mem ?_, prog.mem_chain.mpr rfl⟩
  exact List.mem_map.mpr ⟨r x.1, List.mem_finRange _, r.symm_apply_apply _⟩

/-- A list of the program's steps that holds each once. -/
structure Complete (l : List prog.Step) : Prop where
  nodup : l.Nodup
  mem : ∀ x, x ∈ l

theorem complete_roundRobin (mark : Nat → prog.Step → Bool) (t : Nat) (r : Perm (Fin n)) :
    prog.Complete (roundRobin mark t (prog.inOrder r)) where
  nodup := (roundRobin_perm mark t _).symm.nodup (prog.nodup_flatten_inOrder r)
  mem x := (roundRobin_perm mark t _).mem_iff.mpr (prog.mem_flatten_inOrder r x)

variable {prog} in
theorem Complete.length_eq {l : List prog.Step} (h : prog.Complete l) :
    l.length = prog.total := by
  have huniv : l.toFinset = Finset.univ := Finset.eq_univ_of_forall fun x => by simpa using h.mem x
  rw [← List.toFinset_card_of_nodup h.nodup, huniv, Finset.card_univ, Fintype.card_sigma]
  simp [total]

theorem complete_flatten_inOrder (r : Perm (Fin n)) :
    prog.Complete (prog.inOrder r).flatten :=
  ⟨prog.nodup_flatten_inOrder r, prog.mem_flatten_inOrder r⟩

/-! ## The chains of a class -/

theorem filter_chain (q : Fin n → Bool) (c : Fin n) :
    (prog.chain c).filter (fun x => q x.1) = if q c then prog.chain c else [] := by
  split
  · rename_i hq
    exact List.filter_eq_self.mpr fun x hx => by rw [prog.mem_chain.mp hx, hq]
  · rename_i hq
    exact List.filter_eq_nil_iff.mpr fun x hx => by rwa [prog.mem_chain.mp hx]

theorem separates_inOrder (q : Fin n → Bool) (r : Perm (Fin n)) :
    Separates (fun x : prog.Step => q x.1) (prog.inOrder r) := by
  intro l hl
  obtain ⟨c, -, rfl⟩ := List.mem_map.mp hl
  cases hq : q c with
  | true => exact .inl fun x hx => (congrArg q (prog.mem_chain.mp hx)).trans hq
  | false => exact .inr fun x hx => (congrArg q (prog.mem_chain.mp hx)).trans hq

/-- Seen through a class of chains, the schedule of the program is the schedule of the
class. -/
theorem filter_schedule (q : Fin n → Bool) (mark : prog.Step → Bool) (r : Perm (Fin n)) :
    (roundRobin (fun _ => mark) 0 (prog.inOrder r)).filter (fun x => q x.1) =
      roundRobin (fun _ => mark) 0 ((((List.finRange n).map r.symm).filter q).map prog.chain) := by
  have hclass : ∀ l : List (Fin n),
      ((l.map prog.chain).map (·.filter fun x => q x.1)).filter (! ·.isEmpty) =
        (l.filter q).map prog.chain := by
    intro l
    induction l with
    | nil => rfl
    | cons c l ih =>
        have hne : (prog.chain c).isEmpty = false := by
          rw [List.isEmpty_eq_false_iff, ← List.length_pos_iff, length_chain]
          exact prog.length_pos c
        simp only [List.map_cons, List.filter_cons, prog.filter_chain q c]
        cases hq : q c with
        | true => simpa [hne] using ih
        | false => simpa using ih
  rw [filter_roundRobin mark 0 0 (prog.separates_inOrder q r), inOrder, ← hclass]
  exact (roundRobin_filter_nonempty _ _ [] _).symm

/-- A schedule of the program is an interleaving of its chains. -/
theorem interleaving_roundRobin (mark : prog.Step → Bool) (r : Perm (Fin n)) :
    prog.Interleaving (roundRobin (fun _ => mark) 0 (prog.inOrder r)) := by
  intro c
  have honly : ((List.finRange n).map r.symm).filter (fun a => a = c) = [c] := by
    have hnodup : ((List.finRange n).map r.symm).Nodup :=
      (List.nodup_finRange n).map r.symm.injective
    have hmem : c ∈ (List.finRange n).map r.symm :=
      List.mem_map.mpr ⟨r c, List.mem_finRange _, r.symm_apply_apply c⟩
    rw [List.filter_eq, List.count_eq_one_of_mem hnodup hmem]
    rfl
  rw [prog.filter_schedule (fun a => decide (a = c)) mark r, honly]
  exact roundRobin_single _ _ _

end Program

/-! ## What a run of PCT is drawn from -/

section

variable {n : Nat} {ρ : Type} {R : RandomSource ρ}

/-- The policy as `__init__` leaves it when it has sampled the change points `S`. -/
structure PCTPolicy.Fresh (p : PCTPolicy ρ) (S : Finset Nat) : Prop where
  priorities : p.priorities = Dict.empty
  floor : p.floor = 0
  stepCount : p.stepCount = 0
  changePoints : p.changePoints = S

/-- The first draws rank the chains as `r` does: of two chains the one before draws the
higher priority. -/
def PCTPolicy.Ranks (R : RandomSource ρ) (p : PCTPolicy ρ) (r : Perm (Fin n)) : Prop :=
  ∀ a b : Fin n, r a < r b → PCTPolicy.drawAt R p.rng b < PCTPolicy.drawAt R p.rng a

/-- `__init__` samples `depth - 1` of the first `horizon` steps. -/
theorem PCTPolicy.init_fresh {seed : Int} {depth horizon : Int} {p : PCTPolicy ρ}
    (h : PCTPolicy.init R seed depth horizon = .ok p) :
    ∃ S ∈ (Finset.range horizon.toNat).powersetCard (depth - 1).toNat, p.Fresh S := by
  unfold PCTPolicy.init at h
  split at h
  · cases h
  · split at h
    · cases h
    · split at h
      · cases h
      · rename_i hd hh hroom
        have hle : (depth - 1).toNat ≤ horizon.toNat := by omega
        simp only [Except.ok.injEq] at h
        subst h
        refine ⟨_, ?_, rfl, rfl, rfl, rfl⟩
        rw [Finset.mem_powersetCard, List.toFinset_card_of_nodup (R.sample_nodup _ _ _ hle)]
        refine ⟨fun x hx => ?_, R.sample_length _ _ _ hle⟩
        exact Finset.mem_range.mpr (R.sample_lt _ _ _ hle x (List.mem_toFinset.mp hx))

namespace Program

variable (prog : Program n)

theorem perm_finRange_map (r : Perm (Fin n)) :
    ((List.finRange n).map r.symm).Perm (List.finRange n) :=
  (List.perm_ext_iff_of_nodup ((List.nodup_finRange n).map r.symm.injective)
    (List.nodup_finRange n)).mpr fun a => by
      simp only [List.mem_map, List.mem_finRange, true_and, iff_true]
      exact ⟨r a, r.symm_apply_apply a⟩

/-- The chains stand in `inOrder` from the first in the ranking to the last. -/
theorem pairwise_ranking (r : Perm (Fin n)) :
    ((List.finRange n).map r.symm).Pairwise fun a b => r a < r b :=
  List.pairwise_map.mpr
    ((List.sortedLT_finRange n).pairwise.imp fun h => by simpa using h)

/-- Once the first queue is priced the chains are ranked by their draws. -/
theorem ranked_ready (label : prog.Step → String) {p : PCTPolicy ρ} {S : Finset Nat}
    {r : Perm (Fin n)} (hp : p.Fresh S) (hr : p.Ranks R r) :
    let views := readyViews label ((List.finRange n).map prog.ready)
    PCTPolicy.choose R (PCTPolicy.priorityAll R p views).2 views = PCTPolicy.choose R p views ∧
    Ranked (PCTPolicy.priorityAll R p views).2 ((List.finRange n).map prog.ready)
      (((List.finRange n).map r.symm).map prog.ready) := by
  intro views
  set q := (PCTPolicy.priorityAll R p views).2 with hq
  have howners : (views.map Prod.fst).Nodup := by
    have : views.map Prod.fst = (List.finRange n).map prog.owner := by
      simp [views, readyViews, ready, Function.comp_def]
    rw [this]
    exact (List.nodup_finRange n).map prog.owner_injective
  obtain ⟨hdrawn, -⟩ := PCTPolicy.priorityAll_draws R howners
    (p := p) fun view _ => by rw [hp.priorities, Dict.get?_empty]
  have hget : ∀ c : Fin n,
      q.priorities.get? (prog.owner c) = some (PCTPolicy.drawAt R p.rng c + 1) := by
    intro c
    refine hdrawn c (prog.owner c, label (prog.ready c).next) ?_
    simp [views, readyViews, ready]
  set price : Int → ℚ := fun owner => (q.priorities.get? owner).getD 0 with hprice
  have hpriced : ∀ c, price (prog.owner c) = PCTPolicy.drawAt R p.rng c + 1 := by
    intro c
    simp only [hprice, hget, Option.getD_some]
  constructor
  · refine @PCTPolicy.choose_priorityAll _ R _ price _ fun view hview => ?_
    obtain ⟨e, he, rfl⟩ := List.mem_map.mp hview
    obtain ⟨c, -, rfl⟩ := List.mem_map.mp he
    exact (hget c).trans (congrArg some (hpriced c).symm)
  · refine ⟨(perm_finRange_map r).map _, ?_, price, fun e he => ?_, ?_⟩
    · rw [List.map_map]
      exact ((List.nodup_finRange n).map r.symm.injective).map prog.owner_injective
    · obtain ⟨c, -, rfl⟩ := List.mem_map.mp he
      refine ⟨(hget c).trans (congrArg some (hpriced c).symm), ?_⟩
      have hfloor : q.floor = 0 := (PCTPolicy.priorityAll_frame R p views).1.trans hp.floor
      rw [hfloor, ready, hpriced]
      exact (PCTPolicy.drawAt_nonneg R p.rng c).trans (le_add_of_nonneg_right zero_le_one)
    · refine List.pairwise_map.mpr ((pairwise_ranking r).imp fun {a b} hab => ?_)
      simp only [ready, hpriced]
      exact (add_lt_add_iff_right 1).mpr (hr a b hab)

/-- What a policy with the ranking `r` and the change points `S` makes of a program. -/
theorem schedule_eq_roundRobin (label : prog.Step → String) {p : PCTPolicy ρ} {S : Finset Nat}
    {r : Perm (Fin n)} (hp : p.Fresh S) (hr : p.Ranks R r) :
    prog.schedule label R p = roundRobin (fun t _ => decide (t ∈ S)) 0 (prog.inOrder r) := by
  obtain ⟨hchoose, hranked⟩ := prog.ranked_ready label hp hr
  set q := (PCTPolicy.priorityAll R p (readyViews label ((List.finRange n).map prog.ready))).2
  have hsame : prog.schedule label R p = prog.schedule label R q := by
    unfold schedule
    cases prog.total with
    | zero => rfl
    | succ fuel => simp only [pctRun, hchoose]
  have hsteps : (((List.finRange n).map r.symm).map prog.ready).map ReadyChain.steps =
      prog.inOrder r := by
    rw [List.map_map, inOrder]
    exact congrArg (List.map · _) (funext prog.steps_ready)
  obtain ⟨-, hstep, hpoints⟩ := PCTPolicy.priorityAll_frame R p
    (readyViews label ((List.finRange n).map prog.ready))
  rw [hsame, schedule, pctRun_eq_roundRobin hranked, hsteps, hstep, hpoints, hp.stepCount,
    hp.changePoints]
  rw [hsteps, (prog.complete_flatten_inOrder r).length_eq]

end Program

/-! ## Every pair is drawn -/

/-- A stream whose first draws rank the chains as `r` does and whose sample is `S`. -/
def drawing (r : Perm (Fin n)) (S : Finset Nat) : RandomSource Nat where
  seeded _ := 0
  seededInt _ := 0
  random k := (if h : k < n then ((n - 1 - r ⟨k, h⟩ : Nat) : ℚ) / n else 0, k + 1)
  uniform k lo _ := (lo, k)
  randint k lo _ := (lo, k)
  randrange k _ := (0, k)
  getrandbits k _ := (0, k)
  sample k m j := (if S.card = j ∧ ∀ x ∈ S, x < m then S.sort else List.range j, k)
  random_mem k := by
    dsimp only
    split
    · rename_i h
      have hn : (0 : ℚ) < n := by exact_mod_cast Nat.zero_lt_of_lt h
      refine ⟨div_nonneg (Nat.cast_nonneg _) hn.le, (div_lt_one hn).mpr ?_⟩
      exact_mod_cast (by omega : n - 1 - (r ⟨k, h⟩ : Nat) < n)
    · exact ⟨le_refl 0, zero_lt_one⟩
  uniform_mem _ _ _ h := ⟨le_refl _, h⟩
  randint_mem _ _ _ h := ⟨le_refl _, h⟩
  randrange_lt _ _ h := h
  getrandbits_lt _ k := Nat.two_pow_pos k
  sample_length k m j h := by
    dsimp only
    split
    · rename_i hS
      rw [Finset.length_sort, hS.1]
    · exact List.length_range
  sample_nodup k m j h := by
    dsimp only
    split
    · exact Finset.sort_nodup _ _
    · exact List.nodup_range
  sample_lt k m j h x hx := by
    dsimp only at hx
    split at hx
    · rename_i hS
      exact hS.2 x ((Finset.mem_sort _).mp hx)
    · exact Nat.lt_of_lt_of_le (List.mem_range.mp hx) h

theorem drawAt_drawing (r : Perm (Fin n)) (S : Finset Nat) (k i : Nat) (h : k + i < n) :
    PCTPolicy.drawAt (drawing r S) k i = ((n - 1 - r ⟨k + i, h⟩ : Nat) : ℚ) / n := by
  induction i generalizing k with
  | zero =>
      have hk : k < n := h
      simp [PCTPolicy.drawAt, drawing, hk]
  | succ i ih =>
      have := ih (k + 1) (by omega)
      simp only [PCTPolicy.drawAt]
      refine this.trans ?_
      simp only [Nat.add_right_comm k 1 i, Nat.add_assoc]

theorem ranks_drawing (r : Perm (Fin n)) (S : Finset Nat) {p : PCTPolicy Nat} (hp : p.rng = 0) :
    p.Ranks (drawing r S) r := by
  intro a b hab
  have hn : (0 : ℚ) < n := by exact_mod_cast a.pos
  rw [hp, drawAt_drawing r S 0 a (by omega), drawAt_drawing r S 0 b (by omega)]
  refine (div_lt_div_iff_of_pos_right hn).mpr ?_
  simp only [Nat.zero_add, Fin.eta]
  exact_mod_cast (by omega : n - 1 - (r b : Nat) < n - 1 - (r a : Nat))

/-- Every ranking and every set `__init__` can sample are drawn together. -/
theorem exists_drawn (r : Perm (Fin n)) {d h : Nat} (hd : 1 ≤ d) (hh : 1 ≤ h) {S : Finset Nat}
    (hS : S ∈ (Finset.range h).powersetCard (d - 1)) :
    ∃ p, PCTPolicy.init (drawing r S) 0 d h = .ok p ∧ p.Fresh S ∧ p.Ranks (drawing r S) r := by
  obtain ⟨hsub, hcard⟩ := Finset.mem_powersetCard.mp hS
  have hroom : d - 1 ≤ h := by
    have := Finset.card_le_card hsub
    rwa [hcard, Finset.card_range] at this
  have hsample : ((drawing r S).sample 0 h (d - 1)).1 = S.sort :=
    if_pos ⟨hcard, fun x hx => Finset.mem_range.mp (hsub hx)⟩
  refine ⟨⟨0, Dict.empty, 0, S, 0, none⟩, ?_, ⟨rfl, rfl, rfl, rfl⟩, ranks_drawing r S rfl⟩
  have h1 : ¬ (d : Int) < 1 := by omega
  have h2 : ¬ (h : Int) < 1 := by omega
  have h3 : ¬ (d : Int) - 1 > h := by omega
  have hnat : ((d : Int) - 1).toNat = d - 1 := by omega
  simp only [PCTPolicy.init, if_neg h1, if_neg h2, if_neg h3, hnat, Int.toNat_natCast]
  change Except.ok (⟨_, _, _, ((drawing r S).sample 0 h (d - 1)).1.toFinset, _, _⟩ :
    PCTPolicy Nat) = _
  rw [hsample, Finset.sort_toFinset]
  rfl

end

/-! ## The fraction of the draws that hit -/

namespace Program

variable {n : Nat} (prog : Program n) (cs : Finset (prog.Step × prog.Step))

/-- The schedule of every policy with this ranking and these change points meets the
constraints. -/
def Hits (r : Perm (Fin n)) (S : Finset Nat) : Prop :=
  ∀ (ρ : Type) (R : RandomSource ρ) (label : prog.Step → String) (p : PCTPolicy ρ),
    p.Fresh S → p.Ranks R r → prog.Meets cs (prog.schedule label R p)

theorem hits_iff {r : Perm (Fin n)} {S : Finset Nat} :
    prog.Hits cs r S ↔
      prog.Meets cs (roundRobin (fun t _ => decide (t ∈ S)) 0 (prog.inOrder r)) := by
  constructor
  · intro h
    have hfresh : (⟨0, Dict.empty, 0, S, 0, none⟩ : PCTPolicy Nat).Fresh S := ⟨rfl, rfl, rfl, rfl⟩
    have hranks := ranks_drawing r S (p := ⟨0, Dict.empty, 0, S, 0, none⟩) rfl
    rw [← prog.schedule_eq_roundRobin (fun _ => "") hfresh hranks]
    exact h _ _ _ _ hfresh hranks
  · intro h ρ R label p hp hr
    rwa [prog.schedule_eq_roundRobin label hp hr]

instance (r : Perm (Fin n)) (S : Finset Nat) : Decidable (prog.Hits cs r S) :=
  decidable_of_iff _ (prog.hits_iff cs).symm

/-- What a run of depth `d` with the horizon `h` is drawn from: the rankings of the
chains and the sets of `d - 1` change points. -/
def draws (n d h : Nat) : Finset (Perm (Fin n) × Finset Nat) :=
  Finset.univ ×ˢ (Finset.range h).powersetCard (d - 1)

/-- The draws whose schedules meet the constraints. -/
def hits (d h : Nat) : Finset (Perm (Fin n) × Finset Nat) :=
  (draws n d h).filter fun x => prog.Hits cs x.1 x.2

/-- The fraction of the draws that hit. -/
def hitFraction (d h : Nat) : ℚ :=
  (prog.hits cs d h).card / (draws n d h).card

end Program

end SimLoop.Policy
