/-
  Policy/PctSchedule.lean --- the schedule `PCTPolicy.choose` makes, step by step.

  Chains of steps are ready until they have finished.  Every step of the loop shows
  the ready queue to the policy, takes the entry it names out, runs the next step of
  its chain and schedules the step after it.  The main result is that the schedule
  is round robin: in the order of the first draws, and with the change points as
  marks (`pctRun_eq_roundRobin`).
-/
import SimLoop.Foundation.RoundRobin
import SimLoop.Policy.Pct
import Mathlib.Data.List.Nodup

set_option autoImplicit false

namespace SimLoop.Policy

open SimLoop.Foundation

variable {α ρ : Type}

/-! ## Running ready chains -/

/-- A chain in the ready queue: the owner of its entry, the step it runs next and the
steps after that one. -/
structure ReadyChain (α : Type) where
  owner : Int
  next : α
  later : List α
  deriving Repr

/-- The steps a ready chain still has to run. -/
def ReadyChain.steps (entry : ReadyChain α) : List α :=
  entry.next :: entry.later

/-- What a chain that has run its next step schedules: nothing when it has finished. -/
def ReadyChain.rescheduled (entry : ReadyChain α) : List (ReadyChain α) :=
  match entry.later with
  | [] => []
  | x :: xs => [⟨entry.owner, x, xs⟩]

/-- What the policy is shown of the ready queue. -/
def readyViews (label : α → String) (queue : List (ReadyChain α)) : List ReadyView :=
  queue.map fun entry => (entry.owner, label entry.next)

/-- At most `fuel` steps of the loop on the chains of `queue`, with the policy's choices. -/
def pctRun (label : α → String) (R : RandomSource ρ) :
    Nat → PCTPolicy ρ → List (ReadyChain α) → List α
  | 0, _, _ => []
  | fuel + 1, p, queue =>
    match PCTPolicy.choose R p (readyViews label queue) with
    | (.error _, _) => []
    | (.ok i, p) =>
      match queue[i.toNat]? with
      | none => []
      | some entry =>
        entry.next :: pctRun label R fuel p (queue.eraseIdx i.toNat ++ entry.rescheduled)

@[simp] theorem readyViews_length (label : α → String) (queue : List (ReadyChain α)) :
    (readyViews label queue).length = queue.length :=
  List.length_map _

theorem owner_of_mem_rescheduled {entry e : ReadyChain α} (h : e ∈ entry.rescheduled) :
    e.owner = entry.owner := by
  unfold ReadyChain.rescheduled at h
  split at h
  · cases h
  · rw [List.mem_singleton.mp h]

theorem steps_rescheduled (entry : ReadyChain α) :
    entry.rescheduled.map ReadyChain.steps = [entry.later].filter (! ·.isEmpty) := by
  unfold ReadyChain.rescheduled
  split <;> simp [*, ReadyChain.steps]

/-! ## The priorities `choose` reads -/

namespace PCTPolicy

variable (R : RandomSource ρ)

/-- Every entry shown carries a priority already: nothing is drawn. -/
theorem priorityAll_of_priced {p : PCTPolicy ρ} (price : Int → ℚ) {ready : List ReadyView}
    (h : ∀ view ∈ ready, p.priorities.get? view.1 = some (price view.1)) :
    priorityAll R p ready = (ready.map fun view => price view.1, p) := by
  induction ready with
  | nil => rfl
  | cons view rest ih =>
      have hview : priority R p view.1 = (price view.1, p) := by
        simp only [priority, h view List.mem_cons_self]
      simp only [priorityAll, hview, ih fun v hv => h v (List.mem_cons_of_mem _ hv), List.map_cons]

/-- Pricing does not look at the step counter. -/
theorem priorityAll_stepCount (p : PCTPolicy ρ) (k : Nat) (ready : List ReadyView) :
    priorityAll R { p with stepCount := k } ready =
      ((priorityAll R p ready).1, { (priorityAll R p ready).2 with stepCount := k }) := by
  induction ready generalizing p with
  | nil => rfl
  | cons view rest ih =>
      have hview : priority R { p with stepCount := k } view.1 =
          ((priority R p view.1).1, { (priority R p view.1).2 with stepCount := k }) := by
        unfold priority
        cases p.priorities.get? view.1 <;> rfl
      simp only [priorityAll, hview, ih]

/-- The `i`-th number drawn from a stream. -/
def drawAt (r : ρ) : Nat → ℚ
  | 0 => (R.random r).1
  | i + 1 => drawAt (R.random r).2 i

/-- Owners not seen before draw in queue order. -/
theorem priorityAll_draws {p : PCTPolicy ρ} {ready : List ReadyView}
    (hnodup : (ready.map Prod.fst).Nodup)
    (hnew : ∀ view ∈ ready, p.priorities.get? view.1 = none) :
    (∀ i view, ready[i]? = some view →
      (priorityAll R p ready).2.priorities.get? view.1 = some (drawAt R p.rng i + 1)) ∧
    (∀ owner, (∀ view ∈ ready, view.1 ≠ owner) →
      (priorityAll R p ready).2.priorities.get? owner = p.priorities.get? owner) := by
  induction ready generalizing p with
  | nil => exact ⟨by simp, fun _ _ => rfl⟩
  | cons v rest ih =>
      obtain ⟨hv, hrest⟩ := List.nodup_cons.mp hnodup
      have hother : ∀ view ∈ rest, v.1 ≠ view.1 :=
        fun view hview h => hv (List.mem_map.mpr ⟨view, hview, h.symm⟩)
      have hprice : priority R p v.1 = ((R.random p.rng).1 + 1,
          { p with
            rng := (R.random p.rng).2,
            priorities := p.priorities.insert v.1 ((R.random p.rng).1 + 1) }) := by
        simp only [priority, hnew v List.mem_cons_self]
      set p₁ : PCTPolicy ρ := { p with
        rng := (R.random p.rng).2,
        priorities := p.priorities.insert v.1 ((R.random p.rng).1 + 1) } with hp₁
      have hall : (priorityAll R p (v :: rest)).2 = (priorityAll R p₁ rest).2 := by
        simp only [priorityAll, hprice]
      obtain ⟨hdrawn, hkept⟩ := ih (p := p₁) hrest fun view hview => by
        rw [hp₁, Dict.get?_insert_of_ne _ _ (hother view hview)]
        exact hnew view (List.mem_cons_of_mem _ hview)
      rw [hall]
      constructor
      · intro i view hi
        cases i with
        | zero =>
            obtain rfl : v = view := by simpa using hi
            rw [hkept v.1 fun view hview => (hother view hview).symm, hp₁,
              Dict.get?_insert_self]
            rfl
        | succ i => exact hdrawn i view (by simpa using hi)
      · intro owner howner
        rw [hkept owner fun view hview => howner view (List.mem_cons_of_mem _ hview), hp₁,
          Dict.get?_insert_of_ne _ _ (howner v List.mem_cons_self)]

/-- Pricing draws and records prices, and changes nothing else. -/
theorem priorityAll_frame (p : PCTPolicy ρ) (ready : List ReadyView) :
    (priorityAll R p ready).2.floor = p.floor ∧
      (priorityAll R p ready).2.stepCount = p.stepCount ∧
      (priorityAll R p ready).2.changePoints = p.changePoints := by
  induction ready generalizing p with
  | nil => exact ⟨rfl, rfl, rfl⟩
  | cons view rest ih =>
      have hview : (priority R p view.1).2.floor = p.floor ∧
          (priority R p view.1).2.stepCount = p.stepCount ∧
          (priority R p view.1).2.changePoints = p.changePoints := by
        unfold priority
        cases p.priorities.get? view.1 <;> exact ⟨rfl, rfl, rfl⟩
      obtain ⟨hfloor, hstep, hpoints⟩ := ih (priority R p view.1).2
      exact ⟨hfloor.trans hview.1, hstep.trans hview.2.1, hpoints.trans hview.2.2⟩

/-- A price once recorded stays. -/
theorem priorityAll_keeps {p : PCTPolicy ρ} {owner : Int} {x : ℚ} (ready : List ReadyView)
    (h : p.priorities.get? owner = some x) :
    (priorityAll R p ready).2.priorities.get? owner = some x := by
  induction ready generalizing p with
  | nil => exact h
  | cons view rest ih =>
      have hview : (priority R p view.1).2.priorities.get? owner = some x := by
        unfold priority
        split
        · exact h
        · rename_i hnew
          refine (Dict.get?_insert_of_ne _ _ ?_).trans h
          intro heq
          rw [heq, h] at hnew
          cases hnew
      exact ih hview

/-- The keys `max` reads are the prices recorded once every entry has been read. -/
theorem priorityAll_fst {p : PCTPolicy ρ} {price : Int → ℚ} {ready : List ReadyView}
    (h : ∀ view ∈ ready,
      (priorityAll R p ready).2.priorities.get? view.1 = some (price view.1)) :
    (priorityAll R p ready).1 = ready.map fun view => price view.1 := by
  induction ready generalizing p with
  | nil => rfl
  | cons view rest ih =>
      have hview : (priority R p view.1).2.priorities.get? view.1 =
          some (priority R p view.1).1 := by
        unfold priority
        split
        · assumption
        · exact Dict.get?_insert_self _ _ _
      have hprice : (priority R p view.1).1 = price view.1 := Option.some.inj
        ((priorityAll_keeps R rest hview).symm.trans (h view List.mem_cons_self))
      have hrest := ih (p := (priority R p view.1).2) fun v hv =>
        h v (List.mem_cons_of_mem _ hv)
      simp only [priorityAll, List.map_cons, hprice, hrest]

/-- `choose` prices the queue first: it answers as the policy does that has priced it. -/
theorem choose_priorityAll {p : PCTPolicy ρ} {price : Int → ℚ} {ready : List ReadyView}
    (h : ∀ view ∈ ready,
      (priorityAll R p ready).2.priorities.get? view.1 = some (price view.1)) :
    choose R (priorityAll R p ready).2 ready = choose R p ready := by
  obtain ⟨-, hstep, -⟩ := priorityAll_frame R p ready
  have hpriced := priorityAll_of_priced R
    (p := { (priorityAll R p ready).2 with stepCount := p.stepCount + 1 }) price h
  simp only [choose, hstep, hpriced, priorityAll_stepCount, priorityAll_fst R h]

theorem drawAt_nonneg (r : ρ) (i : Nat) : 0 ≤ drawAt R r i := by
  induction i generalizing r with
  | zero => exact (R.random_mem r).1
  | succ i ih => exact ih _

end PCTPolicy

/-! ## The queue in the order of the prices -/

/-- Every chain of `queue` carries a price no lower than the floor, and `order` is the
queue from the highest price down. -/
structure Ranked (p : PCTPolicy ρ) (queue order : List (ReadyChain α)) : Prop where
  perm : order.Perm queue
  nodup : (order.map ReadyChain.owner).Nodup
  priced : ∃ price : Int → ℚ,
    (∀ entry ∈ order, p.priorities.get? entry.owner = some (price entry.owner) ∧
      p.floor ≤ price entry.owner) ∧
    order.Pairwise fun a b => price b.owner < price a.owner

section

variable {R : RandomSource ρ} {label : α → String} {p : PCTPolicy ρ}
variable {queue rest : List (ReadyChain α)} {entry : ReadyChain α}

/-- The policy once it has picked `entry`. -/
def PCTPolicy.picked (p : PCTPolicy ρ) (entry : ReadyChain α) : PCTPolicy ρ :=
  if p.stepCount ∈ p.changePoints then
    ({ p with stepCount := p.stepCount + 1 } : PCTPolicy ρ).demote entry.owner
  else { p with stepCount := p.stepCount + 1 }

/-- The order of the queue once the first of it has run a step. -/
def PCTPolicy.reordered (p : PCTPolicy ρ) (entry : ReadyChain α) (rest : List (ReadyChain α)) :
    List (ReadyChain α) :=
  if p.stepCount ∈ p.changePoints then rest ++ entry.rescheduled else entry.rescheduled ++ rest

/-- The policy picks the chain with the highest price. -/
theorem Ranked.choose (h : Ranked p queue (entry :: rest)) :
    ∃ i : Nat, queue[i]? = some entry ∧
      PCTPolicy.choose R p (readyViews label queue) = (.ok (i : Int), p.picked entry) := by
  obtain ⟨price, hprice, hsorted⟩ := h.priced
  have hviews : PCTPolicy.priorityAll R { p with stepCount := p.stepCount + 1 }
      (readyViews label queue) =
      (queue.map fun e => price e.owner, { p with stepCount := p.stepCount + 1 }) := by
    rw [PCTPolicy.priorityAll_of_priced R price]
    · simp [readyViews, Function.comp_def]
    · intro view hview
      obtain ⟨e, he, rfl⟩ := List.mem_map.mp hview
      exact (hprice e (h.perm.mem_iff.mpr he)).1
  have hmem : entry ∈ queue := h.perm.mem_iff.mp List.mem_cons_self
  have hne : queue.map (fun e => price e.owner) ≠ [] := by
    simpa using List.ne_nil_of_mem hmem
  obtain ⟨x, hx, hmax, -⟩ := earliestMax_spec hne
  set i := earliestMax (queue.map fun e => price e.owner) with hi
  obtain ⟨e, he, rfl⟩ := Option.map_eq_some_iff.mp ((List.getElem?_map ..).symm.trans hx)
  have hpick : e = entry := by
    rcases List.mem_cons.mp (h.perm.mem_iff.mpr (List.mem_of_getElem? he)) with rfl | hrest
    · rfl
    · have hlt := (List.pairwise_cons.mp hsorted).1 e hrest
      have hle := hmax _ (List.mem_map_of_mem hmem)
      exact absurd hlt (not_lt.mpr hle)
  subst hpick
  refine ⟨i, he, ?_⟩
  have hview : (readyViews label queue)[i]? = some (e.owner, label e.next) := by
    simp [readyViews, he]
  simp only [PCTPolicy.choose, hviews, ← hi, hview, PCTPolicy.picked]

/-- After the pick the queue is in order again, the chain that ran at the end the mark
sends it to. -/
theorem Ranked.picked (h : Ranked p queue (entry :: rest)) {i : Nat}
    (hi : queue[i]? = some entry) :
    Ranked (p.picked entry) (queue.eraseIdx i ++ entry.rescheduled) (p.reordered entry rest) := by
  obtain ⟨price, hprice, hsorted⟩ := h.priced
  obtain ⟨hfirst, hsorted⟩ := List.pairwise_cons.mp hsorted
  have hnew : ∀ e ∈ rest, e.owner ≠ entry.owner := by
    intro e he heq
    exact (List.nodup_cons.mp h.nodup).1 (List.mem_map.mpr ⟨e, he, heq⟩)
  have hrest : rest.Perm (queue.eraseIdx i) := by
    obtain ⟨hlt, rfl⟩ := List.getElem?_eq_some_iff.mp hi
    exact (h.perm.trans (List.getElem_cons_eraseIdx_perm hlt).symm).cons_inv
  have hnodup : ((rest ++ entry.rescheduled).map ReadyChain.owner).Nodup := by
    obtain ⟨hentry, hnodup⟩ := List.nodup_cons.mp h.nodup
    unfold ReadyChain.rescheduled
    split
    · simpa using hnodup
    · simpa [List.nodup_append] using ⟨hnodup, fun e he => hnew e he⟩
  have hback : ∀ e ∈ entry.rescheduled, e.owner = entry.owner :=
    fun e he => owner_of_mem_rescheduled he
  unfold PCTPolicy.picked PCTPolicy.reordered
  by_cases hmark : p.stepCount ∈ p.changePoints
  · simp only [if_pos hmark]
    refine ⟨hrest.append_right _, hnodup, Function.update price entry.owner (p.floor - 1),
      fun e he => ?_, ?_⟩
    · rcases List.mem_append.mp he with he | he
      · obtain ⟨hget, hle⟩ := hprice e (List.mem_cons_of_mem _ he)
        rw [Function.update_of_ne (hnew e he)]
        refine ⟨?_, ?_⟩
        · exact (Dict.get?_insert_of_ne _ _ (hnew e he).symm).trans hget
        · exact (sub_one_lt p.floor).le.trans hle
      · rw [hback e he, Function.update_self]
        exact ⟨Dict.get?_insert_self _ _ _, le_refl _⟩
    · refine List.pairwise_append.mpr ⟨?_, ?_, fun a ha b hb => ?_⟩
      · refine hsorted.imp_of_mem fun ha hb hlt => ?_
        rwa [Function.update_of_ne (hnew _ ha), Function.update_of_ne (hnew _ hb)]
      · unfold ReadyChain.rescheduled
        split <;> simp
      · rw [hback b hb, Function.update_self, Function.update_of_ne (hnew a ha)]
        exact (sub_one_lt p.floor).trans_le (hprice a (List.mem_cons_of_mem _ ha)).2
  · simp only [if_neg hmark]
    refine ⟨List.perm_append_comm.trans (hrest.append_right _),
      (List.perm_append_comm.map _).nodup hnodup, price, fun e he => ?_, ?_⟩
    · rcases List.mem_append.mp he with he | he
      · rw [hback e he]
        exact hprice entry List.mem_cons_self
      · exact hprice e (List.mem_cons_of_mem _ he)
    · refine List.pairwise_append.mpr ⟨?_, hsorted, fun a ha b hb => ?_⟩
      · unfold ReadyChain.rescheduled
        split <;> simp
      · rw [hback a ha]
        exact hfirst b hb

/-- The schedule is round robin in the order of the prices, with the change points for
marks. -/
theorem pctRun_eq_roundRobin {order : List (ReadyChain α)} (h : Ranked p queue order)
    {fuel : Nat} (hfuel : (order.map ReadyChain.steps).flatten.length ≤ fuel) :
    pctRun label R fuel p queue =
      roundRobin (fun t _ => decide (t ∈ p.changePoints)) p.stepCount
        (order.map ReadyChain.steps) := by
  induction fuel generalizing p queue order with
  | zero =>
      cases order with
      | nil => rfl
      | cons entry rest => simp [ReadyChain.steps] at hfuel
  | succ fuel ih =>
      cases order with
      | nil =>
          obtain rfl : queue = [] := by simpa using h.perm.symm
          rfl
      | cons entry rest =>
          obtain ⟨i, hi, hchoose⟩ : ∃ i : Nat, queue[i]? = some entry ∧
              PCTPolicy.choose R p (readyViews label queue) = (.ok (i : Int), p.picked entry) :=
            h.choose
          have hnext := h.picked hi
          have hsteps : (p.picked entry).changePoints = p.changePoints ∧
              (p.picked entry).stepCount = p.stepCount + 1 := by
            unfold PCTPolicy.picked PCTPolicy.demote
            split <;> exact ⟨rfl, rfl⟩
          have hlen : ((p.reordered entry rest).map ReadyChain.steps).flatten.length ≤ fuel := by
            have hperm : (p.reordered entry rest).Perm (entry.rescheduled ++ rest) := by
              unfold PCTPolicy.reordered
              split
              · exact List.perm_append_comm
              · exact .refl _
            rw [(hperm.map _).flatten.length_eq, List.map_append, steps_rescheduled]
            simp only [List.map_cons, List.flatten_cons, ReadyChain.steps, List.length_append,
              List.length_cons] at hfuel
            cases hl : entry.later <;> simp [hl] at hfuel ⊢ <;> omega
          simp only [pctRun, hchoose, Int.toNat_natCast, hi, List.map_cons]
          rw [ih hnext hlen, hsteps.1, hsteps.2, ReadyChain.steps, roundRobin_cons]
          unfold PCTPolicy.reordered
          by_cases hmark : p.stepCount ∈ p.changePoints
          · simp only [hmark, if_true, decide_true, List.map_append, steps_rescheduled]
            rw [roundRobin_filter_nonempty]
          · simp only [hmark, if_false, decide_false, List.map_append, steps_rescheduled]
            cases hl : entry.later <;> simp

end

end SimLoop.Policy
