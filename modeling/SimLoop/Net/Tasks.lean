/-
  Net/Tasks.lean --- which tasks a crash asks to cancel.

  Two things name the machine of a task: the host it is registered with, which is the
  current one when it is made, and the host its context is pinned to, under which its
  steps run.  A crash goes by the first.  It cancels the tasks that run under its host as
  long as no task is made with a context of another host than the current one.
-/
import SimLoop.Net.Bookkeeping

set_option autoImplicit false

namespace SimLoop.Net

open SimLoop.Foundation Ledger

/-! ## The roster -/

namespace Roster

/-- Every unfinished task is listed once, with the host it is registered with; hosts and
lists go together. -/
structure Enrolled (r : Roster) : Prop where
  known : ∀ (i : Nat) (T : Task), r.tasks[i]? = some T → r.roster.get? T.registered ≠ none
  listed : ∀ (i : Nat) (T : Task), r.tasks[i]? = some T → T.done = false →
    ∃ owner, r.roster.get? T.registered = some owner ∧ i ∈ owner
  owned : ∀ name owner, r.roster.get? name = some owner →
    owner.Nodup ∧ ∀ i ∈ owner, ∃ T, r.tasks[i]? = some T ∧ T.registered = name
  hosts : ∀ name, r.roster.get? name = none ↔ r.alive.get? name = none

@[simp] theorem ask_registered (T : Task) : (ask T).registered = T.registered := by
  unfold ask
  split <;> rfl

@[simp] theorem ask_pinned (T : Task) : (ask T).pinned = T.pinned := by
  unfold ask
  split <;> rfl

@[simp] theorem ask_done (T : Task) : (ask T).done = T.done := by
  unfold ask
  split <;> rfl

/-- A change of tasks that leaves them where they are registered and undoes nothing. -/
theorem Enrolled.modify {r : Roster} (hr : r.Enrolled) (i : Nat) {f : Task → Task}
    (hregistered : ∀ T, (f T).registered = T.registered)
    (hdone : ∀ T, (f T).done = false → T.done = false) :
    Enrolled { r with tasks := r.tasks.modify i f } where
  known j T hT := by
    rw [List.getElem?_modify] at hT
    obtain ⟨T', hT', rfl⟩ := Option.map_eq_some_iff.mp hT
    split
    · rw [hregistered]
      exact hr.known j T' hT'
    · exact hr.known j T' hT'
  listed j T hT hopen := by
    rw [List.getElem?_modify] at hT
    obtain ⟨T', hT', rfl⟩ := Option.map_eq_some_iff.mp hT
    by_cases hij : i = j
    · rw [if_pos hij] at hopen ⊢
      rw [hregistered]
      exact hr.listed j T' hT' (hdone T' hopen)
    · rw [if_neg hij] at hopen ⊢
      exact hr.listed j T' hT' hopen
  owned name owner howner := by
    obtain ⟨hnodup, hmem⟩ := hr.owned name owner howner
    refine ⟨hnodup, fun j hj => ?_⟩
    obtain ⟨T, hT, hname⟩ := hmem j hj
    rw [List.getElem?_modify, hT]
    refine ⟨_, rfl, ?_⟩
    split
    · rw [hregistered]
      exact hname
    · exact hname
  hosts := hr.hosts

theorem Enrolled.enlist {r : Roster} (hr : r.Enrolled) {name : HostName}
    (hnew : r.alive.contains name = false) :
    Enrolled { r with alive := r.alive.insert name true, roster := r.roster.insert name [] } := by
  have hnone : r.alive.get? name = none := by
    simpa only [Dict.contains, Option.isSome_eq_false_iff, Option.isNone_iff_eq_none] using hnew
  refine ⟨fun i T hT => ?_, fun i T hT hopen => ?_, fun other owner howner => ?_,
    fun other => ?_⟩
  · simp only [Dict.get?_insert]
    split
    · exact Option.some_ne_none _
    · exact hr.known i T hT
  · obtain ⟨owner, howner, hi⟩ := hr.listed i T hT hopen
    refine ⟨owner, (Dict.get?_insert_of_ne _ _ ?_).trans howner, hi⟩
    rintro rfl
    rw [(hr.hosts _).mpr hnone] at howner
    cases howner
  · simp only [Dict.get?_insert] at howner
    split at howner
    · obtain rfl := Option.some.inj howner
      exact ⟨List.nodup_nil, fun i hi => absurd hi List.not_mem_nil⟩
    · exact hr.owned other owner howner
  · simp only [Dict.get?_insert]
    split
    · simp only [reduceCtorEq]
    · exact hr.hosts other

theorem Enrolled.make {r : Roster} (hr : r.Enrolled) {T : Task} {owner : List Nat}
    (howner : r.roster.get? T.registered = some owner) :
    Enrolled { r with
      tasks := r.tasks ++ [T]
      roster := r.roster.insert T.registered (owner ++ [r.tasks.length]) } := by
  have hkeep : ∀ {i U}, r.tasks[i]? = some U → (r.tasks ++ [T])[i]? = some U := fun h => by
    rw [List.getElem?_append_left (List.getElem?_eq_some_iff.mp h).1]
    exact h
  have hlast : (r.tasks ++ [T])[r.tasks.length]? = some T := by
    rw [List.getElem?_append_right (le_refl _), Nat.sub_self]
    rfl
  have hcases : ∀ {i U}, (r.tasks ++ [T])[i]? = some U →
      r.tasks[i]? = some U ∨ i = r.tasks.length ∧ U = T := by
    intro i U hU
    by_cases hi : i < r.tasks.length
    · rw [List.getElem?_append_left hi] at hU
      exact .inl hU
    · have hlt := (List.getElem?_eq_some_iff.mp hU).1
      simp only [List.length_append, List.length_singleton] at hlt
      obtain rfl : i = r.tasks.length := by omega
      rw [hlast] at hU
      exact .inr ⟨rfl, (Option.some.inj hU).symm⟩
  refine ⟨fun i U hU => ?_, fun i U hU hopen => ?_, fun name owner' howner' => ?_,
    fun name => ?_⟩
  · simp only [Dict.get?_insert]
    split
    · exact Option.some_ne_none _
    · rename_i hne
      rcases hcases hU with hU | ⟨-, rfl⟩
      · exact hr.known i U hU
      · exact absurd rfl hne
  · simp only [Dict.get?_insert]
    rcases hcases hU with hU | ⟨rfl, rfl⟩
    · obtain ⟨owner', howner', hmem⟩ := hr.listed i U hU hopen
      split
      · rename_i hsame
        rw [← hsame, howner] at howner'
        obtain rfl := Option.some.inj howner'
        exact ⟨_, rfl, List.mem_append_left _ hmem⟩
      · exact ⟨owner', howner', hmem⟩
    · rw [if_pos rfl]
      exact ⟨_, rfl, List.mem_append_right _ (List.mem_singleton.mpr rfl)⟩
  · simp only [Dict.get?_insert] at howner'
    split at howner'
    · rename_i hname
      obtain rfl := Option.some.inj howner'
      obtain ⟨hnodup, hmem⟩ := hr.owned _ _ howner
      refine ⟨List.nodup_append.mpr ⟨hnodup, List.nodup_singleton _, ?_⟩, fun i hi => ?_⟩
      · intro i hi j hj heq
        obtain ⟨U, hU, -⟩ := hmem i hi
        have hlt := (List.getElem?_eq_some_iff.mp hU).1
        rw [heq, List.mem_singleton.mp hj] at hlt
        exact lt_irrefl _ hlt
      · rcases List.mem_append.mp hi with hi | hi
        · obtain ⟨U, hU, hreg⟩ := hmem i hi
          exact ⟨U, hkeep hU, hreg.trans hname⟩
        · rw [List.mem_singleton.mp hi]
          exact ⟨T, hlast, hname⟩
    · obtain ⟨hnodup, hmem⟩ := hr.owned name owner' howner'
      refine ⟨hnodup, fun i hi => ?_⟩
      obtain ⟨U, hU, hreg⟩ := hmem i hi
      exact ⟨U, hkeep hU, hreg⟩
  · simp only [Dict.get?_insert]
    split
    · rename_i hname
      rw [← hname, ← hr.hosts, howner]
      simp only [reduceCtorEq]
    · exact hr.hosts name

theorem Enrolled.forget {r : Roster} (hr : r.Enrolled) {i : Nat} {T : Task}
    (hT : r.tasks[i]? = some T) (hdone : T.done = true) :
    Enrolled { r with
      roster := r.roster.insert T.registered (((r.roster.get? T.registered).getD []).erase i) } := by
  refine ⟨fun j U hU => ?_, fun j U hU hopen => ?_, fun name owner howner => ?_,
    fun name => ?_⟩
  · simp only [Dict.get?_insert]
    split
    · exact Option.some_ne_none _
    · exact hr.known j U hU
  · obtain ⟨owner, howner, hj⟩ := hr.listed j U hU hopen
    simp only [Dict.get?_insert]
    split
    · rename_i hsame
      rw [hsame, howner]
      refine ⟨_, rfl, (List.mem_erase_of_ne ?_).mpr hj⟩
      rintro rfl
      rw [hT] at hU
      rw [← Option.some.inj hU, hdone] at hopen
      cases hopen
    · exact ⟨owner, howner, hj⟩
  · simp only [Dict.get?_insert] at howner
    split at howner
    · rename_i hname
      obtain rfl := Option.some.inj howner
      cases hold : r.roster.get? T.registered with
      | none => exact ⟨List.nodup_nil, fun j hj => absurd hj List.not_mem_nil⟩
      | some owner =>
          obtain ⟨hnodup, hmem⟩ := hr.owned _ _ hold
          refine ⟨hnodup.erase i, fun j hj => ?_⟩
          obtain ⟨U, hU, hreg⟩ := hmem j (List.mem_of_mem_erase hj)
          exact ⟨U, hU, hreg.trans hname⟩
    · exact hr.owned name owner howner
  · simp only [Dict.get?_insert]
    split
    · rename_i hname
      simp only [reduceCtorEq, false_iff]
      rw [← hname, ← hr.hosts]
      exact hr.known i T hT
    · exact hr.hosts name

theorem Enrolled.move {P : Task → Prop} {r r' : Roster} (hr : r.Enrolled)
    (hmove : Move P r r') : r'.Enrolled := by
  cases hmove with
  | enlisted hnew => exact hr.enlist hnew
  | made _ _ howner => exact hr.make howner
  | asked i => exact hr.modify i ask_registered fun T h => ask_done T ▸ h
  | settled i => exact hr.modify i (fun _ => rfl) fun _ h => by cases h
  | forgotten hT hdone => exact hr.forget hT hdone

/-- A known host is alive or not. -/
theorem Enrolled.mark {r : Roster} (hr : r.Enrolled) {name : HostName}
    (hname : r.alive.contains name = true) (up : Bool) :
    Enrolled { r with alive := r.alive.insert name up } where
  known := hr.known
  listed := hr.listed
  owned := hr.owned
  hosts other := by
    simp only [Dict.get?_insert]
    split
    · rename_i heq
      rw [hr.hosts, ← heq]
      simp only [reduceCtorEq, iff_false]
      exact Option.isSome_iff_ne_none.mp hname
    · exact hr.hosts other

/-- Every task runs under the host it is registered with. -/
def AtHome (r : Roster) : Prop :=
  ∀ (i : Nat) (T : Task), r.tasks[i]? = some T → T.registered = T.pinned

theorem AtHome.modify {r : Roster} (hr : r.AtHome) (i : Nat) {f : Task → Task}
    (hregistered : ∀ T, (f T).registered = T.registered) (hpinned : ∀ T, (f T).pinned = T.pinned) :
    AtHome { r with tasks := r.tasks.modify i f } := by
  intro j T hT
  rw [List.getElem?_modify] at hT
  obtain ⟨T', hT', rfl⟩ := Option.map_eq_some_iff.mp hT
  split
  · rw [hregistered, hpinned]
    exact hr j T' hT'
  · exact hr j T' hT'

theorem AtHome.move {P : Task → Prop} (hP : ∀ T, P T → T.registered = T.pinned)
    {r r' : Roster} (hr : r.AtHome) (hmove : Move P r r') : r'.AtHome := by
  cases hmove with
  | enlisted _ => exact hr
  | made hT _ _ =>
      intro i U hU
      by_cases hi : i < r.tasks.length
      · rw [List.getElem?_append_left hi] at hU
        exact hr i U hU
      · rw [List.getElem?_append_right (Nat.le_of_not_lt hi)] at hU
        obtain rfl := List.mem_singleton.mp (List.mem_of_getElem? hU)
        exact hP _ hT
  | asked i => exact hr.modify i ask_registered ask_pinned
  | settled i => exact hr.modify i (fun _ => rfl) fun _ => rfl
  | forgotten _ _ => exact hr

end Roster

variable {ρ : Type}

namespace SimNetwork

/-! ## What a crash asks for -/

@[simp] theorem hosts_finish (s : SimNetwork ρ) (t : Nat) (exc : Option Exc) :
    (finish t exc s).hosts = s.hosts := by
  cases hT : s.transports[t]? with
  | none => simp only [finish, hT]; rfl
  | some T =>
      cases hclosed : T.closed with
      | true => simp only [finish, hT, hclosed, if_true]; rfl
      | false => exact congrArg Ledger.hosts (ledger_finish s hT hclosed exc)

@[simp] theorem hosts_closeServer (s : SimNetwork ρ) (v : Nat) :
    (closeServer v s).hosts = s.hosts := by
  cases hV : s.servers[v]? with
  | none => simp only [closeServer, hV]
  | some V =>
      cases hclosed : V.closed with
      | true => simp only [closeServer, hV, hclosed, if_true]
      | false => exact congrArg Ledger.hosts (ledger_closeServer s hV hclosed)

@[simp] theorem hosts_crashNext (s : SimNetwork ρ) (name : HostName) (keys : List Key) :
    (crashNext name keys s).hosts = s.hosts := by
  cases keys with
  | nil => exact congrArg Ledger.hosts (ledger_crashEnd s name)
  | cons k rest =>
      cases ht : s.streams.get? k with
      | none => simp only [crashNext, ht]; rfl
      | some t =>
          simp only [crashNext, ht]
          exact hosts_finish _ t none

/-- The tasks of a list are asked once each. -/
theorem tasks_foldl_cancelTask {l : List Nat} (hl : l.Nodup) (i : Nat) : ∀ u : SimNetwork ρ,
    (l.foldl (fun s i => cancelTask i s) u).tasks[i]? =
      (u.tasks[i]?).map fun T => if i ∈ l then Roster.ask T else T := by
  induction l with
  | nil => intro u; simp
  | cons j l ih =>
      intro u
      obtain ⟨hj, hl⟩ := List.nodup_cons.mp hl
      rw [List.foldl_cons, ih hl, cancelTask]
      rw [List.getElem?_modify, Option.map_eq_map, Option.map_map]
      congr 1
      funext T
      by_cases hij : j = i
      · subst hij
        simp [hj, Roster.ask]
      · simp [hij, Ne.symm hij]

theorem crash_eq {s : SimNetwork ρ} {name : HostName} (hname : s.Crashes name)
    (waiting : List Nat) :
    crash name waiting s = crashNext name
      ((crashBegin name waiting s).streams.keys.filter fun k => k.2.1 = name)
      (crashBegin name waiting s) := by
  obtain ⟨halive, hdriver⟩ := hname
  simp only [crash, requireHost, Dict.contains, isAlive, halive, Option.isSome_some, if_true,
    hdriver, if_false, Option.getD_some, Bool.not_true, Bool.false_eq_true]

/-- The step is a crash of this host that is not refused. -/
def CrashStep (R : RandomSource ρ) (s : SimNetwork ρ) (name : HostName) (s' : SimNetwork ρ) :
    Prop :=
  s.Crashes name ∧ ∃ waiting, Step R s (.crash name waiting) s'

/-- A task was asked to cancel on the way from one state to the next. -/
def AskedBetween (s s' : SimNetwork ρ) (i : Nat) : Prop :=
  ∃ T T', s.tasks[i]? = some T ∧ s'.tasks[i]? = some T' ∧ T.asked < T'.asked

theorem hosts_crashBegin (s : SimNetwork ρ) (name : HostName) (waiting : List Nat) :
    (crashBegin name waiting s).hosts =
      (((s.roster.get? name).getD []).foldl (fun s i => cancelTask i s)
        { s with alive := s.alive.insert name false }).hosts := by
  have hdatagram : ∀ (u : SimNetwork ρ) (a : Addr),
      ({ u with datagrams := u.datagrams.erase a } : SimNetwork ρ).hosts = u.hosts :=
    fun _ _ => rfl
  have hfut : ∀ (u : SimNetwork ρ) (conn : Nat), (setFut conn .cancelled u).hosts = u.hosts :=
    fun _ _ => rfl
  unfold crashBegin
  refine (foldl_keeps hdatagram _ _).trans ?_
  refine (foldl_keeps (fun u v => hosts_closeServer u v) _ _).trans ?_
  exact foldl_keeps hfut _ _

theorem CrashStep.eq {R : RandomSource ρ} {s s₁ : SimNetwork ρ} {name : HostName}
    (hstep : CrashStep R s name s₁) : ∃ waiting, s₁ = crashNext name
      ((crashBegin name waiting s).streams.keys.filter fun k => k.2.1 = name)
      (crashBegin name waiting s) := by
  obtain ⟨hname, waiting, hstep⟩ := hstep
  refine ⟨waiting, ?_⟩
  rcases step_cases R hstep with ⟨-, -, h⟩ | ⟨rest, -, -, h⟩ | ⟨h, -, -⟩
  · cases h
  · exact (Option.some.inj h).symm.trans (crash_eq hname waiting)
  · cases h

/-- The crash of a host asks the unfinished tasks that are registered with it. -/
theorem CrashStep.tasks {R : RandomSource ρ} {s s' : SimNetwork ρ} {name : HostName}
    (hs : s.hosts.Enrolled) (hstep : CrashStep R s name s') (i : Nat) :
    s'.tasks[i]? = (s.tasks[i]?).map fun T =>
      if T.done = false ∧ T.registered = name then { T with asked := T.asked + 1 } else T := by
  obtain ⟨waiting, hs'⟩ := hstep.eq
  have hhosts : s'.hosts = (((s.roster.get? name).getD []).foldl (fun s i => cancelTask i s)
      { s with alive := s.alive.insert name false }).hosts := by
    rw [hs', hosts_crashNext, hosts_crashBegin]
  have hlist : ((s.roster.get? name).getD []).Nodup ∧
      ∀ i ∈ (s.roster.get? name).getD [], ∃ T, s.tasks[i]? = some T ∧ T.registered = name := by
    cases howner : s.roster.get? name with
    | none => exact ⟨List.nodup_nil, fun i hi => absurd hi List.not_mem_nil⟩
    | some owner => exact hs.owned name owner howner
  rw [show s'.tasks = _ from congrArg Roster.tasks hhosts]
  refine (tasks_foldl_cancelTask hlist.1 i _).trans ?_
  cases hT : s.tasks[i]? with
  | none => rw [Option.map_none, Option.map_none]
  | some T =>
      simp only [Option.map_some, Option.some.injEq]
      by_cases hmem : i ∈ (s.roster.get? name).getD []
      · obtain ⟨U, hU, hregistered⟩ := hlist.2 i hmem
        rw [hT] at hU
        obtain rfl := Option.some.inj hU
        rw [if_pos hmem, Roster.ask]
        cases T.done <;> simp [hregistered]
      · rw [if_neg hmem]
        cases hdone : T.done with
        | true => simp
        | false =>
            rw [if_neg]
            rintro ⟨-, hregistered⟩
            obtain ⟨owner, howner, hi⟩ := hs.listed i T hT hdone
            rw [hregistered] at howner
            rw [show s.roster.get? name = some owner from howner] at hmem
            exact hmem hi

/-- The tasks that a crash asks to cancel are those that run under its host exactly if
the tasks registered with the host are. -/
theorem CrashStep.asked_iff {R : RandomSource ρ} {s s' : SimNetwork ρ} {name : HostName}
    (hs : s.hosts.Enrolled) (hstep : CrashStep R s name s') {i : Nat} {T : Task}
    (hT : s.tasks[i]? = some T) (hdone : T.done = false) :
    s.AskedBetween s' i ↔ T.registered = name := by
  have hT' := hstep.tasks hs i
  rw [hT, Option.map_some] at hT'
  constructor
  · rintro ⟨U, U', hU, hU', hlt⟩
    rw [hT] at hU
    obtain rfl := Option.some.inj hU
    rw [hT'] at hU'
    obtain rfl := Option.some.inj hU'
    by_contra hne
    rw [if_neg fun h => hne h.2] at hlt
    exact lt_irrefl _ hlt
  · intro hregistered
    rw [if_pos ⟨hdone, hregistered⟩] at hT'
    exact ⟨T, _, hT, hT', Nat.lt_succ_self _⟩

/-! ## Every run -/

theorem enrolled_init (R : RandomSource ρ) (seed : Int) : (init R seed).hosts.Enrolled := by
  refine Moves.invariant (A := fun _ => False) (I := fun g => g.hosts.Enrolled)
    (fun g h hmove hg => ?_) (host_moves _ driver) ?_
  · cases hmove with
    | hosts hmove => exact hg.move hmove
    | downed hname => exact hg.mark hname false
    | _ => exact hg
  · refine ⟨?_, ?_, ?_, ?_⟩
    · exact fun i T h => absurd h (by simp [ledger, SimNetwork.hosts])
    · exact fun i T h => absurd h (by simp [ledger, SimNetwork.hosts])
    · exact fun name owner h => absurd h (by simp [ledger, SimNetwork.hosts])
    · exact fun name => ⟨fun _ => rfl, fun _ => rfl⟩

theorem Step.enrolled {R : RandomSource ρ} {s s' : SimNetwork ρ} {a : Act}
    (hstep : Step R s a s') (hs : s.hosts.Enrolled) : s'.hosts.Enrolled := by
  rcases step_moves R s hstep with hmoves | ⟨name, ⟨-, hname, -⟩, hrestart⟩
  · refine hmoves.invariant (I := fun g => g.hosts.Enrolled) (fun g h hmove hg => ?_) hs
    cases hmove with
    | hosts hmove => exact hg.move hmove
    | downed hname => exact hg.mark hname false
    | _ => exact hg
  · rw [show s'.hosts = _ from congrArg Ledger.hosts hrestart]
    exact hs.mark hname true

/-- A task is made with a copy of the context it is made in, or with one that is pinned
to the same host. -/
def makesAtHome (s : SimNetwork ρ) (a : Act) : Bool :=
  match a with
  | .createTask made context => made.getD (context.getD s.current) = s.current
  | .hostCreateTask name made => made.getD name = name
  | _ => true

theorem Step.atHome {R : RandomSource ρ} {s s' : SimNetwork ρ} {a : Act}
    (hstep : Step R s a s') (ha : s.makesAtHome a = true) (hs : s.hosts.AtHome) : s'.hosts.AtHome := by
  have hmakes : ∀ T, Makes s a T → T.registered = T.pinned := by
    intro T hT
    cases a
    case createTask made context =>
      rw [show T = _ from hT]
      exact (of_decide_eq_true ha).symm
    case hostCreateTask name made =>
      rw [show T = _ from hT]
      exact (of_decide_eq_true ha).symm
    all_goals exact absurd hT not_false
  rcases step_moves R s hstep with hmoves | ⟨name, -, hrestart⟩
  · refine hmoves.invariant (I := fun g => g.hosts.AtHome) (fun g h hmove hg => ?_) hs
    cases hmove with
    | hosts hmove => exact hg.move hmakes hmove
    | _ => exact hg
  · rw [show s'.hosts = _ from congrArg Ledger.hosts hrestart]
    exact hs

/-- **A crash cancels the machine's own tasks.**  In every run in which tasks are made at
home, whenever a host crashes, the unfinished tasks that are asked to cancel are exactly
those whose steps run under that host. -/
theorem crash_cancels_own_tasks {R : RandomSource ρ} {seed : Int} {acts : List Act}
    {s s' : SimNetwork ρ} {name : HostName}
    (run : Run (restrict (Step R) fun s a => s.makesAtHome a) (init R seed) acts s)
    (hstep : CrashStep R s name s') {i : Nat} {T : Task} (hT : s.tasks[i]? = some T)
    (hdone : T.done = false) : s.AskedBetween s' i ↔ T.pinned = name := by
  have hs : s.hosts.Enrolled ∧ s.hosts.AtHome := by
    refine run.invariant (I := fun s => s.hosts.Enrolled ∧ s.hosts.AtHome)
      (fun u a v hu hstep => ⟨Step.enrolled hstep.1 hu.1, Step.atHome hstep.1 hstep.2 hu.2⟩) ?_
    refine ⟨enrolled_init R seed, ?_⟩
    refine Moves.invariant (A := fun _ => False) (I := fun g => g.hosts.AtHome)
      (fun g h hmove hg => ?_) (host_moves _ driver) ?_
    · cases hmove with
      | hosts hmove => exact hg.move (fun _ h => absurd h not_false) hmove
      | _ => exact hg
    · exact fun i T h => absurd h (by simp [ledger, SimNetwork.hosts])
  rw [hstep.asked_iff hs.1 hT hdone, hs.2 i T hT]

theorem crash_cancels_own_tasks_own : ∃ s s' : SimNetwork Unit,
    performsWhile .least makesAtHome (init .least 0)
      [.callback driver, .host "a", .tick, .hostCreateTask "a" none, .tick] = some s ∧
    CrashStep .least s "a" s' ∧ s.AskedBetween s' 0 := by
  let acts : List Act := [.callback driver, .host "a", .tick, .hostCreateTask "a" none, .tick]
  have hcrash : ((performsWhile .least makesAtHome (init .least 0) acts).bind fun s =>
      if s.alive.get? "a" = some true ∧ s.tasks = [⟨"a", "a", false, 0⟩] then
        (perform .least s (.crash "a" [])).map fun _ => ()
      else none) = some () := by decide +kernel
  obtain ⟨s, hs, hrest⟩ := Option.bind_eq_some_iff.mp hcrash
  split at hrest
  · rename_i hstate
    obtain ⟨s', hs', -⟩ := Option.map_eq_some_iff.mp hrest
    have hstep : CrashStep .least s "a" s' := ⟨⟨hstate.1, by decide⟩, [], hs'⟩
    have hT : s.tasks[0]? = some ⟨"a", "a", false, 0⟩ := by rw [hstate.2]; rfl
    exact ⟨s, s', hs, hstep,
      (crash_cancels_own_tasks (run_of_performsWhile _ hs) hstep hT rfl).mpr rfl⟩
  · cases hrest

/-- A task that runs under the host of a crash is not asked to cancel: the driver made it
with a context pinned to that host. -/
theorem not_crash_cancels_own_tasks :
    ¬ ∀ (acts : List Act) (s s' : SimNetwork Unit) (name : HostName),
      Run (Step .least) (init .least 0) acts s → CrashStep .least s name s' →
      ∀ (i : Nat) (T : Task), s.tasks[i]? = some T → T.done = false →
        (s.AskedBetween s' i ↔ T.pinned = name) := by
  intro hall
  let acts : List Act := [.callback driver, .host "a", .tick, .createTask none (some "a"), .tick]
  have hcrash : ((performs .least (init .least 0) acts).bind fun s =>
      if s.alive.get? "a" = some true ∧ s.tasks = [⟨"driver", "a", false, 0⟩] then
        (perform .least s (.crash "a" [])).map fun s' => s'.tasks
      else none) = some [⟨"driver", "a", false, 0⟩] := by decide +kernel
  obtain ⟨s, hs, hrest⟩ := Option.bind_eq_some_iff.mp hcrash
  split at hrest
  · rename_i hstate
    obtain ⟨s', hs', htasks⟩ := Option.map_eq_some_iff.mp hrest
    have hT : s.tasks[0]? = some ⟨"driver", "a", false, 0⟩ := by rw [hstate.2]; rfl
    obtain ⟨T, T', hT₀, hT₁, hlt⟩ := (hall acts s s' "a" (run_of_performs _ hs)
      ⟨⟨hstate.1, by decide⟩, [], hs'⟩ 0 _ hT rfl).mpr rfl
    rw [hT] at hT₀
    rw [htasks] at hT₁
    obtain rfl := Option.some.inj hT₀
    obtain rfl := Option.some.inj hT₁
    exact absurd hlt (lt_irrefl _)
  · cases hrest

end SimNetwork

end SimLoop.Net
