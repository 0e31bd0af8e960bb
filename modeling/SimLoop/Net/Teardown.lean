/-
  Net/Teardown.lean --- when a crash ends.

  `crash` goes through the registries of its host one after the other and ends with the
  held packets and the event; while it tears the streams down it calls `connection_lost`
  of one protocol after the other.  Nothing of the host is left when it ends, unless such
  a call raises or makes a new task on the host.
-/
import SimLoop.Net.Registry
import SimLoop.Net.Tasks

set_option autoImplicit false

namespace SimLoop.Net

open SimLoop.Foundation Ledger

variable {ρ : Type}

namespace SimNetwork

/-! ## Before the streams -/

/-- What `crash` leaves alone until it gets to the streams, and the mark of the host. -/
theorem crashBegin_frame (s : SimNetwork ρ) (name : HostName) (waiting : List Nat) :
    (crashBegin name waiting s).alive = s.alive.insert name false ∧
    (crashBegin name waiting s).trace = s.trace ∧
    (crashBegin name waiting s).current = s.current ∧
    (crashBegin name waiting s).stack = s.stack ∧
    (crashBegin name waiting s).streams = s.streams := by
  let view : SimNetwork ρ → _ := fun u => (u.alive, u.trace, u.current, u.stack, u.streams)
  have hclose : ∀ (u : SimNetwork ρ) (v : Nat), view (closeServer v u) = view u := by
    intro u v
    unfold closeServer
    split
    · rfl
    · split <;> rfl
  have herase : ∀ (u : SimNetwork ρ) (a : Addr),
      view { u with datagrams := u.datagrams.erase a } = view u := fun _ _ => rfl
  have hfut : ∀ (u : SimNetwork ρ) (conn : Nat), view (setFut conn .cancelled u) = view u :=
    fun _ _ => rfl
  have hcancel : ∀ (u : SimNetwork ρ) (i : Nat), view (cancelTask i u) = view u :=
    fun _ _ => rfl
  have hview : view (crashBegin name waiting s) =
      (s.alive.insert name false, s.trace, s.current, s.stack, s.streams) := by
    unfold crashBegin
    refine (foldl_keeps herase _ _).trans ?_
    refine (foldl_keeps hclose _ _).trans ?_
    refine (foldl_keeps hfut _ _).trans ?_
    exact foldl_keeps hcancel _ _
  simpa only [view, Prod.mk.injEq] using hview

/-- Closing servers takes them off the listeners and registers nobody. -/
theorem listeners_foldl_closeServer (l : List Nat) : ∀ u : SimNetwork ρ,
    u.ledger.Registered → ∀ {a : Addr} {v : Nat},
      (l.foldl (fun s v => closeServer v s) u).listeners.get? a = some v →
        u.listeners.get? a = some v ∧ v ∉ l := by
  induction l with
  | nil => exact fun u _ a v h => ⟨h, List.not_mem_nil⟩
  | cons w l ih =>
      intro u hu a v h
      have hmoves := closeServer_moves (A := fun _ => False) u w
      obtain ⟨hv, hmem⟩ := ih (closeServer w u)
        (hmoves.invariant (fun g h hmove hg => hg.move hmove) hu) h
      -- the server that is closed is the one registered there, or another one
      have hkept : u.listeners.get? a = some v ∧ v ≠ w := by
        unfold closeServer at hv
        split at hv
        · rename_i hnone
          refine ⟨hv, ?_⟩
          rintro rfl
          obtain ⟨V, hV, -, -⟩ := server_of_registered hu hv
          rw [hnone] at hV
          cases hV
        · rename_i W hW
          split at hv
          · rename_i hclosed
            refine ⟨hv, ?_⟩
            rintro rfl
            obtain ⟨V, hV, -, hopen⟩ := server_of_registered hu hv
            rw [hW] at hV
            rw [Option.some.inj hV, hopen] at hclosed
            cases hclosed
          · simp only [Dict.get?_erase] at hv
            split at hv
            · cases hv
            · rename_i hne
              refine ⟨hv, ?_⟩
              rintro rfl
              obtain ⟨V, hV, haddr, -⟩ := server_of_registered hu hv
              rw [hW] at hV
              exact hne (Option.some.inj hV ▸ haddr)
      exact ⟨hkept.1, fun hmem' => (List.mem_cons.mp hmem').elim hkept.2 hmem⟩

/-- Erasing datagram endpoints leaves the others. -/
theorem datagrams_foldl_erase (l : List Addr) (a : Addr) : ∀ u : SimNetwork ρ,
    (l.foldl (fun (s : SimNetwork ρ) a => { s with datagrams := s.datagrams.erase a })
      u).datagrams.get? a = if a ∈ l then none else u.datagrams.get? a := by
  induction l with
  | nil => intro u; simp
  | cons b l ih =>
      intro u
      rw [List.foldl_cons, ih]
      simp only [Dict.get?_erase, List.mem_cons]
      by_cases hab : b = a
      · simp [hab]
      · simp [hab, Ne.symm hab]

/-! ## Among the streams -/

/-- The crash of a host has come to the streams, and those under `keys` are left. -/
structure Halfway (name : HostName) (s : SimNetwork ρ) (keys : List Key) (u : SimNetwork ρ) :
    Prop where
  down : u.alive.get? name = some false
  listeners : ∀ a, a.1 = name → u.listeners.get? a = none
  datagrams : ∀ a, a.1 = name → u.datagrams.get? a = none
  nodup : keys.Nodup
  left : ∀ k, k ∈ keys ↔ k.2.1 = name ∧ u.streams.get? k ≠ none
  trace : u.trace = s.trace
  current : u.current = s.current

/-- The crash of a host is over, and nothing of the host is left. -/
structure Over (name : HostName) (s u : SimNetwork ρ) : Prop where
  down : u.alive.get? name = some false
  listeners : ∀ a, a.1 = name → u.listeners.get? a = none
  datagrams : ∀ a, a.1 = name → u.datagrams.get? a = none
  streams : ∀ k, k.2.1 = name → u.streams.get? k = none
  held : ∀ p ∈ u.held, p.src ≠ name ∧ p.dst ≠ name
  recorded : ∃ e ∈ u.trace.drop s.trace.length, e.label = .crash name

/-- How far the crash of a host has come that began in `s`; the index says whether a call
into the program raised. -/
inductive Progress (name : HostName) (s u : SimNetwork ρ) : Bool → Prop
  | calling (keys : List Key) (hu : Halfway name s keys u)
      (hstack : u.stack = .code :: .crash name keys :: s.stack) : Progress name s u false
  | looping (keys : List Key) (hu : Halfway name s keys u)
      (hstack : u.stack = .crash name keys :: s.stack) (v : Value)
      (hsignal : u.signal = .returned v) : Progress name s u false
  | raising (keys : List Key) (htrace : u.trace = s.trace)
      (hstack : u.stack = .crash name keys :: s.stack) (e : Exc)
      (hsignal : u.signal = .raised e) : Progress name s u true
  | failed (htrace : u.trace = s.trace) (hstack : u.stack = s.stack) : Progress name s u true
  | ended (hu : Over name s u) (hstack : u.stack = s.stack) : Progress name s u false

/-- What `crash` does to the listeners and the datagram endpoints. -/
theorem crashBegin_unbinds {s : SimNetwork ρ} (hs : s.ledger.Registered) (name : HostName)
    (waiting : List Nat) (a : Addr) (ha : a.1 = name) :
    (crashBegin name waiting s).listeners.get? a = none ∧
    (crashBegin name waiting s).datagrams.get? a = none := by
  obtain ⟨u, w, hu, hw, hcrash⟩ : ∃ u w : SimNetwork ρ, u.ledger.Registered ∧
      w = ((u.listeners.entries.filter fun e => e.1.1 = name).map (·.2)).foldl
        (fun s v => closeServer v s) u ∧
      crashBegin name waiting s = (w.datagrams.keys.filter fun a => a.1 = name).foldl
        (fun (s : SimNetwork ρ) a => { s with datagrams := s.datagrams.erase a }) w := by
    refine ⟨_, _, ?_, rfl, rfl⟩
    let I : SimNetwork ρ → Prop := fun u => u.ledger.Registered
    refine List.foldlRecOn _ _ (motive := I) ?_
      fun u hu conn _ => ⟨hu.streams, hu.datagrams, hu.listeners⟩
    refine List.foldlRecOn _ _ (motive := I) ?_
      fun u hu i _ => ⟨hu.streams, hu.datagrams, hu.listeners⟩
    exact ⟨hs.streams, hs.datagrams, hs.listeners⟩
  have herase : ∀ (u : SimNetwork ρ) (a : Addr),
      ({ u with datagrams := u.datagrams.erase a } : SimNetwork ρ).listeners = u.listeners :=
    fun _ _ => rfl
  rw [hcrash]
  constructor
  · rw [foldl_keeps herase, hw, Option.eq_none_iff_forall_ne_some]
    intro v hv
    obtain ⟨hv, hmem⟩ := listeners_foldl_closeServer _ u hu hv
    refine hmem (List.mem_map.mpr ⟨(a, v), List.mem_filter.mpr ⟨?_, ?_⟩, rfl⟩)
    · exact Dict.mem_entries_iff.mpr hv
    · exact decide_eq_true ha
  · rw [datagrams_foldl_erase]
    split
    · rfl
    · rename_i hmem
      refine Dict.get?_eq_none_iff.mpr fun hkey => hmem (List.mem_filter.mpr ⟨hkey, ?_⟩)
      exact decide_eq_true ha

theorem crashBegin_halfway {s : SimNetwork ρ} {name : HostName} (hs : s.ledger.Registered)
    (waiting : List Nat) :
    Halfway name s ((crashBegin name waiting s).streams.keys.filter fun k => k.2.1 = name)
      (crashBegin name waiting s) := by
  obtain ⟨halive, htrace, hcurrent, -, -⟩ := crashBegin_frame s name waiting
  refine ⟨?_, fun a ha => (crashBegin_unbinds hs name waiting a ha).1,
    fun a ha => (crashBegin_unbinds hs name waiting a ha).2, ?_, fun k => ?_, htrace, hcurrent⟩
  · rw [halive, Dict.get?_insert_self]
  · exact List.Nodup.filter _ (crashBegin name waiting s).streams.nodupKeys
  · rw [List.mem_filter, decide_eq_true_eq, and_comm, Ne, Dict.get?_eq_none_iff, not_not]

theorem crashEnd_over {name : HostName} {s u : SimNetwork ρ} (hu : Halfway name s [] u) :
    Over name s (crashEnd name u) := by
  have htraffic : (crashEnd name u).traffic = u.traffic.purge u.now name :=
    congrArg Ledger.traffic (ledger_crashEnd u name)
  have hrest : (crashEnd name u).alive = u.alive ∧ (crashEnd name u).listeners = u.listeners ∧
      (crashEnd name u).datagrams = u.datagrams ∧ (crashEnd name u).streams = u.streams := by
    simp only [crashEnd, foldl_tracePacket]
    exact ⟨rfl, rfl, rfl, rfl⟩
  obtain ⟨halive, hlisteners, hdatagrams, hstreams⟩ := hrest
  refine ⟨halive ▸ hu.down, hlisteners ▸ hu.listeners, hdatagrams ▸ hu.datagrams,
    fun k hk => ?_, fun p hp => ?_, ⟨⟨u.now, u.nextUid, .crash name⟩, ?_, rfl⟩⟩
  · by_contra hne
    rw [hstreams] at hne
    exact absurd ((hu.left k).mpr ⟨hk, hne⟩) List.not_mem_nil
  · rw [show (crashEnd name u).held = _ from congrArg Traffic.held htraffic] at hp
    have hfar := (List.mem_filter.mp hp).2
    simp only [Traffic.endsAt, Bool.not_eq_true', decide_eq_false_iff_not, not_or] at hfar
    exact ⟨Ne.symm hfar.1, Ne.symm hfar.2⟩
  · rw [show (crashEnd name u).trace = _ from congrArg Traffic.trace htraffic]
    rw [Traffic.purge, show u.traffic.trace = s.trace from hu.trace, List.append_assoc,
      List.drop_left]
    exact List.mem_append_right _ (List.mem_singleton.mpr rfl)

/-- One turn of the loop over the streams: the next one is gone, and its protocol is told
if it has one; after the last one the crash is over. -/
theorem Halfway.next {name : HostName} {s u : SimNetwork ρ} {keys : List Key}
    (hu : Halfway name s keys u) (hregistered : u.ledger.Registered)
    (hstack : u.stack = s.stack) : Progress name s (crashNext name keys u) false := by
  cases keys with
  | nil =>
      refine .ended (crashEnd_over hu) ?_
      simp only [crashNext, crashEnd, foldl_tracePacket]
      exact hstack
  | cons k rest =>
      obtain ⟨hname, hk⟩ := (hu.left k).mp List.mem_cons_self
      obtain ⟨t, ht⟩ := Option.ne_none_iff_exists'.mp hk
      obtain ⟨T, hT, hkey, hopen⟩ := stream_of_registered hregistered ht
      obtain ⟨hrest, hnodup⟩ := List.nodup_cons.mp hu.nodup
      have hleft : ∀ q, q ∈ rest ↔ q.2.1 = name ∧ (u.streams.erase k).get? q ≠ none := by
        intro q
        rw [Dict.get?_erase]
        by_cases hq : k = q
        · subst hq
          simp [hrest]
        · rw [if_neg hq, ← hu.left q, List.mem_cons]
          exact ⟨.inr, fun h => h.resolve_left (Ne.symm hq)⟩
      simp only [crashNext, ht, finish, hT, hopen, Bool.false_eq_true, if_false, hkey]
      split
      · exact .looping rest
          ⟨hu.down, hu.listeners, hu.datagrams, hnodup, hleft, hu.trace, hu.current⟩
          (congrArg _ hstack) {} rfl
      · exact .calling rest
          ⟨hu.down, hu.listeners, hu.datagrams, hnodup, hleft, hu.trace, hu.current⟩
          (congrArg (fun l => Frame.code :: .crash name rest :: l) hstack)

/-! ## Callbacks -/

/-- An act that calls nothing of the network. -/
def quiet : Act → Bool
  | .tick => true
  | .ret _ => true
  | .raise _ => true
  | .createTask _ _ => true
  | .hostCreateTask _ _ => true
  | .cancelConnection _ => true
  | _ => false

/-- An exception is raised. -/
def raises : Act → Bool
  | .raise _ => true
  | _ => false

/-- A task is made on this host. -/
def makesOn (s : SimNetwork ρ) (name : HostName) : Act → Bool
  | .createTask _ _ => s.current = name
  | .hostCreateTask other _ => other = name
  | _ => false

/-- The tasks made on the way from one state to another, and whether any is registered with
this host. -/
def Made (name : HostName) (s s' : SimNetwork ρ) (onHost : Bool) : Prop :=
  ∃ new : List Task, s'.tasks = s.tasks ++ new ∧ (∀ T ∈ new, T.done = false) ∧
    ((∃ T ∈ new, T.registered = name) ↔ onHost = true)

theorem Made.nothing {name : HostName} {s s' : SimNetwork ρ} (h : s'.tasks = s.tasks) :
    Made name s s' false :=
  ⟨[], by rw [h, List.append_nil], by simp, by simp⟩

theorem Made.trans {name : HostName} {s u v : SimNetwork ρ} {b c : Bool} (hsu : Made name s u b)
    (huv : Made name u v c) : Made name s v (b || c) := by
  obtain ⟨new, htasks, hopen, hname⟩ := hsu
  obtain ⟨new', htasks', hopen', hname'⟩ := huv
  refine ⟨new ++ new', by rw [htasks', htasks, List.append_assoc], fun T hT => ?_, ?_⟩
  · exact (List.mem_append.mp hT).elim (hopen T) (hopen' T)
  · simp only [List.mem_append, or_and_right, exists_or, hname, hname', Bool.or_eq_true]

/-- Making a task in the middle of a crash, with the current host or another one. -/
theorem Halfway.register {name : HostName} {s u : SimNetwork ρ} {keys : List Key}
    (hu : Halfway name s keys u) (henrolled : u.hosts.Enrolled) (host pinned : HostName) :
    let v : SimNetwork ρ :=
      { registerTask pinned { u with current := host } with current := u.current }
    Halfway name s keys v ∧ v.stack = u.stack ∧ Made name u v (host = name) := by
  intro v
  cases howner : u.roster.get? host with
  | none =>
      have hne : host ≠ name := by
        rintro rfl
        have hnone := (henrolled.hosts host).mp howner
        rw [show u.hosts.alive.get? host = _ from hu.down] at hnone
        cases hnone
      have hv : v = u.throw (.error .keyError (quoted host)) := by
        simp only [v, registerTask, howner]
        rfl
      rw [hv, decide_eq_false hne]
      exact ⟨⟨hu.down, hu.listeners, hu.datagrams, hu.nodup, hu.left, hu.trace, hu.current⟩, rfl,
        .nothing rfl⟩
  | some owner =>
      have hv : v = ({ u with
          tasks := u.tasks ++ [{ registered := host, pinned := pinned }]
          roster := u.roster.insert host (owner ++ [u.tasks.length]) } : SimNetwork ρ).back := by
        simp only [v, registerTask, howner]
        rfl
      rw [hv]
      exact ⟨⟨hu.down, hu.listeners, hu.datagrams, hu.nodup, hu.left, hu.trace, hu.current⟩, rfl,
        [{ registered := host, pinned := pinned }], rfl, by simp, by simp⟩

/-- A callback that a crash has called goes on. -/
theorem Halfway.callback {R : RandomSource ρ} {name : HostName} {s u u' : SimNetwork ρ}
    {keys : List Key} {a : Act} (hu : Halfway name s keys u)
    (hstack : u.stack = .code :: .crash name keys :: s.stack) (henrolled : u.hosts.Enrolled)
    (hquiet : quiet a = true) (hact : codeAct R (.crash name keys :: s.stack) u a = some u') :
    Progress name s u' (raises a) ∧ Made name u u' (s.makesOn name a) := by
  cases a
  case ret v =>
    obtain rfl := Option.some.inj hact
    exact ⟨.looping keys ⟨hu.down, hu.listeners, hu.datagrams, hu.nodup, hu.left, hu.trace,
      hu.current⟩ rfl v rfl, .nothing rfl⟩
  case raise e =>
    obtain rfl := Option.some.inj hact
    exact ⟨.raising keys hu.trace rfl e rfl, .nothing rfl⟩
  case cancelConnection conn =>
    obtain rfl := Option.some.inj hact
    exact ⟨.calling keys ⟨hu.down, hu.listeners, hu.datagrams, hu.nodup, hu.left, hu.trace,
      hu.current⟩ hstack, .nothing rfl⟩
  case createTask made context =>
    simp only [codeAct] at hact
    split at hact
    · obtain rfl := Option.some.inj hact
      obtain ⟨hv, hdeep, hmade⟩ := hu.register henrolled u.current
        (made.getD (context.getD u.current))
      have heq : ({ createTask made context u with current := u.current } : SimNetwork ρ) =
          createTask made context u := by
        unfold createTask registerTask
        split <;> rfl
      rw [show ({ u with current := u.current } : SimNetwork ρ) = u from rfl,
        ← createTask, heq] at hv hdeep hmade
      rw [hu.current] at hmade
      exact ⟨.calling keys hv (hdeep.trans hstack), hmade⟩
    · cases hact
  case hostCreateTask other made =>
    simp only [codeAct] at hact
    split at hact
    · obtain rfl := Option.some.inj hact
      obtain ⟨hv, hdeep, hmade⟩ := hu.register henrolled other (made.getD other)
      exact ⟨.calling keys hv (hdeep.trans hstack), hmade⟩
    · cases hact
  case tick => cases hact
  all_goals cases hquiet

/-- One step in the middle of a crash. -/
theorem Progress.step {R : RandomSource ρ} {name : HostName} {s u u' : SimNetwork ρ} {a : Act}
    {b : Bool} (hu : Progress name s u b) (hregistered : u.ledger.Registered)
    (henrolled : u.hosts.Enrolled) (hdeep : s.stack.length < u.stack.length)
    (hquiet : quiet a = true) (hstep : Step R u a u') :
    Progress name s u' (b || raises a) ∧ Made name u u' (s.makesOn name a) := by
  cases hu with
  | calling keys hu hstack =>
      rcases step_cases R hstep with ⟨-, hnil, -⟩ | ⟨rest, -, hrest, hact⟩ | ⟨rfl, hsignal, rfl⟩
      · rw [hstack] at hnil
        cases hnil
      · rw [hstack] at hrest
        obtain ⟨-, rfl⟩ := List.cons.inj hrest
        exact hu.callback hstack henrolled hquiet hact
      · rw [turn_of_code R hstack]
        exact ⟨.calling keys ⟨hu.down, hu.listeners, hu.datagrams, hu.nodup, hu.left, hu.trace,
          hu.current⟩ hstack, .nothing rfl⟩
  | looping keys hu hstack v hsignal =>
      rcases step_cases R hstep with ⟨hrun, -, -⟩ | ⟨-, hrun, -, -⟩ | ⟨rfl, -, rfl⟩
      · rw [hsignal] at hrun
        cases hrun
      · rw [hsignal] at hrun
        cases hrun
      · have hturn : turn R u = crashNext name keys { u with stack := s.stack } := by
          simp only [turn, hsignal, hstack, proceed]
        rw [hturn]
        have hu₀ : Halfway name s keys { u with stack := s.stack } :=
          ⟨hu.down, hu.listeners, hu.datagrams, hu.nodup, hu.left, hu.trace, hu.current⟩
        exact ⟨hu₀.next hregistered rfl, .nothing (congrArg Roster.tasks (hosts_crashNext _ _ _))⟩
  | raising keys htrace hstack e hsignal =>
      rcases step_cases R hstep with ⟨hrun, -, -⟩ | ⟨-, hrun, -, -⟩ | ⟨rfl, -, rfl⟩
      · rw [hsignal] at hrun
        cases hrun
      · rw [hsignal] at hrun
        cases hrun
      · have hturn : turn R u = ({ u with stack := s.stack } : SimNetwork ρ).throw e := by
          simp only [turn, hsignal, hstack, unwind]
        rw [hturn]
        exact ⟨.failed htrace rfl, .nothing rfl⟩
  | failed htrace hstack => exact absurd hdeep (by rw [hstack]; exact lt_irrefl _)
  | ended hu hstack => exact absurd hdeep (by rw [hstack]; exact lt_irrefl _)

/-! ## Whole crashes -/

/-- The crash that began in `s` is not over, and the act calls nothing of the network. -/
def duringCrash (s u : SimNetwork ρ) (a : Act) : Bool :=
  decide (s.stack.length < u.stack.length) && quiet a

/-- A crash of this host from `s` to its end, whether it returns or raises.  What it calls
does not call the network. -/
def CrashRun (R : RandomSource ρ) (s : SimNetwork ρ) (name : HostName) (acts : List Act)
    (s' : SimNetwork ρ) : Prop :=
  ∃ s₁, CrashStep R s name s₁ ∧ Run (restrict (Step R) fun u a => s.duringCrash u a) s₁ acts s' ∧
    s'.stack = s.stack ∧ s'.signal ≠ .run

/-- A crash run to its end on given acts, when they are possible. -/
def runCrash (R : RandomSource ρ) (s : SimNetwork ρ) (name : HostName) (acts : List Act) :
    Option (SimNetwork ρ) :=
  if s.alive.get? name = some true ∧ name ≠ driver then
    match perform R s (.crash name []) with
    | none => none
    | some s₁ =>
      match performsWhile R s.duringCrash s₁ acts with
      | none => none
      | some s' => if s'.stack = s.stack ∧ s'.signal ≠ .run then some s' else none
  else none

theorem crashRun_of_runCrash {R : RandomSource ρ} {s s' : SimNetwork ρ} {name : HostName}
    {acts : List Act} (h : runCrash R s name acts = some s') : CrashRun R s name acts s' := by
  unfold runCrash at h
  split at h
  · rename_i hname
    split at h
    · cases h
    · rename_i s₁ hcrash
      split at h
      · cases h
      · rename_i u hacts
        split at h
        · rename_i hend
          obtain rfl := Option.some.inj h
          exact ⟨s₁, ⟨hname, [], hcrash⟩, run_of_performsWhile R hacts, hend⟩
        · cases h
  · cases h

/-- Nothing of the host is left, and its unfinished tasks were asked to cancel. -/
structure TornDown (name : HostName) (s s' : SimNetwork ρ) : Prop extends Over name s s' where
  cancelled : ∀ (i : Nat) (T : Task), s'.tasks[i]? = some T → T.done = false →
    T.registered = name → s.AskedBetween s' i

theorem CrashStep.progress {R : RandomSource ρ} {s s₁ : SimNetwork ρ} {name : HostName}
    (hs : s.ledger.Registered) (hstep : CrashStep R s name s₁) : Progress name s s₁ false := by
  obtain ⟨waiting, rfl⟩ := hstep.eq
  refine (crashBegin_halfway hs waiting).next ?_ (crashBegin_frame s name waiting).2.2.2.1
  refine (crashBegin_moves (A := fun _ => True) s ?_ waiting fun _ _ => trivial).invariant
    (fun g h hmove hg => hg.move hmove) hs
  exact Option.isSome_iff_exists.mpr ⟨true, hstep.1.1⟩

/-- How far a crash has come after some of its acts. -/
theorem Progress.run {R : RandomSource ρ} {name : HostName} {s s₁ u : SimNetwork ρ}
    {acts : List Act} (hs₁ : Progress name s s₁ false) (hregistered : s₁.ledger.Registered)
    (henrolled : s₁.hosts.Enrolled)
    (run : Run (restrict (Step R) fun u a => s.duringCrash u a) s₁ acts u) :
    Progress name s u (acts.any raises) ∧ Made name s₁ u (acts.any (s.makesOn name)) ∧
      u.ledger.Registered ∧ u.hosts.Enrolled := by
  induction run with
  | nil => exact ⟨hs₁, .nothing rfl, hregistered, henrolled⟩
  | snoc _ hstep ih =>
      obtain ⟨hu, hmade, hregistered, henrolled⟩ := ih
      obtain ⟨hstep, hguard⟩ := hstep
      obtain ⟨hdeep, hquiet⟩ := Bool.and_eq_true_iff.mp hguard
      obtain ⟨hv, hmade'⟩ := hu.step hregistered henrolled (of_decide_eq_true hdeep) hquiet hstep
      simp only [List.any_append, List.any_cons, List.any_nil, Bool.or_false]
      exact ⟨hv, hmade.trans hmade', hstep.registered hregistered, hstep.enrolled henrolled⟩

/-- **A crash is all-or-nothing** as long as no callback raises and none makes a task on
the host: from every reachable state, exactly then nothing of the host is left when its
crash ends. -/
theorem crash_all_or_nothing_iff {R : RandomSource ρ} {seed : Int} {before acts : List Act}
    {s s' : SimNetwork ρ} {name : HostName} (run : Run (Step R) (init R seed) before s)
    (hcrash : CrashRun R s name acts s') :
    TornDown name s s' ↔ ∀ a ∈ acts, raises a = false ∧ s.makesOn name a = false := by
  obtain ⟨s₁, hstep, hacts, hstack, -⟩ := hcrash
  have hs : s.ledger.Registered := registered_of_run run
  have henrolled : s.hosts.Enrolled := run.invariant
    (fun _ _ _ hu hstep => hstep.enrolled hu) (enrolled_init R seed)
  have htasks := hstep.tasks henrolled
  obtain ⟨hprogress, ⟨new, hnew, hopen, hmade⟩, -, -⟩ := (hstep.progress hs).run
    (hstep.2.elim fun _ h => h.registered hs) (hstep.2.elim fun _ h => h.enrolled henrolled) hacts
  -- the tasks of the old list come first, with the same numbers
  have hold : ∀ {i : Nat} {T : Task}, s₁.tasks[i]? = some T → ∃ U, s.tasks[i]? = some U := by
    intro i T hT
    rw [htasks] at hT
    obtain ⟨U, hU, -⟩ := Option.map_eq_some_iff.mp hT
    exact ⟨U, hU⟩
  constructor
  · intro htorn a ha
    refine ⟨?_, ?_⟩ <;> rw [← Bool.not_eq_true]
    · intro hraise
      rw [List.any_eq_true.mpr ⟨a, ha, hraise⟩] at hprogress
      have htrace : s'.trace = s.trace := by
        cases hprogress with
        | raising _ htrace _ _ _ => exact htrace
        | failed htrace _ => exact htrace
      obtain ⟨e, he, -⟩ := htorn.recorded
      rw [htrace, List.drop_length] at he
      exact List.not_mem_nil he
    · intro hon
      obtain ⟨T, hT, hname⟩ := hmade.mpr (List.any_eq_true.mpr ⟨a, ha, hon⟩)
      obtain ⟨i, hi⟩ := List.mem_iff_getElem?.mp hT
      have hnumber : s'.tasks[s₁.tasks.length + i]? = some T := by
        rw [hnew, List.getElem?_append_right (Nat.le_add_right _ _), Nat.add_sub_cancel_left]
        exact hi
      obtain ⟨U, -, hU, -, -⟩ := htorn.cancelled _ T hnumber (hopen T hT) hname
      have hsome : s₁.tasks[s₁.tasks.length + i]? ≠ none := by
        rw [htasks, hU]
        exact Option.some_ne_none _
      exact hsome (List.getElem?_eq_none (Nat.le_add_right _ _))
  · intro hquiet
    have hraises : acts.any raises = false :=
      List.any_eq_false.mpr fun a ha => Bool.not_eq_true _ ▸ (hquiet a ha).1
    have hmakes : acts.any (s.makesOn name) = false :=
      List.any_eq_false.mpr fun a ha => Bool.not_eq_true _ ▸ (hquiet a ha).2
    rw [hraises] at hprogress
    rw [hmakes] at hmade
    have hover : Over name s s' := by
      cases hprogress with
      | calling keys _ hcalling =>
          have hlength := congrArg List.length (hstack.symm.trans hcalling)
          simp only [List.length_cons] at hlength
          omega
      | looping keys _ hlooping _ _ =>
          have hlength := congrArg List.length (hstack.symm.trans hlooping)
          simp only [List.length_cons] at hlength
          omega
      | ended hover _ => exact hover
    refine ⟨hover, fun i T hT hdone hname => ?_⟩
    rw [hnew] at hT
    by_cases hi : i < s₁.tasks.length
    · rw [List.getElem?_append_left hi] at hT
      obtain ⟨U, hU⟩ := hold hT
      have hT' := hT
      rw [htasks, hU, Option.map_some] at hT'
      by_cases hask : U.done = false ∧ U.registered = name
      · rw [if_pos hask] at hT'
        refine ⟨U, T, hU, ?_, ?_⟩
        · rw [hnew, List.getElem?_append_left hi]
          exact hT
        · rw [← Option.some.inj hT']
          exact Nat.lt_succ_self _
      · rw [if_neg hask] at hT'
        obtain rfl := Option.some.inj hT'
        exact absurd ⟨hdone, hname⟩ hask
    · rw [List.getElem?_append_right (Nat.le_of_not_lt hi)] at hT
      exact absurd (hmade.mp ⟨T, List.mem_of_getElem? hT, hname⟩) (by decide)

/-- The host `a` opens a connection to itself; then the driver is at work. -/
def selfConnected : List Act :=
  [.callback driver, .host "a", .tick, .ret {}, .tick,
    .callback "a", .startServer none 80, .tick, .openConnection "a" 80, .tick, .ret {}, .tick,
    .fire 0, .ret {}, .tick, .ret {}, .tick, .tick, .tick,
    .fire 0, .ret {}, .tick, .ret {}, .tick, .tick, .tick, .tick,
    .callback driver]

theorem crash_all_or_nothing_iff_selfConnected : ∃ s s' : SimNetwork Unit,
    performs .least (init .least 0) selfConnected = some s ∧
      CrashRun .least s "a" [.ret {}, .tick, .ret {}, .tick] s' ∧ TornDown "a" s s' := by
  have hcrash : ((performs .least (init .least 0) selfConnected).bind fun s =>
      (runCrash .least s "a" [.ret {}, .tick, .ret {}, .tick]).map fun _ => ()) = some () := by
    decide +kernel
  obtain ⟨s, hs, hrest⟩ := Option.bind_eq_some_iff.mp hcrash
  obtain ⟨s', hs', -⟩ := Option.map_eq_some_iff.mp hrest
  have hrun := crashRun_of_runCrash hs'
  refine ⟨s, s', hs, hrun, (crash_all_or_nothing_iff (run_of_performs _ hs) hrun).mpr ?_⟩
  intro a ha
  simp only [List.mem_cons, List.not_mem_nil, or_false] at ha
  rcases ha with rfl | rfl | rfl | rfl <;> exact ⟨rfl, rfl⟩

/-- The first `connection_lost` raises, and the other end of the connection stays. -/
theorem not_crash_all_or_nothing :
    ¬ ∀ (before acts : List Act) (s s' : SimNetwork Unit) (name : HostName),
      Run (Step .least) (init .least 0) before s → CrashRun .least s name acts s' →
        TornDown name s s' := by
  intro hall
  have hcrash : ((performs .least (init .least 0) selfConnected).bind fun s =>
      (runCrash .least s "a" [.raise .user, .tick]).map fun s' =>
        s'.streams.get? (0, ("a", 49152))) = some (some 1) := by
    decide +kernel
  obtain ⟨s, hs, hrest⟩ := Option.bind_eq_some_iff.mp hcrash
  obtain ⟨s', hs', hstream⟩ := Option.map_eq_some_iff.mp hrest
  have htorn := hall _ _ s s' "a" (run_of_performs _ hs) (crashRun_of_runCrash hs')
  rw [htorn.streams (0, ("a", 49152)) rfl] at hstream
  cases hstream

end SimNetwork

end SimLoop.Net
