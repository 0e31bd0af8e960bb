/-
  Net/Addresses.lean --- the addresses of datagram endpoints.

  An endpoint without a local address gets the port of a counter that all hosts share,
  and one with a local address gets whatever port it asks for.  The counter only ever
  goes up, so that no two endpoints get the same port from it; but nobody keeps it away
  from the ports that were asked for.
-/
import SimLoop.Net.Teardown

set_option autoImplicit false

namespace SimLoop.Net

open SimLoop.Foundation

variable {ρ : Type}

namespace SimNetwork

/-! ## What a step does to the ports -/

/-- The addresses of the datagram endpoints made so far. -/
def bindings (g : Ledger) : List Addr := g.datagrams.entries.map (·.addr)

/-- The act binds a datagram endpoint to an address the program chose. -/
def chooses : Act → Bool
  | .openDatagramEndpoint (some _) _ => true
  | _ => false

/-- What a step does to the ports: the counter never goes down, and an endpoint that is
made has a port the counter is past, unless the program chose its address. -/
def Grows (a : Act) (g h : Ledger) : Prop :=
  g.nextPort ≤ h.nextPort ∧ ∃ new : List Addr, bindings h = bindings g ++ new ∧
    (chooses a = false → ∀ b ∈ new, b.2 < h.nextPort)

theorem bindings_ledger (s : SimNetwork ρ) :
    bindings s.ledger = s.datagramTransports.map DatagramTransport.loc :=
  List.map_map

theorem Grows.of_eq {a : Act} {g h i : Ledger} (hg : Grows a g h)
    (hport : i.nextPort = h.nextPort) (hbindings : bindings i = bindings h) : Grows a g i := by
  obtain ⟨hle, new, hnew, hbelow⟩ := hg
  exact ⟨hport ▸ hle, new, hbindings.trans hnew, fun ha b hb => hport ▸ hbelow ha b hb⟩

theorem Grows.move {s : SimNetwork ρ} {a : Act} {g h i : Ledger} (hg : Grows a g h)
    (hmove : Ledger.Move (Answers s a) h i) : Grows a g i := by
  cases hmove with
  | @bound e _ _ _ hanswers =>
      obtain ⟨hle, new, hnew, hbelow⟩ := hg
      refine ⟨hle, new ++ [e.addr], ?_, fun ha b hb => ?_⟩
      · rw [← List.append_assoc, ← hnew]
        exact List.map_append
      · rcases List.mem_append.mp hb with hb | hb
        · exact hbelow ha b hb
        · -- the program did not choose this address, so the counter gave it
          obtain ⟨loc, remote, rfl, hport⟩ := hanswers
          rw [List.mem_singleton.mp hb]
          cases loc with
          | none => exact hport rfl
          | some _ => cases ha
  | @closed d e he _ =>
      refine hg.of_eq rfl ?_
      simp only [bindings, Roll.retire_of_get? he]
      apply map_modify_eq
      exact fun _ => rfl
  | drew =>
      obtain ⟨hle, new, hnew, hbelow⟩ := hg
      exact ⟨hle.trans (Nat.le_succ _), new, hnew, fun ha b hb =>
        (hbelow ha b hb).trans (Nat.lt_succ_self _)⟩
  | _ => exact hg.of_eq rfl rfl

/-- **What a step does to the ports.** -/
theorem Step.grows {R : RandomSource ρ} {s s' : SimNetwork ρ} {a : Act} (hstep : Step R s a s') :
    Grows a s.ledger s'.ledger := by
  have hself : Grows a s.ledger s.ledger := ⟨le_refl _, [], by simp⟩
  rcases step_moves R s hstep with hmoves | ⟨name, -, hrestart⟩
  · exact hmoves.invariant (I := Grows a s.ledger) (fun _ _ hmove hg => hg.move hmove) hself
  · rw [hrestart]
    exact hself.of_eq rfl rfl

section

variable {R : RandomSource ρ} {s s' : SimNetwork ρ} {a : Act}

/-- An endpoint keeps its number and its address. -/
theorem Step.loc (hstep : Step R s a s') {d : Nat} {D : DatagramTransport}
    (hD : s.datagramTransports[d]? = some D) :
    ∃ D', s'.datagramTransports[d]? = some D' ∧ D'.loc = D.loc := by
  obtain ⟨-, new, hnew, -⟩ := hstep.grows
  rw [bindings_ledger, bindings_ledger] at hnew
  have hloc : (s.datagramTransports.map DatagramTransport.loc)[d]? = some D.loc := by
    rw [List.getElem?_map, hD, Option.map_some]
  have hloc' : (s'.datagramTransports.map DatagramTransport.loc)[d]? = some D.loc := by
    rw [hnew, List.getElem?_append_left (List.getElem?_eq_some_iff.mp hloc).1]
    exact hloc
  simpa only [List.getElem?_map, Option.map_eq_some_iff] using hloc'

theorem Step.opens {loc : Option (Option String × Nat)} {remote : Option (String × Nat)}
    (hstep : Step R s (.openDatagramEndpoint loc remote) s') :
    s' = openDatagramEndpoint loc remote s := by
  rcases step_cases R hstep with ⟨-, -, h⟩ | ⟨rest, -, -, h⟩ | ⟨h, -, -⟩
  · cases h
  · exact (Option.some.inj h).symm
  · cases h

/-- As long as nobody takes its address away an endpoint stays bound. -/
theorem Step.bound (hstep : Step R s a s') {b : Addr} {d : Nat} (ha : ¬ Unbinds s a b)
    (hb : s.datagrams.get? b = some d) : s'.datagrams.get? b = some d := by
  rcases step_moves R s hstep with hmoves | ⟨name, -, hrestart⟩
  · refine hmoves.invariant (I := fun g => g.datagrams.table.get? b = some d)
      (fun g h hmove hg => ?_) hb
    cases hmove with
    | @bound e _ _ hfree _ =>
        refine (Dict.get?_insert_of_ne _ _ ?_).trans hg
        rintro rfl
        rw [hfree] at hg
        cases hg
    | @closed i e he hfreed =>
        rw [Roll.retire_of_get? he]
        refine (Dict.get?_erase_of_ne _ ?_).trans hg
        rintro rfl
        exact ha hfreed
    | @freed c hfreed =>
        refine (Dict.get?_erase_of_ne _ ?_).trans hg
        rintro rfl
        exact ha hfreed
    | _ => exact hg
  · have hroll : s'.datagramRoll = s.datagramRoll := congrArg Ledger.datagrams hrestart
    exact (congrArg (·.table.get? b) hroll).trans hb

/-- Nobody is bound to an address right after it was taken away. -/
theorem Step.unbound (hstep : Step R s a s') (hs : s.ledger.Registered) {b : Addr}
    (ha : Unbinds s a b) : s'.datagrams.get? b = none := by
  cases a
  case closeDatagram d =>
    obtain ⟨D, hD, rfl, hopen⟩ := ha
    rcases step_cases R hstep with ⟨-, -, h⟩ | ⟨rest, -, -, h⟩ | ⟨h, -, -⟩
    · cases h
    · simp only [codeAct] at h
      split at h
      · obtain rfl := Option.some.inj h
        simp only [closeDatagram, hD, hopen, Bool.false_eq_true, if_false]
        exact Dict.get?_erase_self _ _
      · cases h
    · cases h
  case crash name waiting =>
    obtain ⟨hname, rfl⟩ := ha
    have hcrash : CrashStep R s b.1 s' := ⟨hname, waiting, hstep⟩
    cases hcrash.progress hs with
    | calling _ hu _ => exact hu.datagrams b rfl
    | looping _ hu _ _ _ => exact hu.datagrams b rfl
    | ended hu _ => exact hu.datagrams b rfl
  all_goals exact absurd ha not_false

/-- Nobody bound to its address, an endpoint is registered nowhere. -/
theorem gone_of_unbound (hs : s.ledger.Registered) {d : Nat} {D : DatagramTransport}
    (hD : s.datagramTransports[d]? = some D) (hfree : s.datagrams.get? D.loc ≠ some d) :
    s.datagramRoll.Gone [d] := by
  refine ⟨fun b i hi hmem => ?_, fun i hi => ?_⟩
  · obtain rfl := List.mem_singleton.mp hmem
    obtain ⟨E, hE, rfl, -⟩ := datagram_of_registered hs hi
    obtain rfl := Option.some.inj (hD.symm.trans hE)
    exact hfree hi
  · obtain rfl := List.mem_singleton.mp hi
    simp only [datagramRoll, List.length_map]
    exact (List.getElem?_eq_some_iff.mp hD).1

end

/-! ## Endpoints over a run -/

/-- A network, with the datagram endpoints that went down with their host and those whose
address the program chose. -/
structure Census (ρ : Type) where
  net : SimNetwork ρ
  swept : List Nat := []
  chosen : List Nat := []

/-- The datagram endpoints a crash takes with it. -/
def sweptBy (s : SimNetwork ρ) : Act → List Nat
  | .crash name _ =>
    if s.alive.get? name = some true ∧ name ≠ driver then
      (List.range s.datagramTransports.length).filter fun d =>
        s.datagramTransports[d]?.any fun D => D.loc.1 = name
    else []
  | _ => []

/-- The datagram endpoints that a step makes with an address the program chose. -/
def chosenBy (s : SimNetwork ρ) (a : Act) (s' : SimNetwork ρ) : List Nat :=
  if chooses a then
    List.range' s.datagramTransports.length
      (s'.datagramTransports.length - s.datagramTransports.length)
  else []

namespace Census

/-- One act. -/
def perform (R : RandomSource ρ) (c : Census ρ) (a : Act) : Option (Census ρ) :=
  (SimNetwork.perform R c.net a).map fun s =>
    { net := s
      swept := c.swept ++ sweptBy c.net a
      chosen := c.chosen ++ chosenBy c.net a s }

/-- The network, under census. -/
def Step (R : RandomSource ρ) (c : Census ρ) (a : Act) (c' : Census ρ) : Prop :=
  c.perform R a = some c'

theorem Step.eq {R : RandomSource ρ} {c c' : Census ρ} {a : Act} (hstep : Step R c a c') :
    SimNetwork.Step R c.net a c'.net ∧ c'.swept = c.swept ++ sweptBy c.net a ∧
      c'.chosen = c.chosen ++ chosenBy c.net a c'.net := by
  obtain ⟨s, hs, rfl⟩ := Option.map_eq_some_iff.mp hstep
  exact ⟨hs, rfl, rfl⟩

/-- Every run of the network is one under census. -/
theorem exists_run {R : RandomSource ρ} {s s' : SimNetwork ρ} {acts : List Act}
    (run : Run (SimNetwork.Step R) s acts s') :
    ∃ c : Census ρ, c.net = s' ∧ Run (Step R) { net := s } acts c := by
  induction run with
  | nil => exact ⟨_, rfl, .nil _⟩
  | @snoc t u acts a _ hstep ih =>
      obtain ⟨c, rfl, hrun⟩ := ih
      exact ⟨_, rfl, .snoc hrun (Option.map_eq_some_iff.mpr ⟨u, hstep, rfl⟩)⟩

/-- The datagram endpoint `d` is open, and its address is `a`: nobody closed it, and its
host did not crash. -/
def Holds (c : Census ρ) (d : Nat) (a : Addr) : Prop :=
  (∃ D, c.net.datagramTransports[d]? = some D ∧ D.loc = a ∧ D.closing = false) ∧ d ∉ c.swept

/-- Registered endpoints are open, and an endpoint whose address the program did not choose
has a port the counter is past. -/
structure Accounted (c : Census ρ) : Prop where
  registered : c.net.ledger.Registered
  gone : c.net.datagramRoll.Gone c.swept
  assigned : ∀ (d : Nat) (D : DatagramTransport), c.net.datagramTransports[d]? = some D →
    d ∉ c.chosen → D.loc.2 < c.net.nextPort

/-- A crash leaves none of its host's endpoints registered. -/
theorem gone_sweptBy {R : RandomSource ρ} {s s' : SimNetwork ρ} {a : Act}
    (hs : s.ledger.Registered) (hstep : SimNetwork.Step R s a s') :
    s'.datagramRoll.Gone (sweptBy s a) := by
  have hlength : s.datagramTransports.length ≤ s'.datagramTransports.length := by
    obtain ⟨-, new, hnew, -⟩ := hstep.grows
    have hlengths := congrArg List.length hnew
    simp only [bindings_ledger, List.length_map, List.length_append] at hlengths
    omega
  cases a
  case crash name waiting =>
    unfold sweptBy
    dsimp only
    split
    · rename_i hname
      refine ⟨fun a d hd hmem => ?_, fun d hd => ?_⟩
      · obtain ⟨D, hD, hon⟩ : ∃ D, s.datagramTransports[d]? = some D ∧ D.loc.1 = name := by
          have hon := (List.mem_filter.mp hmem).2
          cases hD : s.datagramTransports[d]? with
          | none => rw [hD] at hon; cases hon
          | some D =>
              rw [hD] at hon
              exact ⟨D, rfl, of_decide_eq_true hon⟩
        obtain ⟨D', hD', hloc⟩ := hstep.loc hD
        obtain ⟨E, hE, haddr, -⟩ := datagram_of_registered (hstep.registered hs) hd
        rw [hD'] at hE
        obtain rfl := Option.some.inj hE
        have hhost : a.1 = name := by
          rw [← haddr, hloc]
          exact hon
        have hfree : s'.datagrams.get? a = none := hstep.unbound hs ⟨hname, hhost⟩
        rw [show s'.datagrams.get? a = some d from hd] at hfree
        cases hfree
      · have hlt := List.mem_range.mp (List.mem_filter.mp hd).1
        simp only [datagramRoll, List.length_map]
        omega
    · exact ⟨fun _ _ _ => List.not_mem_nil, fun _ h => absurd h List.not_mem_nil⟩
  all_goals exact ⟨fun _ _ _ => List.not_mem_nil, fun _ h => absurd h List.not_mem_nil⟩

theorem Accounted.step {R : RandomSource ρ} {c c' : Census ρ} {a : Act} (hc : c.Accounted)
    (hstep : Step R c a c') : c'.Accounted := by
  obtain ⟨hnet, hswept, hchosen⟩ := hstep.eq
  have hgone : c'.net.datagramRoll.Gone c.swept := hnet.gone hc.gone
  refine ⟨hnet.registered hc.registered, ?_, fun d D hD hd => ?_⟩
  · have hnew := gone_sweptBy hc.registered hnet
    rw [hswept]
    refine ⟨fun b i hi hmem => ?_, fun i hi => ?_⟩
    · exact (List.mem_append.mp hmem).elim (hgone.absent b i hi) (hnew.absent b i hi)
    · exact (List.mem_append.mp hi).elim (hgone.enrolled i) (hnew.enrolled i)
  · rw [hchosen, List.mem_append, not_or] at hd
    obtain ⟨hle, new, hnew, hport⟩ : Grows a c.net.ledger c'.net.ledger := hnet.grows
    rw [bindings_ledger, bindings_ledger] at hnew
    have hloc : (c'.net.datagramTransports.map DatagramTransport.loc)[d]? = some D.loc := by
      rw [List.getElem?_map, hD, Option.map_some]
    rw [hnew] at hloc
    by_cases hlt : d < c.net.datagramTransports.length
    · rw [List.getElem?_append_left (by simpa only [List.length_map] using hlt)] at hloc
      obtain ⟨D₀, hD₀, hloc⟩ := Option.map_eq_some_iff.mp ((List.getElem?_map ..).symm.trans hloc)
      exact (hloc ▸ hc.assigned d D₀ hD₀ hd.1).trans_le hle
    · have hmem : D.loc ∈ new := by
        rw [List.getElem?_append_right (by simpa only [List.length_map, not_lt] using hlt)]
          at hloc
        exact List.mem_of_getElem? hloc
      cases hchooses : chooses a with
      | false => exact hport hchooses D.loc hmem
      | true =>
          have hbound := (List.getElem?_eq_some_iff.mp hD).1
          refine absurd ?_ hd.2
          rw [chosenBy, if_pos hchooses, List.mem_range'_1]
          omega

theorem accounted_of_run {R : RandomSource ρ} {seed : Int} {acts : List Act} {c : Census ρ}
    (run : Run (Step R) { net := init R seed } acts c) : c.Accounted := by
  refine run.invariant (fun _ _ _ hc hstep => hc.step hstep) ?_
  refine ⟨registered_init R seed, ⟨fun _ _ _ => List.not_mem_nil, fun _ h => by cases h⟩,
    fun d D hD => ?_⟩
  have hnone : (init R seed).datagramTransports = [] := rfl
  rw [hnone] at hD
  cases hD

/-! ## Automatic binds -/

/-- The remote address is absent, or its host is known. -/
def Resolvable (s : SimNetwork ρ) (remote : Option (String × Nat)) : Prop :=
  ∀ r ∈ remote, ∃ name, s.resolve r.1 = .ok name

theorem resolvable_none (s : SimNetwork ρ) : Resolvable s none :=
  fun r h => absurd h (Option.not_mem_none r)

/-- From `c` to `c'` a datagram endpoint was made on the current host: it is registered
under its address, its factory is called, and no other open endpoint has that address. -/
def Assigns (c c' : Census ρ) : Prop :=
  ∃ (d : Nat) (D : DatagramTransport), d = c.net.datagramTransports.length ∧
    c'.net.datagramTransports[d]? = some D ∧ D.loc.1 = c.net.current ∧
    c'.net.datagrams.get? D.loc = some d ∧ c'.net.signal = .run ∧
    c'.net.stack = .code :: .datagramFactory d :: c.net.stack ∧
    ∀ e, c'.Holds e D.loc → e = d

theorem openDatagramEndpoint_taken {s : SimNetwork ρ} (remote : Option (String × Nat))
    (htaken : s.datagrams.contains (s.current, s.nextPort) = true) :
    openDatagramEndpoint none remote s =
      ({ s with nextPort := s.nextPort + 1 } : SimNetwork ρ).throw (.error .osError
        s!"address {quoted s.current}:{s.nextPort} already in use") := by
  simp only [openDatagramEndpoint, ephemeral, htaken, if_true]

theorem openDatagramEndpoint_free {s : SimNetwork ρ} {remote : Option (String × Nat)}
    (hremote : Resolvable s remote)
    (hfree : s.datagrams.contains (s.current, s.nextPort) = false) :
    ∃ peer, openDatagramEndpoint none remote s = ({ s with
      nextPort := s.nextPort + 1
      datagramTransports := s.datagramTransports ++
        [{ loc := (s.current, s.nextPort), remote := peer, born := s.incarnation s.current }]
      datagrams := s.datagrams.insert (s.current, s.nextPort) s.datagramTransports.length } :
      SimNetwork ρ).call .factory [.datagramFactory s.datagramTransports.length] := by
  cases remote with
  | none =>
      refine ⟨none, ?_⟩
      simp only [openDatagramEndpoint, ephemeral, hfree, Bool.false_eq_true, if_false]
  | some r =>
      obtain ⟨name, hname⟩ := hremote r rfl
      refine ⟨some (name, r.2), ?_⟩
      have hname' : resolve { s with nextPort := s.nextPort + 1 } r.1 = .ok name := hname
      simp only [openDatagramEndpoint, ephemeral, hfree, Bool.false_eq_true, if_false, hname']

/-- An endpoint whose port the counter is not past has an address the program chose. -/
theorem Accounted.chosen_of_holds {c : Census ρ} (hc : c.Accounted) {d : Nat} {a : Addr}
    (hholds : c.Holds d a) (hport : c.net.nextPort ≤ a.2) : d ∈ c.chosen := by
  obtain ⟨⟨D, hD, rfl, -⟩, -⟩ := hholds
  by_contra hnot
  exact absurd (hc.assigned d D hD hnot) (not_lt.mpr hport)

/-- **Assigned addresses are free** exactly as long as no endpoint whose address the program
chose holds the one the counter has come to: what the counter itself handed out never comes
back, whatever was closed, crashed or connected in between. -/
theorem assigns_iff {R : RandomSource ρ} {seed : Int} {acts : List Act} {c c' : Census ρ}
    {remote : Option (String × Nat)} (run : Run (Step R) { net := init R seed } acts c)
    (hremote : Resolvable c.net remote)
    (hstep : Step R c (.openDatagramEndpoint none remote) c') :
    Assigns c c' ↔ ∀ d ∈ c.chosen, ¬ c.Holds d (c.net.current, c.net.nextPort) := by
  have hc : c.Accounted := accounted_of_run run
  obtain ⟨hnet, hswept, -⟩ := hstep.eq
  have hswept : c'.swept = c.swept := hswept.trans (List.append_nil _)
  have hopened : c'.net = openDatagramEndpoint none remote c.net := Step.opens hnet
  cases htaken : c.net.datagrams.contains (c.net.current, c.net.nextPort) with
  | true =>
      rw [openDatagramEndpoint_taken remote htaken] at hopened
      obtain ⟨d, hd⟩ := Option.isSome_iff_exists.mp htaken
      obtain ⟨D, hD, hloc, hopen⟩ := datagram_of_registered hc.registered hd
      have hholds : c.Holds d (c.net.current, c.net.nextPort) :=
        ⟨⟨D, hD, hloc, hopen⟩, hc.gone.absent _ d hd⟩
      refine iff_of_false ?_ fun h => h d (hc.chosen_of_holds hholds (le_refl _)) hholds
      rintro ⟨e, E, rfl, hE, -⟩
      rw [hopened] at hE
      have hlt := (List.getElem?_eq_some_iff.mp hE).1
      exact lt_irrefl _ hlt
  | false =>
      obtain ⟨peer, heq⟩ := openDatagramEndpoint_free hremote htaken
      rw [heq] at hopened
      have hlist : c'.net.datagramTransports = c.net.datagramTransports ++
          [{ loc := (c.net.current, c.net.nextPort), remote := peer,
             born := c.net.incarnation c.net.current }] := by
        rw [hopened]
        rfl
      have hlast := List.getElem?_concat_length (l := c.net.datagramTransports)
        (a := { loc := (c.net.current, c.net.nextPort), remote := peer,
                born := c.net.incarnation c.net.current })
      rw [← hlist] at hlast
      have hothers : ∀ {e}, e ≠ c.net.datagramTransports.length → ∀ b,
          c'.Holds e b ↔ c.Holds e b := by
        intro e he b
        have hsame : c'.net.datagramTransports[e]? = c.net.datagramTransports[e]? := by
          rw [hlist]
          rcases Nat.lt_or_gt_of_ne he with hlt | hgt
          · exact List.getElem?_append_left hlt
          · rw [List.getElem?_eq_none hgt.le]
            refine List.getElem?_eq_none ?_
            rw [List.length_append, List.length_singleton]
            exact hgt
        rw [Holds, Holds, hsame, hswept]
      constructor
      · rintro ⟨d, D, rfl, hD, -, -, -, -, honly⟩ e - hholds
        rw [hlast] at hD
        obtain rfl := Option.some.inj hD
        have hne : e ≠ c.net.datagramTransports.length := by
          obtain ⟨⟨E, hE, -⟩, -⟩ := hholds
          exact (List.getElem?_eq_some_iff.mp hE).1.ne
        exact hne (honly e ((hothers hne _).mpr hholds))
      · intro hnone
        refine ⟨_, _, rfl, hlast, rfl, ?_, ?_, ?_, fun e he => ?_⟩
        · rw [hopened]
          exact Dict.get?_insert_self _ _ _
        · rw [hopened]
          rfl
        · rw [hopened]
          rfl
        · by_contra hne
          have hholds := (hothers hne _).mp he
          exact hnone e (hc.chosen_of_holds hholds (le_refl _)) hholds

/-- The host `a` opens a datagram endpoint without a local address and closes it. -/
def boundOnce : List Act :=
  [.callback driver, .host "a", .tick, .ret {}, .tick, .callback "a",
    .openDatagramEndpoint none none, .ret {}, .tick, .ret {}, .tick, .closeDatagram 0, .tick]

theorem assigns_iff_boundOnce : ∃ c c' : Census Unit,
    boundOnce.foldlM (perform .least) { net := init .least 0 } = some c ∧
      c.net.isAlive c.net.current = true ∧
      Step .least c (.openDatagramEndpoint none none) c' ∧ Assigns c c' := by
  have hall : ((boundOnce.foldlM (perform .least) { net := init .least 0 }).bind fun c =>
      (c.perform .least (.openDatagramEndpoint none none)).map fun _ =>
        (c.net.isAlive c.net.current, c.chosen)) = some (true, []) := by
    decide +kernel
  obtain ⟨c, hc, hrest⟩ := Option.bind_eq_some_iff.mp hall
  obtain ⟨c', hstep, heq⟩ := Option.map_eq_some_iff.mp hrest
  obtain ⟨halive, hchosen⟩ := Prod.mk.inj heq
  refine ⟨c, c', hc, halive, hstep, ?_⟩
  refine (assigns_iff (Run.of_foldlM hc) (resolvable_none _) hstep).mpr ?_
  rw [hchosen]
  exact fun d hd => absurd hd List.not_mem_nil

/-- The host `a` opens a datagram endpoint at the first ephemeral port. -/
def boundAhead : List Act :=
  [.callback driver, .host "a", .tick, .ret {}, .tick, .callback "a",
    .openDatagramEndpoint (some (none, 49152)) none, .ret {}, .tick, .ret {}, .tick]

/-- The port the counter has come to is taken. -/
theorem not_assigns : ¬ ∀ (acts : List Act) (c c' : Census Unit)
    (remote : Option (String × Nat)), Run (Step .least) { net := init .least 0 } acts c → c.net.isAlive c.net.current = true →
      Resolvable c.net remote → Step .least c (.openDatagramEndpoint none remote) c' →
        Assigns c c' := by
  intro hall
  have hrun : ((boundAhead.foldlM (perform .least) { net := init .least 0 }).bind fun c =>
      (c.perform .least (.openDatagramEndpoint none none)).map fun c' =>
        (c.net.isAlive c.net.current, decide (c'.net.signal = .raised (.error .osError
          "address 'a':49152 already in use")))) = some (true, true) := by
    decide +kernel
  obtain ⟨c, hc, hrest⟩ := Option.bind_eq_some_iff.mp hrun
  obtain ⟨c', hstep, heq⟩ := Option.map_eq_some_iff.mp hrest
  obtain ⟨halive, hraised⟩ := Prod.mk.inj heq
  obtain ⟨d, D, -, -, -, -, hsignal, -⟩ :=
    hall boundAhead c c' none (Run.of_foldlM hc) halive (resolvable_none _) hstep
  rw [hsignal] at hraised
  cases hraised

end Census

end SimNetwork

end SimLoop.Net
