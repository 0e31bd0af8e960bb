/-
  Net/Clients.lean --- whom a server disconnects.

  `close_clients` and `abort_clients` go by the local address of a transport.  They hit
  exactly what the server accepted as long as every open transport at its address was
  accepted by it; a client of an earlier server on the address, or a connection that
  leaves from a port the server listens on, is disconnected as well.
-/
import SimLoop.Net.Registry
import SimLoop.Net.Wired

set_option autoImplicit false

namespace SimLoop.Net

open SimLoop.Foundation

variable {ρ : Type}

/-! ## Addresses stay -/

/-- The objects that are there stay where they are. -/
def KeepsAddr {α : Type} (es fs : List (Entry α)) : Prop :=
  ∀ (i : Nat) (e : Entry α), es[i]? = some e → ∃ f : Entry α, fs[i]? = some f ∧ f.addr = e.addr

theorem KeepsAddr.refl {α : Type} (es : List (Entry α)) : KeepsAddr es es :=
  fun _ e he => ⟨e, he, rfl⟩

theorem KeepsAddr.trans {α : Type} {es fs gs : List (Entry α)} (h : KeepsAddr es fs)
    (h' : KeepsAddr fs gs) : KeepsAddr es gs := by
  intro i e he
  obtain ⟨f, hf, hfe⟩ := h i e he
  obtain ⟨g, hg, hgf⟩ := h' i f hf
  exact ⟨g, hg, hgf.trans hfe⟩

theorem KeepsAddr.of_move {α : Type} [DecidableEq α] {now : α → Nat} {r r' : Roll α}
    (hmove : Roll.Move now r r') : KeepsAddr r.entries r'.entries := by
  intro i e he
  cases hmove with
  | enrolled _ _ =>
      refine ⟨e, ?_, rfl⟩
      rw [Roll.enroll, List.getElem?_append_left (List.getElem?_eq_some_iff.mp he).1]
      exact he
  | retired j =>
      cases hj : r.entries[j]? with
      | none =>
          rw [Roll.retire, hj]
          exact ⟨e, he, rfl⟩
      | some f =>
          rw [Roll.retire_of_get? hj, List.getElem?_modify, he]
          refine ⟨_, rfl, ?_⟩
          split <;> rfl
  | removed a => exact ⟨e, he, rfl⟩

namespace Ledger

/-- Streams and servers stay where they are. -/
structure Keeps (g h : Ledger) : Prop where
  streams : KeepsAddr g.streams.entries h.streams.entries
  listeners : KeepsAddr g.listeners.entries h.listeners.entries

theorem Keeps.refl (g : Ledger) : Keeps g g := ⟨.refl _, .refl _⟩

theorem Keeps.trans {g h i : Ledger} (hgh : Keeps g h) (hhi : Keeps h i) : Keeps g i :=
  ⟨hgh.streams.trans hhi.streams, hgh.listeners.trans hhi.listeners⟩

theorem Keeps.of_move {A : Change → Prop} {g h : Ledger} (hmove : Move A g h) : Keeps g h := by
  cases hmove with
  | streams hmove => exact ⟨.of_move hmove, .refl _⟩
  | listeners hmove => exact ⟨.refl _, .of_move hmove⟩
  | _ => exact ⟨.refl _, .refl _⟩

end Ledger

namespace SimNetwork

variable {R : RandomSource ρ} {s s' : SimNetwork ρ}

theorem Step.keeps {a : Act} (hstep : Step R s a s') : s.ledger.Keeps s'.ledger := by
  rcases step_moves R s hstep with hmoves | ⟨name, -, hrestart⟩
  · exact hmoves.invariant (I := s.ledger.Keeps)
      (fun g h hmove hg => hg.trans (.of_move hmove)) (.refl _)
  · rw [hrestart]
    exact ⟨.refl _, .refl _⟩

theorem keeps_of_run {acts : List Act} (run : Run (Step R) s acts s') :
    s.ledger.Keeps s'.ledger :=
  run.invariant (I := fun u => s.ledger.Keeps u.ledger)
    (fun _ _ _ hu hstep => hu.trans (Step.keeps hstep)) (.refl _)

theorem key_of_keeps (h : s.ledger.Keeps s'.ledger) {t : Nat} {T : StreamTransport}
    (hT : s.transports[t]? = some T) : ∃ T', s'.transports[t]? = some T' ∧ T'.key = T.key := by
  obtain ⟨f, hf, haddr⟩ := h.streams t T.entry (by
    simp only [ledger, streamRoll, List.getElem?_map, hT, Option.map_some])
  obtain ⟨T', hT', rfl⟩ : ∃ T', s'.transports[t]? = some T' ∧ T'.entry = f := by
    simpa only [ledger, streamRoll, List.getElem?_map, Option.map_eq_some_iff] using hf
  exact ⟨T', hT', haddr⟩

theorem address_of_keeps (h : s.ledger.Keeps s'.ledger) {v : Nat} {V : Server}
    (hV : s.servers[v]? = some V) :
    ∃ V', s'.servers[v]? = some V' ∧ (V'.host, V'.port) = (V.host, V.port) := by
  obtain ⟨f, hf, haddr⟩ := h.listeners v V.entry (by
    simp only [ledger, listenerRoll, List.getElem?_map, hV, Option.map_some])
  obtain ⟨V', hV', rfl⟩ : ∃ V', s'.servers[v]? = some V' ∧ V'.entry = f := by
    simpa only [ledger, listenerRoll, List.getElem?_map, Option.map_eq_some_iff] using hf
  exact ⟨V', hV', haddr⟩

/-! ## Who accepted what -/

/-- The step is `_handle_syn` making the transport `t` for the listener `v`: its factory is
called, and `v` listens where the transport is. -/
def Accepts (s s' : SimNetwork ρ) (v t : Nat) : Prop :=
  t = s.transports.length ∧ (∃ rest, s'.stack = .code :: .synFactory t :: rest) ∧
    ∃ T, s'.transports[t]? = some T ∧ s.listeners.get? T.loc = some v

/-- The server `v` accepted the connection of the transport `t` in this run. -/
def AcceptedIn (R : RandomSource ρ) (s₀ : SimNetwork ρ) (acts : List Act) (s : SimNetwork ρ)
    (v t : Nat) : Prop :=
  ∃ as a bs s₁ s₂, acts = as ++ a :: bs ∧ Run (Step R) s₀ as s₁ ∧ Step R s₁ a s₂ ∧
    Accepts s₁ s₂ v t ∧ Run (Step R) s₂ bs s

/-- What a server accepted is at its address. -/
theorem AcceptedIn.loc {seed : Int} {acts : List Act} {v t : Nat}
    (h : AcceptedIn R (init R seed) acts s v t) {V : Server} (hV : s.servers[v]? = some V)
    {T : StreamTransport} (hT : s.transports[t]? = some T) : T.loc = (V.host, V.port) := by
  obtain ⟨as, a, bs, s₁, s₂, -, hbefore, hstep, ⟨-, -, U, hU, hlisten⟩, hafter⟩ := h
  obtain ⟨V₁, hV₁, haddr, -⟩ := server_of_registered (registered_of_run hbefore) hlisten
  obtain ⟨V₂, hV₂, haddr₂⟩ := address_of_keeps ((Step.keeps hstep).trans (keeps_of_run hafter)) hV₁
  obtain ⟨T', hT', hkey⟩ := key_of_keeps (keeps_of_run hafter) hU
  obtain rfl := Option.some.inj (hV.symm.trans hV₂)
  obtain rfl := Option.some.inj (hT.symm.trans hT')
  rw [haddr₂, haddr]
  exact congrArg Prod.snd hkey

/-! ## What closing touches -/

/-- A change of a transport that closes it, if it is not closed yet. -/
structure Closing (f : StreamTransport → StreamTransport) : Prop where
  closed : ∀ T, (f T).closed = T.closed
  closing : ∀ T, T.closed = false → (f T).closing = true
  outKey : ∀ T, (f T).outKey = T.outKey

/-- Closing one transport after the other closes these and touches no other. -/
theorem foldl_closing {g : SimNetwork ρ → Nat → SimNetwork ρ}
    (hg : ∀ u t, ∃ f, Closing f ∧ (g u t).transports = u.transports.modify t f) :
    ∀ (l : List Nat) (u : SimNetwork ρ) (t : Nat) (T : StreamTransport),
      u.transports[t]? = some T →
      (t ∉ l → (l.foldl g u).transports[t]? = some T) ∧
      ∃ T', (l.foldl g u).transports[t]? = some T' ∧ T'.closed = T.closed ∧
        T'.outKey = T.outKey ∧ (T.closed = false → t ∈ l ∨ T.closing = true → T'.closing = true)
  | [], u, t, T, hT =>
      ⟨fun _ => hT, T, hT, rfl, rfl, fun _ h => h.resolve_left List.not_mem_nil⟩
  | x :: l, u, t, T, hT => by
      obtain ⟨f, hf, htransports⟩ := hg u x
      have hnext : (g u x).transports[t]? = some (if x = t then f T else T) := by
        rw [htransports, List.getElem?_modify, hT]
        rfl
      obtain ⟨hother, T', hT', hclosed, hkey, hclosing⟩ :=
        foldl_closing hg l (g u x) t _ hnext
      rw [List.foldl_cons]
      refine ⟨fun hmem => ?_, T', hT', ?_, ?_, fun hopen hcause => ?_⟩
      · rw [List.mem_cons, not_or] at hmem
        rw [hother hmem.2, if_neg (Ne.symm hmem.1)]
      · rw [hclosed]
        split
        · exact hf.closed T
        · rfl
      · rw [hkey]
        split
        · exact hf.outKey T
        · rfl
      · split at hclosing
        · exact hclosing ((hf.closed T).trans hopen) (.inr (hf.closing T hopen))
        · rename_i hxt
          refine hclosing hopen (hcause.imp_left fun hmem => ?_)
          exact (List.mem_cons.mp hmem).resolve_left (Ne.symm hxt)

theorem transports_send (R : RandomSource ρ) (s : SimNetwork ρ) (t : Nat) (kind : PacketKind)
    (payload : Bytes) : (send R t kind payload s).transports = s.transports.modify t .numbered := by
  cases hT : s.transports[t]? with
  | none =>
      simp only [send, hT]
      exact (List.modify_eq_self (List.getElem?_eq_none_iff.mp hT)).symm
  | some T =>
      obtain ⟨tr, -, heq⟩ := board_send R s hT kind payload
      exact congrArg Switchboard.transports heq

/-- Closing what is closing already, or closed, changes nothing. -/
theorem transports_of_shut {t : Nat} (h : ∀ T, s.transports[t]? = some T →
    T.closing = true ∨ T.closed = true) : ∃ f, Closing f ∧ s.transports = s.transports.modify t f := by
  refine ⟨fun T => if T.closed then T else T.shut, ⟨fun T => ?_, fun T hopen => ?_, fun T => ?_⟩,
    List.ext_getElem? fun i => ?_⟩
  · split <;> rfl
  · rw [hopen]
    rfl
  · split <;> rfl
  · rw [List.getElem?_modify]
    cases hT : s.transports[i]? with
    | none => rfl
    | some T =>
        rw [Option.map_eq_map, Option.map_some]
        split
        · rename_i hti
          subst hti
          split
          · rfl
          · rename_i hclosed
            have hclosing := (h T hT).resolve_right hclosed
            rw [StreamTransport.shut, ← hclosing]
        · rfl

theorem transports_close (R : RandomSource ρ) (s : SimNetwork ρ) (t : Nat) :
    ∃ f, Closing f ∧ (close R t s).transports = s.transports.modify t f := by
  cases hT : s.transports[t]? with
  | none =>
      simp only [close, hT]
      exact transports_of_shut fun T h => by cases hT.symm.trans h
  | some T =>
      simp only [close, hT]
      split
      · rename_i hshut
        refine transports_of_shut fun U hU => ?_
        obtain rfl := Option.some.inj (hT.symm.trans hU)
        exact hshut
      · split
        · exact ⟨.shut, ⟨fun _ => rfl, fun _ _ => rfl, fun _ => rfl⟩, rfl⟩
        · refine ⟨fun T => ({ T.shut with eofSent := true } : StreamTransport).numbered,
            ⟨fun _ => rfl, fun _ _ => rfl, fun _ => rfl⟩, ?_⟩
          refine (transports_send R _ t .fin []).trans ?_
          simp only [setTransport, List.modify_modify_eq]
          rfl

theorem transports_forceClose (R : RandomSource ρ) (s : SimNetwork ρ) (t : Nat)
    (exc : Option Exc) :
    ∃ f, Closing f ∧ (forceClose R t exc s).transports = s.transports.modify t f := by
  cases hT : s.transports[t]? with
  | none =>
      simp only [forceClose, hT]
      exact transports_of_shut fun T h => by cases hT.symm.trans h
  | some T =>
      simp only [forceClose, hT]
      split
      · rename_i hclosed
        refine transports_of_shut fun U hU => ?_
        obtain rfl := Option.some.inj (hT.symm.trans hU)
        exact .inr hclosed
      · refine ⟨fun T => T.shut.numbered, ⟨fun _ => rfl, fun _ _ => rfl, fun _ => rfl⟩, ?_⟩
        refine (transports_send R _ t .rst []).trans ?_
        simp only [setTransport, List.modify_modify_eq]
        rfl

/-- An abort of an open transport sends a reset. -/
theorem sent_forceClose (R : RandomSource ρ) (s : SimNetwork ρ) (t : Nat) (exc : Option Exc) :
    ∃ l, (forceClose R t exc s).sent = s.sent ++ l ∧ ∀ T, s.transports[t]? = some T →
      T.closed = false → ∃ p ∈ l, p.kind = .rst ∧ p.key = T.outKey := by
  cases hT : s.transports[t]? with
  | none =>
      simp only [forceClose, hT]
      exact ⟨[], (List.append_nil _).symm, fun T h => by cases h⟩
  | some T =>
      simp only [forceClose, hT]
      split
      · rename_i hclosed
        refine ⟨[], (List.append_nil _).symm, fun U hU hopen => ?_⟩
        obtain rfl := Option.some.inj hU
        exact absurd hclosed (Bool.eq_false_iff.mp hopen)
      · have hshut : (s.setTransport t fun T => { T with closing := true }).transports[t]? =
            some T.shut := by
          simp only [setTransport, List.getElem?_modify_eq, hT]
          rfl
        obtain ⟨tr, htr, heq⟩ := board_send R _ hshut .rst []
        refine ⟨[_], (congrArg (fun w => w.traffic.sent) heq).trans htr.sent, fun U hU _ => ?_⟩
        obtain rfl := Option.some.inj hU
        exact ⟨_, List.mem_singleton.mpr rfl, rfl, rfl⟩

theorem sent_foldl_abort (R : RandomSource ρ) : ∀ (l : List Nat) (u : SimNetwork ρ),
    ∃ ps, (l.foldl (fun s t => abort R t s) u).sent = u.sent ++ ps ∧
      ∀ t ∈ l, ∀ T, u.transports[t]? = some T → T.closed = false →
        ∃ p ∈ ps, p.kind = .rst ∧ p.key = T.outKey
  | [], u => ⟨[], (List.append_nil _).symm, fun _ h => absurd h List.not_mem_nil⟩
  | x :: l, u => by
      obtain ⟨qs, hqs, hfirst⟩ := sent_forceClose R u x none
      obtain ⟨ps, hps, hrest⟩ := sent_foldl_abort R l (abort R x u)
      refine ⟨qs ++ ps, ?_, fun t ht T hT hopen => ?_⟩
      · rw [List.foldl_cons, hps, show (abort R x u).sent = _ from hqs, List.append_assoc]
      · rcases List.mem_cons.mp ht with rfl | ht
        · obtain ⟨p, hp, hreset⟩ := hfirst T hT hopen
          exact ⟨p, List.mem_append_left _ hp, hreset⟩
        · obtain ⟨f, hf, htransports⟩ := transports_forceClose R u x none
          have hnext : (abort R x u).transports[t]? = some (if x = t then f T else T) := by
            rw [abort, htransports, List.getElem?_modify, hT]
            rfl
          obtain ⟨p, hp, hkind, hkey⟩ := hrest t ht _ hnext (by
            split
            · exact (hf.closed T).trans hopen
            · exact hopen)
          refine ⟨p, List.mem_append_right _ hp, hkind, hkey.trans ?_⟩
          split
          · exact hf.outKey T
          · rfl

/-! ## Whom a server disconnects -/

/-- A transport that is neither closing nor closed. -/
def IsOpen (s : SimNetwork ρ) (t : Nat) (T : StreamTransport) : Prop :=
  s.transports[t]? = some T ∧ T.closing = false ∧ T.closed = false

/-- `close_clients` closes every open transport that the server accepted in this run, and
leaves every other open one untouched. -/
def ClosesOwn (R : RandomSource ρ) (s₀ : SimNetwork ρ) (acts : List Act) (s : SimNetwork ρ)
    (v : Nat) : Prop :=
  ∀ t T, s.IsOpen t T →
    (AcceptedIn R s₀ acts s v t →
      ∃ T', (closeClients R v s).transports[t]? = some T' ∧ T'.closing = true) ∧
    (¬ AcceptedIn R s₀ acts s v t → (closeClients R v s).transports[t]? = some T)

/-- The same for `abort_clients`, which resets them. -/
def ResetsOwn (R : RandomSource ρ) (s₀ : SimNetwork ρ) (acts : List Act) (s : SimNetwork ρ)
    (v : Nat) : Prop :=
  ∀ t T, s.IsOpen t T →
    (AcceptedIn R s₀ acts s v t →
      (∃ T', (abortClients R v s).transports[t]? = some T' ∧ T'.closing = true) ∧
        ∃ p ∈ (abortClients R v s).sent.drop s.sent.length, p.kind = .rst ∧ p.key = T.outKey) ∧
    (¬ AcceptedIn R s₀ acts s v t → (abortClients R v s).transports[t]? = some T)

/-- Every open transport at the address of a server was accepted by it. -/
def Exclusive (R : RandomSource ρ) (s₀ : SimNetwork ρ) (acts : List Act) (s : SimNetwork ρ)
    (v : Nat) (V : Server) : Prop :=
  ∀ t T, s.IsOpen t T → T.loc = (V.host, V.port) → AcceptedIn R s₀ acts s v t

/-- An open transport is among the clients of a server if and only if it is at its address. -/
theorem mem_clients_iff {seed : Int} {acts : List Act} (run : Run (Step R) (init R seed) acts s)
    {v : Nat} {V : Server} (hV : s.servers[v]? = some V) {t : Nat} {T : StreamTransport}
    (hT : s.IsOpen t T) : t ∈ s.clients v ↔ T.loc = (V.host, V.port) := by
  obtain ⟨hT, -, hopen⟩ := hT
  have hregistered : s.streams.get? T.key = some t :=
    (sound_of_run run).wired.registered t T.tip (s.board.ends_of_transports hT) hopen
  simp only [clients, hV, List.mem_filter, hT, decide_eq_true_eq, and_iff_right_iff_imp]
  exact fun _ => List.mem_map.mpr ⟨(T.key, t), Dict.mem_entries_iff.mpr hregistered, rfl⟩

/-- **A server disconnects its own clients and nobody else's** exactly when every open
transport at its address was accepted by it. -/
theorem clients_own_iff {seed : Int} {acts : List Act} (run : Run (Step R) (init R seed) acts s)
    {v : Nat} {V : Server} (hV : s.servers[v]? = some V) :
    (ClosesOwn R (init R seed) acts s v ↔ Exclusive R (init R seed) acts s v V) ∧
    (ResetsOwn R (init R seed) acts s v ↔ Exclusive R (init R seed) acts s v V) := by
  have hclose := foldl_closing (g := fun s t => close R t s) (transports_close R) (s.clients v) s
  have habort := foldl_closing (g := fun s t => abort R t s)
    (fun u t => transports_forceClose R u t none) (s.clients v) s
  obtain ⟨ps, hps, hreset⟩ := sent_foldl_abort R (s.clients v) s
  have hmem := fun t T hT => mem_clients_iff run hV (t := t) (T := T) hT
  -- an open transport that is hit is not what it was
  have hhit : ∀ {t T T'} {u : SimNetwork ρ}, s.IsOpen t T → u.transports[t]? = some T' →
      (T.closed = false → t ∈ s.clients v ∨ T.closing = true → T'.closing = true) →
      t ∈ s.clients v → u.transports[t]? ≠ some T := by
    intro t T T' u hT hT' hclosing ht heq
    obtain rfl := Option.some.inj (hT'.symm.trans heq)
    exact absurd (hclosing hT.2.2 (.inl ht)) (Bool.eq_false_iff.mp hT.2.1)
  refine ⟨⟨fun hown t T hT hloc => ?_, fun hall t T hT => ⟨fun hours => ?_, fun hother => ?_⟩⟩,
    ⟨fun hown t T hT hloc => ?_, fun hall t T hT => ⟨fun hours => ⟨?_, ?_⟩, fun hother => ?_⟩⟩⟩
  · by_contra hother
    obtain ⟨-, T', hT', -, -, hclosing⟩ := hclose t T hT.1
    exact hhit hT hT' hclosing ((hmem t T hT).mpr hloc) ((hown t T hT).2 hother)
  · obtain ⟨-, T', hT', -, -, hclosing⟩ := hclose t T hT.1
    exact ⟨T', hT', hclosing hT.2.2 (.inl ((hmem t T hT).mpr (hours.loc hV hT.1)))⟩
  · refine (hclose t T hT.1).1 fun ht => hother (hall t T hT ((hmem t T hT).mp ht))
  · by_contra hother
    obtain ⟨-, T', hT', -, -, hclosing⟩ := habort t T hT.1
    exact hhit hT hT' hclosing ((hmem t T hT).mpr hloc) ((hown t T hT).2 hother)
  · obtain ⟨-, T', hT', -, -, hclosing⟩ := habort t T hT.1
    exact ⟨T', hT', hclosing hT.2.2 (.inl ((hmem t T hT).mpr (hours.loc hV hT.1)))⟩
  · obtain ⟨p, hp, hrst⟩ := hreset t ((hmem t T hT).mpr (hours.loc hV hT.1)) T hT.1 hT.2.2
    refine ⟨p, ?_, hrst⟩
    rw [abortClients, hps, List.drop_left]
    exact hp
  · refine (habort t T hT.1).1 fun ht => hother (hall t T hT ((hmem t T hT).mp ht))

/-- A server on port 80 and one on port 49152; then a connection to the first is opened
from the driver, whose port is 49152. -/
def portMeets : List Act :=
  [.callback driver, .startServer none 80, .tick, .startServer none 49152, .tick,
    .openConnection driver 80, .tick, .ret {}, .tick,
    .fire 0, .ret {}, .tick, .ret {}, .tick, .tick, .tick,
    .fire 0, .ret {}, .tick, .ret {}, .tick, .tick, .tick, .tick]

theorem clients_own_iff_portMeets : ∃ (s : SimNetwork Unit) (V : Server),
    performs .least (init .least 0) portMeets = some s ∧ s.servers[0]? = some V ∧
      (ClosesOwn .least (init .least 0) portMeets s 0 ↔
        Exclusive .least (init .least 0) portMeets s 0 V) ∧
      (ResetsOwn .least (init .least 0) portMeets s 0 ↔
        Exclusive .least (init .least 0) portMeets s 0 V) := by
  have hserver : ((performs .least (init .least 0) portMeets).bind fun s =>
      s.servers[0]?.map (·.port)) = some 80 := by decide +kernel
  obtain ⟨s, hs, hV⟩ := Option.bind_eq_some_iff.mp hserver
  obtain ⟨V, hV, -⟩ := Option.map_eq_some_iff.mp hV
  exact ⟨s, V, hs, hV, clients_own_iff (run_of_performs _ hs) hV⟩

theorem performs_append (R : RandomSource ρ) (s : SimNetwork ρ) (as bs : List Act) :
    performs R s (as ++ bs) = (performs R s as).bind fun u => performs R u bs := by
  induction as generalizing s with
  | nil => rfl
  | cons a as ih =>
      simp only [performs, performsWhile, List.cons_append, if_true]
      cases perform R s a with
      | none => rfl
      | some u => exact ih u

theorem performs_of_run {acts : List Act} (run : Run (Step R) s acts s') :
    performs R s acts = some s' := by
  induction run with
  | nil => rfl
  | snoc _ hstep ih =>
      rw [performs_append, ih, Option.bind_some, performs, performsWhile,
        show perform R _ _ = _ from hstep]
      rfl

/-- The server on port 49152 accepted nothing, and its `close_clients` closes the
connection that leaves from its port. -/
theorem not_closesOwn : ¬ ∀ (acts : List Act) (s : SimNetwork Unit) (v : Nat) (V : Server),
    Run (Step .least) (init .least 0) acts s → s.servers[v]? = some V →
      ClosesOwn .least (init .least 0) acts s v := by
  intro hall
  have hstate : ((performs .least (init .least 0) portMeets).bind fun s =>
      s.servers[1]?.bind fun _ => s.transports[1]?.map fun T =>
        (T.closing, T.closed, (closeClients .least 1 s).transports[1]?.map (·.closing))) =
      some (false, false, some true) := by decide +kernel
  obtain ⟨s, hs, hrest⟩ := Option.bind_eq_some_iff.mp hstate
  obtain ⟨V, hV, hrest⟩ := Option.bind_eq_some_iff.mp hrest
  obtain ⟨T, hT, hflags⟩ := Option.map_eq_some_iff.mp hrest
  simp only [Prod.mk.injEq] at hflags
  obtain ⟨hclosing, hclosed, hclosed'⟩ := hflags
  -- the transport 1 is the one that the connecting side was handed
  have hnever : ∀ n < portMeets.length,
      ((performs .least (init .least 0) (portMeets.take (n + 1))).all fun s =>
        !(s.stack.contains (.synFactory 1))) = true := by decide +kernel
  have hother : ¬ AcceptedIn .least (init .least 0) portMeets s 1 1 := by
    rintro ⟨as, a, bs, s₁, s₂, hacts, hbefore, hstep, ⟨-, ⟨rest, hstack⟩, -⟩, -⟩
    have hlt : as.length < portMeets.length := by
      rw [hacts, List.length_append, List.length_cons]
      omega
    have htake : portMeets.take (as.length + 1) = as ++ [a] := by
      rw [hacts, List.append_cons]
      exact List.take_left' (by simp)
    have hrun := performs_of_run (hbefore.snoc hstep)
    have hfree := hnever as.length hlt
    rw [htake, hrun] at hfree
    simp [hstack] at hfree
  have huntouched := (hall portMeets s 1 V (run_of_performs _ hs) hV 1 T
    ⟨hT, hclosing, hclosed⟩).2 hother
  rw [huntouched] at hclosed'
  simp [hclosing] at hclosed'

end SimNetwork

end SimLoop.Net
