/-
  Net/Upgrade.lean --- `start_tls` (`upgrade` of `_tls.py`).

  An upgrade pauses the transport, gives it the TLS protocol and schedules two callbacks,
  `connection_made` of that protocol and `resume_reading` of the transport.  The loop may
  run the two in either order.  Of `SSLProtocol` the model has its callback interface, so
  the bytes that `_migrate_buffered` moves inside of it are left out.
-/
import SimLoop.Net.Switching

set_option autoImplicit false

namespace SimLoop.Net

open SimLoop.Foundation

variable {ρ : Type}

/-! ## Upgrades -/

/-- A callback that `upgrade` schedules, by the number of the upgrade. -/
inductive TlsHandle where
  | made (k : Nat)
  | resumed (k : Nat)
  deriving DecidableEq, Repr

def TlsHandle.number : TlsHandle → Nat
  | made k => k
  | resumed k => k

/-- A call of `upgrade` that got past its checks, and whether it still waits for the
handshake. -/
structure TlsUpgrade where
  transport : Nat
  host : HostName
  waiting : Bool := true
  deriving DecidableEq, Repr

/-- A network whose connections can be upgraded.  `fresh` is kept for the reader: the
transports whose protocol is that of an upgrade, with its number, and still waits for
`connection_made`. -/
structure TlsNetwork (ρ : Type) where
  net : SimNetwork ρ
  upgrades : List TlsUpgrade := []
  ready : List TlsHandle := []
  fresh : Dict Nat Nat := Dict.empty

/-- What the loop and the program can do. -/
inductive TlsAct where
  | net (a : SimNetwork.Act)
  | upgrade (t : Nat) (sslcontext : Option String)
  | resume (k : Nat) (thrown : Option Exc)
  | runReady (i : Nat)

namespace TlsNetwork

open SimNetwork

/-- `SSLProtocol` is a `BufferedProtocol`. -/
def sslProtocol : Protocol := ⟨true⟩

/-- `upgrade`, up to the point where it waits.  An `sslcontext` that is none is given by
its `repr`. -/
def upgrade (t : Nat) (sslcontext : Option String) (u : TlsNetwork ρ) : TlsNetwork ρ :=
  match sslcontext with
  | some text =>
    { u with net := u.net.throw (.error .typeError
        s!"sslcontext is expected to be an instance of ssl.SSLContext, got {text}") }
  | none =>
    let k := u.upgrades.length
    { net := (adopt t sslProtocol (pauseReading t u.net)).back
      upgrades := u.upgrades ++ [{ transport := t, host := u.net.current }]
      ready := u.ready ++ [.made k, .resumed k]
      fresh := u.fresh.insert t k }

section

variable (R : RandomSource ρ)

/-- `upgrade`, from the point where it has waited, with what the wait raised. -/
def resume (k : Nat) (x : TlsUpgrade) (thrown : Option Exc) (u : TlsNetwork ρ) : TlsNetwork ρ :=
  let u := { u with upgrades := u.upgrades.modify k fun x => { x with waiting := false } }
  match thrown with
  | none => { u with net := u.net.back }
  | some e =>
    { u with
      net := (close R x.transport u.net).throw e
      ready := u.ready.filter fun h => h.number ≠ k }

/-- A scheduled callback is run. -/
def runHandle (h : TlsHandle) (x : TlsUpgrade) (u : TlsNetwork ρ) : TlsNetwork ρ :=
  let s : SimNetwork ρ := { u.net with current := x.host }
  match h with
  | .made k =>
    { u with
      net := s.call (.connectionMade x.transport) []
      fresh := if u.fresh.get? x.transport = some k then u.fresh.erase x.transport else u.fresh }
  | .resumed _ => { u with net := resumeReading x.transport s }

/-- Who still waits for `connection_made` after an act of the network: `set_protocol` takes
the TLS protocol away again. -/
def stillFresh (fresh : Dict Nat Nat) : Act → Dict Nat Nat
  | .setProtocol t _ => fresh.erase t
  | _ => fresh

/-- The program is at work. -/
def atWork (u : TlsNetwork ρ) : Bool := u.net.signal = .run && u.net.stack.head? = some .code

/-- The loop is at work. -/
def atRest (u : TlsNetwork ρ) : Bool := u.net.signal = .run && u.net.stack = []

/-- One act, when it is that party's turn. -/
def perform (u : TlsNetwork ρ) : TlsAct → Option (TlsNetwork ρ)
  | .net a =>
    (SimNetwork.perform R u.net a).map fun s => { u with net := s, fresh := stillFresh u.fresh a }
  | .upgrade t sslcontext =>
    if u.atWork && u.net.exposed t then some (u.upgrade t sslcontext) else none
  | .resume k thrown =>
    match u.upgrades[k]? with
    | none => none
    | some x =>
      if u.atWork && x.waiting && x.host = u.net.current then some (resume R k x thrown u) else none
  | .runReady i =>
    match u.ready[i]? with
    | none => none
    | some h =>
      match u.upgrades[h.number]? with
      | none => none
      | some x =>
        if u.atRest then some (runHandle h x { u with ready := u.ready.eraseIdx i }) else none

/-- The machine. -/
def Step (u : TlsNetwork ρ) (a : TlsAct) (u' : TlsNetwork ρ) : Prop := perform R u a = some u'

/-- Acts in a row, each of which has to pass a check. -/
def performsWhile (check : TlsNetwork ρ → TlsAct → Bool) (u : TlsNetwork ρ) :
    List TlsAct → Option (TlsNetwork ρ)
  | [] => some u
  | a :: as => if check u a then (perform R u a).bind fun v => performsWhile check v as else none

theorem run_of_performsWhile {check : TlsNetwork ρ → TlsAct → Bool} {acts : List TlsAct}
    {u u' : TlsNetwork ρ} (h : performsWhile R check u acts = some u') :
    Run (restrict (Step R) fun u a => check u a) u acts u' := by
  induction acts generalizing u with
  | nil =>
      obtain rfl := Option.some.inj h
      exact .nil u
  | cons a acts ih =>
      unfold performsWhile at h
      split at h
      · rename_i hcheck
        obtain ⟨v, hstep, hrest⟩ := Option.bind_eq_some_iff.mp h
        exact (Run.snoc (.nil u) ⟨hstep, hcheck⟩).append (ih hrest)
      · cases h

end

/-- A new network, where nothing has been upgraded. -/
def init (R : RandomSource ρ) (seed : Int) : TlsNetwork ρ := { net := SimNetwork.init R seed }

end TlsNetwork

/-! ## Inbound data held back -/

/-- Calls that hand inbound data to the protocol of a transport, or its end. -/
def Call.hands (t : Nat) : Call → Bool
  | .getBuffer u _ => u = t
  | .bufferUpdated u _ => u = t
  | .dataReceived u _ => u = t
  | .eofReceived u => u = t
  | _ => false

/-- `_deliver` is in the midst of a packet for the transport, and bytes are left. -/
def Frame.feeds (t : Nat) : Frame → Bool
  | .getBuffer u _ => u = t
  | .bufferUpdated u view => u = t && view ≠ []
  | _ => false

theorem Frame.Aside.feeds {f : Frame} (h : f.Aside) (t : Nat) : f.feeds t = false := by
  cases f <;> first | rfl | exact h.elim

theorem Call.Aside.hands {x : Call} (h : x.Aside) (t : Nat) : x.hands t = false := by
  cases x <;> first | rfl | exact h.elim

namespace Switchboard

variable {A : Occasion → Prop} {w w' : Switchboard} {t : Nat} {l : List (HostName × Call)}

/-- Nothing reaches the protocol of the transport: it is paused or closed, and no packet is
in the midst of being handed over.  `l` are the calls that have handed data over so far. -/
structure Sealed (t : Nat) (l : List (HostName × Call)) (w : Switchboard) : Prop where
  shut : ∃ T, w.transports[t]? = some T ∧ (T.readPaused = true ∨ T.closed = true)
  idle : ∀ f ∈ w.stack, f.feeds t = false
  handed : w.calls.filter (fun x => x.2.hands t) = l

namespace Sealed

theorem shifted (hw : Sealed t l w) (htransports : w'.transports = w.transports)
    (hcalls : w'.calls = w.calls) (hstack : ∀ f ∈ w'.stack, f ∈ w.stack ∨ f.feeds t = false) :
    Sealed t l w' where
  shut := htransports ▸ hw.shut
  idle f hf := (hstack f hf).elim (hw.idle f) id
  handed := hcalls ▸ hw.handed

theorem still (hw : Sealed t l w) (htransports : w'.transports = w.transports)
    (hcalls : w'.calls = w.calls) (hstack : w'.stack = w.stack) : Sealed t l w' :=
  hw.shifted htransports hcalls fun _ hf => .inl (hstack ▸ hf)

theorem push (hw : Sealed t l w) {frames : List Frame} (h : ∀ f ∈ frames, f.feeds t = false) :
    Sealed t l (w.push frames) :=
  hw.shifted rfl rfl fun f hf => (List.mem_append.mp hf).symm.imp_right (h f)

theorem tail (hw : Sealed t l w) {f : Frame} {rest : List Frame} (hstack : w.stack = f :: rest) :
    Sealed t l { w with stack := rest } := by
  refine hw.shifted rfl rfl fun g hg => .inl ?_
  rw [hstack]
  exact List.mem_cons_of_mem _ hg

theorem call (hw : Sealed t l w) {x : Call} {frames : List Frame} (hx : x.hands t = false)
    (h : ∀ f ∈ frames, f.feeds t = false) : Sealed t l (w.call x frames) := by
  have hpushed : Sealed t l (w.push (.code :: frames)) := hw.push fun f hf => by
    rcases List.mem_cons.mp hf with rfl | hf
    · rfl
    · exact h f hf
  refine ⟨hpushed.shut, hpushed.idle, ?_⟩
  simp only [Switchboard.call, List.filter_append, hw.handed]
  rw [List.filter_cons_of_neg (by simp only [hx, Bool.false_eq_true, not_false_eq_true])]
  exact List.append_nil l

theorem modify (hw : Sealed t l w) (u : Nat) {f : StreamTransport → StreamTransport}
    (hf : ∀ T : StreamTransport, T.readPaused = true ∨ T.closed = true →
      (f T).readPaused = true ∨ (f T).closed = true) : Sealed t l (w.modify u f) := by
  obtain ⟨T, hT, hshut⟩ := hw.shut
  refine ⟨⟨if u = t then f T else T, ?_, ?_⟩, hw.idle, hw.handed⟩
  · simp only [Switchboard.modify, List.getElem?_modify, hT]
    rfl
  · split
    · exact hf T hshut
    · exact hshut

theorem modify_ne (hw : Sealed t l w) {u : Nat} (hu : u ≠ t)
    (f : StreamTransport → StreamTransport) : Sealed t l (w.modify u f) := by
  obtain ⟨T, hT, hshut⟩ := hw.shut
  exact ⟨⟨T, (List.getElem?_modify_ne f _ hu).trans hT, hshut⟩, hw.idle, hw.handed⟩

theorem attach (hw : Sealed t l w) (T : StreamTransport) : Sealed t l (w.attach T) := by
  obtain ⟨U, hU, hshut⟩ := hw.shut
  refine ⟨⟨U, ?_, hshut⟩, hw.idle, hw.handed⟩
  exact (List.getElem?_append_left (List.getElem?_eq_some_iff.mp hU).1).trans hU

theorem finish (hw : Sealed t l w) (u : Nat) (T : StreamTransport) (exc : Option Exc) :
    Sealed t l (w.finish u T exc) := by
  have hgone : Sealed t l { w.modify u .finished with streams := w.streams.erase T.key } :=
    (hw.modify u fun _ _ => .inr rfl).still rfl rfl rfl
  unfold Switchboard.finish
  cases T.protocol with
  | none => exact hgone
  | some _ => exact hgone.call rfl fun f hf => absurd hf List.not_mem_nil

/-- An open transport that reads is another one. -/
theorem ne (hw : Sealed t l w) {u : Nat} {T : StreamTransport} (hT : w.transports[u]? = some T)
    (hopen : T.closed = false) (hreading : T.readPaused = false) : u ≠ t := by
  rintro rfl
  obtain ⟨U, hU, hshut⟩ := hw.shut
  obtain rfl := Option.some.inj (hT.symm.trans hU)
  rw [hopen, hreading] at hshut
  exact hshut.elim Bool.false_ne_true Bool.false_ne_true

end Sealed

theorem Hand.sealed {u : Nat} {data : Bytes} (h : Hand u data w w') (hu : u ≠ t)
    (hw : Sealed t l w) : Sealed t l w' := by
  cases h with
  | unknown _ => exact hw
  | refused _ _ => exact hw
  | whole _ _ _ => exact hw.call (decide_eq_false hu) fun f hf => absurd hf List.not_mem_nil
  | parts _ _ =>
      refine hw.push fun f hf => ?_
      rw [List.mem_singleton.mp hf, Frame.feeds, decide_eq_false hu, Bool.false_and]

theorem Ending.sealed {u : Nat} (h : Ending u w w') (hw : Sealed t l w) : Sealed t l w' := by
  have hgone : Sealed t l (w.modify u .peerGone) := hw.modify u fun _ => id
  cases h with
  | unknown _ => exact hw
  | late _ _ => exact hgone
  | kept _ _ _ => exact hgone.modify u fun _ => id
  | refused _ _ _ _ => exact hgone
  | told hT hopen hreading _ =>
      refine hgone.call (decide_eq_false (hw.ne hT hopen hreading)) fun f hf => ?_
      rw [List.mem_singleton.mp hf]
      rfl

theorem Dispatched.sealed {p : Packet} (h : Dispatched p w w') (hw : Sealed t l w) :
    Sealed t l w' := by
  have hwaits : ∀ {f : Frame}, f.feeds t = false → ∀ g ∈ [f], g.feeds t = false :=
    fun hf g hg => by rwa [List.mem_singleton.mp hg]
  cases h with
  | ignored _ _ _ => exact hw
  | @heard _ born tr _ =>
      have hmade := hw.attach (.fresh p.conn p.target p.source born)
      have hposted : Sealed t l { w.attach _ with traffic := tr } := hmade.still rfl rfl rfl
      exact hposted.call rfl (hwaits rfl)
  | unheard _ _ => exact hw.still rfl rfl rfl
  | late _ _ _ _ => exact hw.still rfl rfl rfl
  | @accepted x _ _ _ _ born =>
      have hforgot : Sealed t l (w.forget p.conn) := hw.still rfl rfl rfl
      exact (hforgot.attach (.fresh p.conn x.loc x.remote born)).call rfl (hwaits rfl)
  | refused _ _ _ _ _ => exact hw.still rfl rfl rfl
  | @queued u _ _ _ _ _ _ => exact hw.modify u fun _ => id
  | @data u _ _ _ _ hT hopen hreading hhand =>
      have hpushed : Sealed t l (w.push [.consumed u p.payload.length]) :=
        hw.push (hwaits (f := .consumed u p.payload.length) rfl)
      exact hhand.sealed (hw.ne hT hopen hreading) hpushed
  | fin _ _ hending => exact hending.sealed hw
  | @rst u T _ _ _ _ exc =>
      have hgone : Sealed t l (w.modify u .peerGone) := hw.modify u fun _ => id
      exact hgone.finish u T exc
  | @rstLate u _ _ _ _ _ => exact hw.modify u fun _ => id

/-- Nothing but `resume_reading` opens it again. -/
theorem Move.sealed (h : Move A w w') (hA : ¬ A (.resumed t)) (hw : Sealed t l w) :
    Sealed t l w' := by
  have hwaits : ∀ {f : Frame}, f.feeds t = false → ∀ g ∈ [f], g.feeds t = false :=
    fun hf g hg => by rwa [List.mem_singleton.mp hg]
  have hstill : w'.transports = w.transports → w'.calls = w.calls → w'.stack = w.stack →
      Sealed t l w' := hw.still
  have hshut : ∀ {u : Nat} {T : StreamTransport} {f : StreamTransport → StreamTransport}
      {x : Option Call}, Meter A u T f x → ∀ U : StreamTransport,
        U.readPaused = true ∨ U.closed = true → (f U).readPaused = true ∨ (f U).closed = true := by
    intro u T f x hmeter U
    have hpaused : (f U).core.readPaused = U.core.readPaused := by rw [hmeter.core U]
    have hclosed : (f U).core.closed = U.core.closed := by rw [hmeter.core U]
    exact Or.imp hpaused.trans hclosed.trans
  cases h with
  | @sent u _ kind _ _ _ _ _ _ _ =>
      have hposted : Sealed t l (w.modify u (.posted kind)) := hw.modify u fun _ => id
      exact hposted.still rfl rfl rfl
  | landed _ _ _ _ _ =>
      refine hw.shifted rfl rfl fun f hf => (List.mem_append.mp hf).symm.imp_right fun hf => ?_
      simp only [List.mem_cons, List.not_mem_nil, or_false] at hf
      rcases hf with rfl | rfl <;> rfl
  | reached _ _ _ _ _ =>
      refine hw.shifted rfl rfl fun f hf => (List.mem_append.mp hf).symm.imp_right ?_
      exact hwaits rfl f
  | missed _ _ _ _ _ =>
      refine hw.shifted rfl rfl fun f hf => (List.mem_append.mp hf).symm.imp_right ?_
      exact hwaits rfl f
  | started _ _ => exact hw.shifted rfl rfl fun f hf => .inr (hwaits rfl f hf)
  | popped hstack _ => exact hw.tail hstack
  | unwound hstack _ => exact hw.tail hstack
  | starved hstack _ => exact hw.tail hstack
  | left hstack _ => exact (hw.tail hstack).still rfl rfl rfl
  | called hx hframes => exact hw.call (hx.hands t) fun f hf => (hframes f hf).feeds t
  | pushed hf => exact hw.push (hwaits (hf.feeds t))
  | crashing _ _ => exact hw.push (hwaits rfl)
  | @metered u _ f _ hmeter => exact hw.modify u (hshut hmeter)
  | @flowed u _ f x _ hmeter =>
      refine (hw.modify u (hshut hmeter)).call ?_ (hwaits rfl)
      rcases hmeter.calls with rfl | rfl <;> rfl
  | wrote _ =>
      refine ⟨hw.shut, hw.idle, ?_⟩
      rw [List.filter_append, hw.handed]
      exact List.append_nil l
  | @adopted u _ _ => exact hw.modify u fun _ => id
  | @shut u _ _ _ => exact hw.modify u fun _ => id
  | @finished u T _ _ exc _ => exact hw.finish u T exc
  | @paused u _ _ _ => exact hw.modify u fun _ _ => .inl rfl
  | @resumed u _ _ _ hu =>
      have hother : u ≠ t := fun h => hA (h ▸ hu)
      exact (hw.modify_ne hother _).push (hwaits rfl)
  | @next k _ q p _ _ _ hdispatch =>
      have htaken : Sealed t l (w.take k q) := hw.still rfl rfl rfl
      exact hdispatch.sealed htaken
  | @drained u _ _ chunk chunks _ _ hT hopen hreading _ hhand =>
      have hother := hw.ne hT hopen hreading
      refine hhand.sealed hother ((hw.modify_ne hother _).push ?_)
      exact hwaits rfl
  | @ended u _ _ _ hstack hT hopen hreading _ _ hending =>
      exact hending.sealed ((hw.tail hstack).modify_ne (hw.ne hT hopen hreading) _)
  | @fed u view _ hstack hview =>
      have hidle := hw.idle (.bufferUpdated u view) (hstack ▸ List.mem_cons_self)
      have hother : u ≠ t := by
        rintro rfl
        simp only [Frame.feeds, decide_true, Bool.true_and, decide_eq_false_iff_not] at hidle
        exact hidle hview
      exact (hw.tail hstack).call (decide_eq_false hother) (hwaits (decide_eq_false hother))
  | @roomed u view _ taken hstack =>
      have hidle := hw.idle (.getBuffer u view) (hstack ▸ List.mem_cons_self)
      have hother : u ≠ t := of_decide_eq_false hidle
      refine (hw.tail hstack).call (decide_eq_false hother) (hwaits ?_)
      rw [Frame.feeds, decide_eq_false hother, Bool.false_and]
  | @begunClient conn u _ protocol hstack =>
      have hbegun := (hw.tail hstack).modify u (f := .started protocol) fun _ => id
      exact hbegun.call rfl (hwaits rfl)
  | @begunServer u _ protocol hstack =>
      have hbegun := (hw.tail hstack).modify u (f := .started protocol) fun _ => id
      exact hbegun.call rfl fun f hf => absurd hf List.not_mem_nil
  | _ => exact hstill rfl rfl rfl

end Switchboard

namespace TlsNetwork

open SimNetwork Switchboard

variable {R : RandomSource ρ} {u u' : TlsNetwork ρ} {a : TlsAct}

/-! ## Before `connection_made` -/

/-- The calls that have handed data to the protocol of a transport so far. -/
def handed (u : TlsNetwork ρ) (t : Nat) : List (HostName × Call) :=
  u.net.calls.filter fun x => x.2.hands t

/-- The step hands no data to a TLS protocol that waits for its `connection_made`. -/
def Untouched (u u' : TlsNetwork ρ) : Prop :=
  ∀ t, u.fresh.contains t = true ∨ u'.fresh.contains t = true → u'.handed t = u.handed t

/-- An act that leaves the pause in force until `connection_made`: `resume_reading` comes
after it, and no upgrade falls into the midst of a packet. -/
def orderly (u : TlsNetwork ρ) : TlsAct → Bool
  | .net (.resumeReading t) => !u.fresh.contains t
  | .upgrade t none => u.net.stack.all fun f => !f.feeds t
  | .runReady i =>
    match u.ready[i]? with
    | some (.resumed k) => u.upgrades[k]?.all fun x => !u.fresh.contains x.transport
    | _ => true
  | _ => true

/-- Every protocol that waits for its `connection_made` is out of reach. -/
def Guarded (u : TlsNetwork ρ) : Prop :=
  ∀ t, u.fresh.contains t = true → Sealed t (u.handed t) u.net.board

theorem sealed_moves {A : Occasion → Prop} {t : Nat} {l : List (HostName × Call)}
    {w w' : Switchboard} (h : Moves A w w') (hA : ¬ A (.resumed t)) (hw : Sealed t l w) :
    Sealed t l w' :=
  h.invariant (I := Sealed t l) (fun _ _ hmove hw => hmove.sealed hA hw) hw

/-- A transport the program has got hold of has begun, paused or not. -/
theorem begun_of_exposed {t : Nat} (s : SimNetwork ρ) (hexposed : s.exposed t = true)
    (T : StreamTransport) (hT : (pauseReading t s).board.transports[t]? = some T) : T.begun = true := by
  cases hU : s.transports[t]? with
  | none => simp only [exposed, hU, Option.any_none, Bool.false_eq_true] at hexposed
  | some U =>
      have hbegun : U.begun = true := by simpa only [exposed, hU, Option.any_some] using hexposed
      simp only [pauseReading, hU] at hT
      split at hT
      · obtain rfl := Option.some.inj (hU.symm.trans hT)
        exact hbegun
      · simp only [SimNetwork.board, SimNetwork.setTransport, List.getElem?_modify_eq, hU] at hT
        obtain rfl := Option.some.inj hT
        exact hbegun

/-- What `upgrade` does to the network. -/
theorem upgrade_switches {t : Nat} (s : SimNetwork ρ) (hexposed : s.exposed t = true) :
    Moves (fun _ => False) s.board (adopt t sslProtocol (pauseReading t s)).back.board := by
  refine (pauseReading_switches s t).trans ?_
  exact (Move.adopted (pauseReading t s).board sslProtocol (begun_of_exposed s hexposed)).moves

/-- The pause of `upgrade` holds inbound data back. -/
theorem sealed_upgrade {t : Nat} (hexposed : u.net.exposed t = true)
    (hidle : ∀ f ∈ u.net.stack, f.feeds t = false) :
    Sealed t (u.handed t) (u.upgrade t none).net.board := by
  have hT : ∃ T, u.net.transports[t]? = some T := by
    cases hT : u.net.transports[t]? with
    | none =>
        rw [SimNetwork.exposed, hT] at hexposed
        cases hexposed
    | some T => exact ⟨T, rfl⟩
  obtain ⟨T, hT⟩ := hT
  have hpaused : Sealed t (u.handed t) (pauseReading t u.net).board := by
    simp only [pauseReading, hT]
    split
    · rename_i hshut
      exact ⟨⟨T, hT, hshut.symm⟩, hidle, rfl⟩
    · refine ⟨⟨{ T with readPaused := true }, ?_, .inl rfl⟩, hidle, rfl⟩
      simp only [SimNetwork.board, SimNetwork.setTransport, List.getElem?_modify_eq, hT]
      rfl
  exact (Move.adopted _ sslProtocol (begun_of_exposed u.net hexposed)).sealed
    (A := fun _ => False) id hpaused

/-- A step keeps what is out of reach out of reach. -/
theorem Step.sealed (hstep : Step R u a u') (horderly : orderly u a = true) (hu : u.Guarded)
    {t : Nat} (ht : u.fresh.contains t = true) : Sealed t (u.handed t) u'.net.board := by
  have hw := hu t ht
  have hnever : ∀ {w : Switchboard}, Moves (fun _ => False) u.net.board w →
      Sealed t (u.handed t) w := fun h => sealed_moves h id hw
  unfold Step at hstep
  cases a with
  | net a =>
      obtain ⟨s, hs, rfl⟩ := Option.map_eq_some_iff.mp hstep
      refine sealed_moves (step_switches R u.net hs) (fun hresumed => ?_) hw
      obtain rfl : a = .resumeReading t := hresumed
      rw [orderly, ht] at horderly
      cases horderly
  | upgrade r sslcontext =>
      simp only [perform] at hstep
      split at hstep
      · rename_i hat
        obtain rfl := Option.some.inj hstep
        cases sslcontext with
        | some text => exact hw
        | none => exact hnever (upgrade_switches u.net (Bool.and_eq_true_iff.mp hat).2)
      · cases hstep
  | resume k thrown =>
      simp only [perform] at hstep
      split at hstep
      · cases hstep
      · rename_i x _
        split at hstep
        · obtain rfl := Option.some.inj hstep
          cases thrown with
          | none => exact hw
          | some e => exact hnever (close_switches R u.net x.transport)
        · cases hstep
  | runReady i =>
      simp only [perform] at hstep
      split at hstep
      · cases hstep
      · rename_i h hh
        split at hstep
        · cases hstep
        · rename_i x hx
          split at hstep
          · obtain rfl := Option.some.inj hstep
            have hentered : Sealed t (u.handed t) { u.net with current := x.host }.board :=
              hw.still rfl rfl rfl
            cases h with
            | made k => exact hentered.call rfl fun f hf => absurd hf List.not_mem_nil
            | resumed k =>
                refine sealed_moves (A := (· = .resumed x.transport))
                  (resumeReading_switches _ rfl) (fun hresumed => ?_) hentered
                obtain rfl := Occasion.resumed.inj hresumed
                have hk : u.upgrades[k]? = some x := hx
                simp only [orderly, hh, hk, Option.all_some, ht, Bool.not_true] at horderly
                cases horderly
          · cases hstep

/-- A transport whose TLS protocol is new: it was so before the step, or the step is its
upgrade. -/
theorem Step.fresh (hstep : Step R u a u') {t : Nat} (ht : u'.fresh.contains t = true) :
    u.fresh.contains t = true ∨ a = .upgrade t none ∧ u.net.exposed t = true ∧
      u' = u.upgrade t none := by
  have herase : ∀ r, (u.fresh.erase r).contains t = true → u.fresh.contains t = true := by
    intro r h
    rw [Dict.contains, Dict.get?_erase] at h
    split at h
    · cases h
    · exact h
  unfold Step at hstep
  cases a with
  | net a =>
      obtain ⟨s, -, rfl⟩ := Option.map_eq_some_iff.mp hstep
      refine .inl ?_
      cases a with
      | setProtocol r _ => exact herase r ht
      | _ => exact ht
  | upgrade r sslcontext =>
      simp only [perform] at hstep
      split at hstep
      · rename_i hcheck
        obtain rfl := Option.some.inj hstep
        cases sslcontext with
        | some text => exact .inl ht
        | none =>
            by_cases hr : r = t
            · subst hr
              exact .inr ⟨rfl, (Bool.and_eq_true_iff.mp hcheck).2, rfl⟩
            · refine .inl ?_
              rwa [upgrade, Dict.contains, Dict.get?_insert_of_ne _ _ hr] at ht
      · cases hstep
  | resume k thrown =>
      simp only [perform] at hstep
      split at hstep
      · cases hstep
      · split at hstep
        · obtain rfl := Option.some.inj hstep
          cases thrown <;> exact .inl ht
        · cases hstep
  | runReady i =>
      simp only [perform] at hstep
      split at hstep
      · cases hstep
      · rename_i h _
        split at hstep
        · cases hstep
        · split at hstep
          · obtain rfl := Option.some.inj hstep
            refine .inl ?_
            cases h with
            | made k =>
                simp only [runHandle] at ht
                split at ht
                · exact herase _ ht
                · exact ht
            | resumed k => exact ht
          · cases hstep

theorem Step.guarded (hstep : Step R u a u') (horderly : orderly u a = true) (hu : u.Guarded) :
    u'.Guarded ∧ Untouched u u' := by
  have hsealed : ∀ t, u.fresh.contains t = true ∨ u'.fresh.contains t = true →
      Sealed t (u.handed t) u'.net.board := by
    intro t ht
    rcases ht.imp_right hstep.fresh with ht | ht | ⟨rfl, hexposed, rfl⟩
    · exact hstep.sealed horderly hu ht
    · exact hstep.sealed horderly hu ht
    · refine sealed_upgrade hexposed fun f hf => ?_
      have hidle := List.all_eq_true.mp horderly f hf
      rwa [Bool.not_eq_true'] at hidle
  refine ⟨fun t ht => ?_, fun t ht => (hsealed t ht).handed⟩
  have h := hsealed t (.inr ht)
  exact ⟨h.shut, h.idle, rfl⟩

/-- **As long as reading is resumed after `connection_made`, nothing reaches a TLS protocol
before it.** -/
theorem untouched_of_run {seed : Int} {acts : List TlsAct}
    (run : Run (restrict (Step R) fun u a => orderly u a = true) (init R seed) acts u)
    (hstep : Step R u a u') (horderly : orderly u a = true) : Untouched u u' := by
  have hguarded : u.Guarded := by
    refine run.invariant (I := Guarded) (fun _ _ _ hv hstep => ?_) fun t ht => ?_
    · exact (hstep.1.guarded hstep.2 hv).1
    · cases ht
  exact (hstep.guarded horderly hguarded).2

/-- A connection from the driver to itself, and a packet that arrives while the accepting
end is paused. -/
def backlogged : List TlsAct :=
  (([.callback driver, .startServer none 80, .tick, .openConnection driver 80, .tick, .ret {},
    .tick, .fire 0, .ret {}, .tick, .ret {}, .tick, .tick, .tick, .fire 0, .ret {}, .tick,
    .ret {}, .tick, .tick, .tick, .tick, .callback driver, .pauseReading 0, .tick,
    .write 1 [7], .tick, .ret {}, .tick, .fire 0, .tick, .tick, .tick, .callback driver] :
    List Act).map .net) ++
    [.upgrade 0 none, .net .tick, .net (.ret {}), .net .tick]

/-- The first of the two callbacks runs first. -/
theorem untouched_of_run_backlogged : ∃ u u' : TlsNetwork Unit,
    performsWhile .least orderly (init .least 0) backlogged = some u ∧
      Step .least u (.runReady 0) u' ∧ u.fresh.contains 0 = true ∧ Untouched u u' := by
  have hstate : ((performsWhile .least orderly (init .least 0) backlogged).bind fun u =>
      (perform .least u (.runReady 0)).map fun _ =>
        (u.fresh.contains 0, orderly u (.runReady 0))) = some (true, true) := by
    decide +kernel
  obtain ⟨u, hu, hrest⟩ := Option.bind_eq_some_iff.mp hstate
  obtain ⟨u', hstep, hrest⟩ := Option.map_eq_some_iff.mp hrest
  obtain ⟨hfresh, horderly⟩ := Prod.mk.inj hrest
  exact ⟨u, u', hu, hstep, hfresh, untouched_of_run (run_of_performsWhile _ hu) hstep horderly⟩

/-- The second one runs first, and the packet reaches a protocol that is not connected. -/
theorem not_untouched : ¬ ∀ (acts : List TlsAct) (u u' : TlsNetwork Unit) (a : TlsAct),
    Run (Step .least) (init .least 0) acts u → Step .least u a u' → Untouched u u' := by
  intro hall
  have hstate : ((performsWhile .least (fun _ _ => true) (init .least 0) backlogged).bind fun u =>
      (perform .least u (.runReady 1)).map fun u' =>
        (u.fresh.contains 0, (u.handed 0).length, (u'.handed 0).length)) = some (true, 0, 1) := by
    decide +kernel
  obtain ⟨u, hu, hrest⟩ := Option.bind_eq_some_iff.mp hstate
  obtain ⟨u', hstep, hrest⟩ := Option.map_eq_some_iff.mp hrest
  simp only [Prod.mk.injEq] at hrest
  obtain ⟨hfresh, hbefore, hafter⟩ := hrest
  have huntouched := hall _ u u' _ (run_of_performsWhile _ hu).of_restrict hstep 0 (.inl hfresh)
  rw [huntouched, hbefore] at hafter
  cases hafter

end TlsNetwork

end SimLoop.Net
