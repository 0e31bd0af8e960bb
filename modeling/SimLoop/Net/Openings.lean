/-
  Net/Openings.lean --- what becomes of an endpoint whose protocol cannot be made.

  The factory of a connect runs in the step that dispatches its accept, long after the
  pending entry is gone; that of a datagram endpoint runs after the address is taken.
  Neither place undoes anything when the factory or `connection_made` raises: the future
  of the connect is never failed, and the datagram endpoint keeps what it has.
-/
import SimLoop.Net.Addresses
import SimLoop.Net.Clients

set_option autoImplicit false

namespace SimLoop.Net

open SimLoop.Foundation

/-! ## Connects whose accept was dispatched -/

/-- The frame is the accept branch at work for this connect. -/
def Frame.Answers (f : Frame) (conn : Nat) : Prop :=
  ∃ t, f = .acceptFactory conn t ∨ f = .acceptMade conn t

theorem Frame.Aside.not_answers {f : Frame} (hf : f.Aside) (conn : Nat) : ¬ f.Answers conn := by
  rintro ⟨t, rfl | rfl⟩ <;> exact hf

namespace Switchboard

variable {A : Occasion → Prop} {w w' : Switchboard} {conn : Nat}

/-- The connect waits for no answer any more, and did not fail. -/
structure Deaf (w : Switchboard) (conn : Nat) : Prop where
  pending : w.pending.get? conn = none
  unfailed : ∃ x, w.connects[conn]? = some x ∧ ∀ e, x.fut ≠ .failed e

namespace Deaf

theorem of_eq (hw : w.Deaf conn) (hpending : w'.pending = w.pending)
    (hconnects : w'.connects = w.connects) : w'.Deaf conn :=
  ⟨hpending ▸ hw.pending, hconnects ▸ hw.unfailed⟩

theorem forget (hw : w.Deaf conn) (n : Nat) : (w.forget n).Deaf conn := by
  refine ⟨?_, hw.unfailed⟩
  simp only [Switchboard.forget, Dict.get?_erase]
  split
  · rfl
  · exact hw.pending

theorem connect (hw : w.Deaf conn) (n : Nat) {f : Connect → Connect}
    (hf : n = conn → ∀ x, (∀ e, x.fut ≠ .failed e) → ∀ e, (f x).fut ≠ .failed e) :
    (w.connect n f).Deaf conn := by
  obtain ⟨x, hx, hfut⟩ := hw.unfailed
  refine ⟨hw.pending, ?_⟩
  simp only [Switchboard.connect, List.getElem?_modify, hx]
  refine ⟨_, rfl, ?_⟩
  split
  · exact hf ‹_› x hfut
  · exact hfut

/-- Settling with anything but a failure. -/
theorem settle (hw : w.Deaf conn) (n : Nat) {fut : Fut} (hfut : ∀ e, fut ≠ .failed e) :
    (w.connect n (.settle fut)).Deaf conn := by
  refine hw.connect n fun _ x hx e => ?_
  unfold Connect.settle
  split
  · exact hfut e
  · exact hx e

theorem finish (hw : w.Deaf conn) (t : Nat) (T : StreamTransport) (exc : Option Exc) :
    (w.finish t T exc).Deaf conn := by
  refine hw.of_eq ?_ ?_ <;> (unfold Switchboard.finish; cases T.protocol <;> rfl)

theorem hand {t : Nat} {data : Bytes} (hw : w.Deaf conn) (h : Hand t data w w') :
    w'.Deaf conn := by
  cases h <;> exact hw.of_eq rfl rfl

theorem ending {t : Nat} (hw : w.Deaf conn) (h : Ending t w w') : w'.Deaf conn := by
  cases h <;> exact hw.of_eq rfl rfl

theorem dispatched {p : Packet} (hw : w.Deaf conn) (h : Dispatched p w w') : w'.Deaf conn := by
  cases h with
  | late _ _ _ _ => exact hw.forget p.conn
  | accepted _ _ _ _ _ => exact (hw.forget p.conn).of_eq rfl rfl
  | refused _ hpending _ _ e =>
      refine (hw.forget p.conn).connect p.conn fun hconn => ?_
      rw [hconn, hw.pending] at hpending
      cases hpending
  | @data t _ _ _ _ _ _ _ hhand =>
      have hpushed : (w.push [.consumed t p.payload.length]).Deaf conn := hw.of_eq rfl rfl
      exact hpushed.hand hhand
  | fin _ _ hending => exact hw.ending hending
  | @rst t T _ _ _ _ exc =>
      have hgone : (w.modify t .peerGone).Deaf conn := hw.of_eq rfl rfl
      exact hgone.finish t T exc
  | _ => exact hw.of_eq rfl rfl

/-- Once deaf, always deaf. -/
theorem move (hw : w.Deaf conn) (h : Move A w w') : w'.Deaf conn := by
  cases h with
  | finished _ _ exc _ => exact hw.finish _ _ exc
  | @next k _ q p _ _ _ hdispatch =>
      have htaken : (w.take k q).Deaf conn := hw.of_eq rfl rfl
      exact htaken.dispatched hdispatch
  | @drained t _ _ chunk chunks _ _ _ _ _ _ hhand =>
      have hpushed : ((w.modify t (.backlogged chunks)).push
          [.consumed t chunk.length]).Deaf conn := hw.of_eq rfl rfl
      exact hpushed.hand hhand
  | @ended t rest _ _ _ _ _ _ _ _ hending =>
      have hpopped : (({ w with stack := rest } : Switchboard).modify t (.ending false)).Deaf
          conn := hw.of_eq rfl rfl
      exact hpopped.ending hending
  | @opened x _ _ _ _ _ _ _ =>
      obtain ⟨y, hy, hfut⟩ := hw.unfailed
      have hlt := (List.getElem?_eq_some_iff.mp hy).1
      refine ⟨?_, y, ?_, hfut⟩
      · exact (Dict.get?_insert_of_ne _ _ (Nat.ne_of_gt hlt)).trans hw.pending
      · exact (List.getElem?_append_left hlt).trans hy
  | @cancelled n _ => exact hw.settle n fun e h => by cases h
  | @connected n t _ _ => exact hw.settle n fun e h => by cases h
  | @answered n _ _ _ => exact hw.connect n fun _ x hx => hx
  | @forgotten n _ _ _ => exact hw.forget n
  | _ => exact hw.of_eq rfl rfl

theorem moves (hw : w.Deaf conn) (h : Moves A w w') : w'.Deaf conn :=
  h.invariant (I := fun v => v.Deaf conn) (fun _ _ hmove hv => hv.move hmove) hw

end Deaf

/-- Every connect that the accept branch is at work for is deaf. -/
def Answering (w : Switchboard) : Prop := ∀ f ∈ w.stack, ∀ conn, f.Answers conn → w.Deaf conn

/-- A new frame of the accept branch replaces an old one, or its connect is deaf. -/
def Accountable (w w' : Switchboard) : Prop :=
  ∀ f ∈ w'.stack, ∀ conn, f.Answers conn →
    (∃ g ∈ w.stack, g.Answers conn) ∨ w'.Deaf conn

/-- Frames on top that belong to no accept branch. -/
theorem Accountable.of_stack {l : List Frame} (hframes : ∀ f ∈ l, ∀ n, ¬ f.Answers n)
    {r : List Frame} (hrest : ∀ f ∈ r, f ∈ w.stack) (hstack : w'.stack = l ++ r) :
    Accountable w w' := by
  intro f hf conn hanswers
  rw [hstack] at hf
  rcases List.mem_append.mp hf with hf | hf
  · exact absurd hanswers (hframes f hf conn)
  · exact .inl ⟨f, hrest f hf, hanswers⟩

theorem Accountable.of_eq (hstack : w'.stack = w.stack) : Accountable w w' :=
  .of_stack (l := []) (fun _ h => absurd h List.not_mem_nil) (fun _ h => h) hstack

theorem Accountable.trans_stack {v : Switchboard} (h : Accountable v w')
    {l : List Frame} (hframes : ∀ f ∈ l, ∀ n, ¬ f.Answers n) {r : List Frame}
    (hrest : ∀ f ∈ r, f ∈ w.stack) (hstack : v.stack = l ++ r) : Accountable w w' := by
  intro f hf conn hanswers
  rcases h f hf conn hanswers with ⟨g, hg, hanswers'⟩ | hdeaf
  · rw [hstack] at hg
    rcases List.mem_append.mp hg with hg | hg
    · exact absurd hanswers' (hframes g hg conn)
    · exact .inl ⟨g, hrest g hg, hanswers'⟩
  · exact .inr hdeaf

theorem Hand.accountable {t : Nat} {data : Bytes} (h : Hand t data w w') : Accountable w w' := by
  cases h with
  | unknown _ => exact .of_eq rfl
  | refused _ _ => exact .of_eq rfl
  | whole _ _ _ =>
      refine .of_stack (l := [.code]) (fun f hf n => ?_) (fun _ h => h) rfl
      rintro ⟨u, h | h⟩ <;> cases h.symm.trans (List.mem_singleton.mp hf)
  | parts _ _ =>
      refine .of_stack (l := [.bufferUpdated t data]) (fun f hf n => ?_) (fun _ h => h) rfl
      rintro ⟨u, h | h⟩ <;> cases h.symm.trans (List.mem_singleton.mp hf)

theorem Ending.accountable {t : Nat} (h : Ending t w w') : Accountable w w' := by
  cases h with
  | told _ _ _ _ =>
      refine .of_stack (l := [.code, .eofReceived t]) (fun f hf n => ?_) (fun _ h => h) rfl
      rintro ⟨u, rfl | rfl⟩ <;> simp at hf
  | _ => exact .of_eq rfl

theorem finish_accountable (t : Nat) (T : StreamTransport) (exc : Option Exc) :
    Accountable w (w.finish t T exc) := by
  unfold finish
  cases T.protocol with
  | none => exact .of_eq rfl
  | some _ =>
      refine .of_stack (l := [.code]) (fun f hf n => ?_) (fun _ h => h) rfl
      rintro ⟨u, rfl | rfl⟩ <;> simp at hf

theorem Dispatched.accountable {p : Packet} (h : Dispatched p w w') : Accountable w w' := by
  cases h with
  | heard _ _ _ =>
      refine .of_stack (l := [.code, .synFactory w.transports.length]) (fun f hf n => ?_)
        (fun _ h => h) rfl
      rintro ⟨u, rfl | rfl⟩ <;> simp at hf
  | @accepted x _ _ hx hfut _ =>
      -- the new frame is that of a connect whose entry was just taken out
      intro f hf conn hanswers
      obtain ⟨u, rfl | rfl⟩ := hanswers
      · rcases List.mem_cons.mp hf with h | hf
        · cases h
        · rcases List.mem_cons.mp hf with h | hf
          · obtain rfl : conn = p.conn := (Frame.acceptFactory.inj h).1
            refine .inr ⟨Dict.get?_erase_self _ _, x, hx, fun e h => ?_⟩
            rw [hfut] at h
            cases h
          · exact .inl ⟨_, hf, u, .inl rfl⟩
      · rcases List.mem_cons.mp hf with h | hf
        · cases h
        · rcases List.mem_cons.mp hf with h | hf
          · cases h
          · exact .inl ⟨_, hf, u, .inr rfl⟩
  | @data t _ _ _ _ _ _ _ hhand =>
      refine hhand.accountable.trans_stack (l := [.consumed t p.payload.length])
        (fun f hf n => ?_) (fun _ h => h) rfl
      rintro ⟨u, rfl | rfl⟩ <;> simp at hf
  | fin _ _ hending => exact hending.accountable
  | rst _ _ _ _ exc =>
      exact (finish_accountable _ _ exc).trans_stack (l := [])
        (fun _ h => absurd h List.not_mem_nil) (fun _ h => h) rfl
  | _ => exact .of_eq rfl

theorem Move.accountable (h : Move A w w') : Accountable w w' := by
  have hcode : ∀ f ∈ [Frame.code], ∀ n, ¬ f.Answers n := by
    intro f hf n
    rintro ⟨u, rfl | rfl⟩ <;> simp at hf
  have htail : ∀ {f : Frame} {rest : List Frame}, w.stack = f :: rest →
      ∀ g ∈ rest, g ∈ w.stack := fun hstack g hg => by
    rw [hstack]
    exact List.mem_cons_of_mem _ hg
  have hnone : ∀ f ∈ ([] : List Frame), ∀ n, ¬ f.Answers n :=
    fun _ h => absurd h List.not_mem_nil
  cases h with
  | @landed _ i f _ _ _ _ =>
      refine .of_stack (l := [.push f.packet.key, .deliver]) (fun g hg n => ?_)
        (fun _ h => h) rfl
      rintro ⟨u, rfl | rfl⟩ <;> simp at hg
  | reached _ _ _ _ _ =>
      refine .of_stack (l := [.deliver]) (fun g hg n => ?_) (fun _ h => h) rfl
      rintro ⟨u, rfl | rfl⟩ <;> simp at hg
  | missed _ _ _ _ _ =>
      refine .of_stack (l := [.deliver]) (fun g hg n => ?_) (fun _ h => h) rfl
      rintro ⟨u, rfl | rfl⟩ <;> simp at hg
  | started _ hstack =>
      exact .of_stack hcode (r := []) (fun _ h => absurd h List.not_mem_nil) rfl
  | popped hstack _ => exact .of_stack hnone (htail hstack) rfl
  | unwound hstack _ => exact .of_stack hnone (htail hstack) rfl
  | starved hstack _ => exact .of_stack hnone (htail hstack) rfl
  | left hstack _ => exact .of_stack hnone (htail hstack) rfl
  | @called x frames _ hframes =>
      refine .of_stack (l := .code :: frames) (fun f hf n => ?_) (fun _ h => h) rfl
      rcases List.mem_cons.mp hf with rfl | hf
      · exact hcode _ (List.mem_singleton.mpr rfl) n
      · exact (hframes f hf).not_answers n
  | flowed _ _ =>
      refine .of_stack (l := [.code, .flowCall]) (fun f hf n => ?_) (fun _ h => h) rfl
      rintro ⟨u, rfl | rfl⟩ <;> simp at hf
  | @pushed f hf =>
      refine .of_stack (l := [f]) (fun g hg n => ?_) (fun _ h => h) rfl
      rw [List.mem_singleton.mp hg]
      exact hf.not_answers n
  | @crashing name keys _ =>
      refine .of_stack (l := [.crash name keys]) (fun g hg n => ?_) (fun _ h => h) rfl
      rintro ⟨u, rfl | rfl⟩ <;> simp at hg
  | finished _ _ exc _ => exact finish_accountable _ _ exc
  | @resumed t _ _ _ _ =>
      refine .of_stack (l := [.drain t]) (fun g hg n => ?_) (fun _ h => h) rfl
      rintro ⟨u, rfl | rfl⟩ <;> simp at hg
  | next _ _ hdispatch =>
      exact hdispatch.accountable.trans_stack hnone (fun _ h => h) rfl
  | @drained t rest _ chunk _ _ hstack _ _ _ _ hhand =>
      refine hhand.accountable.trans_stack (l := [.consumed t chunk.length])
        (fun f hf n => ?_) (fun _ h => h) rfl
      rintro ⟨u, rfl | rfl⟩ <;> simp at hf
  | ended hstack _ _ _ _ _ hending =>
      exact hending.accountable.trans_stack hnone (htail hstack) rfl
  | @fed t view rest hstack _ =>
      refine .of_stack (l := [.code, .getBuffer t view]) (fun g hg n => ?_) (htail hstack) rfl
      rintro ⟨u, rfl | rfl⟩ <;> simp at hg
  | @roomed t view rest taken hstack =>
      refine .of_stack (l := [.code, .bufferUpdated t (view.drop taken)]) (fun g hg n => ?_)
        (htail hstack) rfl
      rintro ⟨u, rfl | rfl⟩ <;> simp at hg
  | @begunClient conn t rest _ hstack =>
      -- the frame that waits for the factory makes way for one of the same connect
      intro f hf n hanswers
      rcases List.mem_cons.mp hf with rfl | hf
      · exact absurd hanswers (hcode _ (List.mem_singleton.mpr rfl) n)
      · rcases List.mem_cons.mp hf with rfl | hf
        · obtain ⟨u, h | h⟩ := hanswers
          · cases h
          · refine .inl ⟨.acceptFactory conn t, ?_, t, .inl ?_⟩
            · rw [hstack]
              exact List.mem_cons_self
            · rw [(Frame.acceptMade.inj h).1]
        · exact .inl ⟨f, htail hstack f hf, hanswers⟩
  | begunServer _ hstack => exact .of_stack hcode (htail hstack) rfl
  | _ => exact .of_eq rfl

theorem Answering.move (hw : w.Answering) (h : Move A w w') : w'.Answering := by
  intro f hf conn hanswers
  rcases h.accountable f hf conn hanswers with ⟨g, hg, hanswers'⟩ | hdeaf
  · exact (hw g hg conn hanswers').move h
  · exact hdeaf

end Switchboard

variable {ρ : Type}

namespace SimNetwork

variable {R : RandomSource ρ}

theorem answering_of_run {seed : Int} {acts : List Act} {s : SimNetwork ρ}
    (run : Run (Step R) (init R seed) acts s) : s.board.Answering :=
  board_of_run (fun _ _ _ hmove hw => Switchboard.Answering.move hw hmove) run
    fun _ hf => absurd hf List.not_mem_nil

/-! ## Failures -/

/-- The call of `create_connection` can still end with this exception: some run leads to a
state in which its future has it. -/
def CanEndWith (R : RandomSource ρ) (s : SimNetwork ρ) (conn : Nat) (e : Exc) : Prop :=
  ∃ acts s', Run (Step R) s acts s' ∧ ∃ x, s'.connects[conn]? = some x ∧ x.fut = .failed e

/-- A failure of the protocol of a connect is contained: its caller gets the exception, and
nothing is left of the connect and of its transport. -/
structure StreamContained (R : RandomSource ρ) (s : SimNetwork ρ) (conn t : Nat) (e : Exc) :
    Prop where
  ends : CanEndWith R s conn e
  pending : s.pending.get? conn = none
  streams : ∀ k, s.streams.get? k ≠ some t

/-- The program builds the protocol of a datagram endpoint.  Its code called
`create_datagram_endpoint` in `s`, which called the factory in `s₁`; since then it has not
returned, and in `t` the code at work, with `frames` between it and the code that called, is
the factory or, when that has returned, `connection_made`. -/
structure Building (R : RandomSource ρ) (s s₁ : SimNetwork ρ) (during : List Act)
    (frames : List Frame) (t : SimNetwork ρ) : Prop where
  opening : ∃ loc remote, Step R s (.openDatagramEndpoint loc remote) s₁
  called : s₁.signal = .run
  run : Run (restrict (Step R) fun u _ => s.stack.length < u.stack.length) s₁ during t
  signal : t.signal = .run
  stack : t.stack = .code :: frames ++ s.stack
  frames : frames = [] ∨ frames = [.datagramFactory s.datagramTransports.length]

/-- A failure of the protocol of a datagram endpoint is contained: the exception reaches
who called `create_datagram_endpoint`, and no address is bound to the endpoint. -/
structure DatagramContained (s : SimNetwork ρ) (caller : List Frame) (d : Nat) (e : Exc) :
    Prop where
  signal : s.signal = .raised e
  stack : s.stack = caller
  datagrams : ∀ a, s.datagrams.get? a ≠ some d

section Datagrams

variable {s s₁ t : SimNetwork ρ} {during : List Act} {frames : List Frame}

/-- An exception leaves the protocol of a datagram endpoint, and the network with it. -/
theorem Building.raises (h : Building R s s₁ during frames t) (e : Exc) :
    ∃ t', Run (Step R) t (.raise e :: frames.map fun _ => .tick) t' ∧ t'.signal = .raised e ∧
      t'.stack = s.stack ∧ t'.datagrams = t.datagrams := by
  have hraise : Step R t (.raise e)
      (({ t with stack := frames ++ s.stack } : SimNetwork ρ).throw e) := by
    simp only [Step, perform, h.signal, h.stack, List.cons_append, codeAct]
  rcases h.frames with rfl | rfl
  · exact ⟨_, .snoc (.nil t) hraise, rfl, rfl, rfl⟩
  · refine ⟨({ t with stack := s.stack } : SimNetwork ρ).throw e,
      .snoc (.snoc (.nil t) hraise) ?_, rfl, rfl, rfl⟩
    rfl

/-- A call of `create_datagram_endpoint` that calls the factory has bound an address. -/
theorem Building.bound (h : Building R s s₁ during frames t) : ∃ D,
    s₁.datagramTransports[s.datagramTransports.length]? = some D ∧
      s₁.datagrams.get? D.loc = some s.datagramTransports.length := by
  obtain ⟨loc, remote, hstep⟩ := h.opening
  obtain ⟨u, hu, hcases⟩ := openDatagramEndpoint_cases s loc remote
  have hlength : u.datagramTransports.length = s.datagramTransports.length := by
    rw [hu]
    split <;> rfl
  have hcalled := h.called
  rcases hcases with ⟨e, heq⟩ | ⟨a, peer, -, -, -, heq⟩
  · rw [hstep.opens, heq] at hcalled
    cases hcalled
  · rw [hstep.opens, heq, ← hlength]
    exact ⟨_, List.getElem?_concat_length, Dict.get?_insert_self _ _ _⟩

/-- A bound endpoint is registered nowhere any more exactly when its address was taken away
since. -/
theorem unregistered_iff {acts : List Act} (run : Run (Step R) s acts t)
    (hs : s.ledger.Registered) {d : Nat} {D : DatagramTransport}
    (hD : s.datagramTransports[d]? = some D) (hbound : s.datagrams.get? D.loc = some d) :
    (∀ a, t.datagrams.get? a ≠ some d) ↔
      Sometime (Step R) (fun u act => Unbinds u act D.loc) s acts t := by
  constructor
  · intro hnowhere
    rcases run.restrict_or_sometime fun u act => Unbinds u act D.loc with hkept | htaken
    · have hstill := hkept.invariant (I := fun u => u.datagrams.get? D.loc = some d)
        (fun u act v hu hstep => hstep.1.bound hstep.2 hu) hbound
      exact absurd hstill (hnowhere D.loc)
    · exact htaken
  · rintro ⟨left, hstep, htaken, right⟩
    rename_i u v before after act
    obtain ⟨hu, D', hD', hloc⟩ := left.invariant
      (I := fun u => u.ledger.Registered ∧
        ∃ D', u.datagramTransports[d]? = some D' ∧ D'.loc = D.loc)
      (fun u act v ⟨hu, D', hD', hloc⟩ hstep => by
        obtain ⟨E, hE, hsame⟩ := hstep.loc hD'
        exact ⟨hstep.registered hu, E, hE, hsame.trans hloc⟩) ⟨hs, D, hD, rfl⟩
    obtain ⟨E, hE, hsame⟩ := hstep.loc hD'
    have hfree : v.datagrams.get? E.loc ≠ some d := by
      rw [hsame, hloc, hstep.unbound hu htaken]
      exact fun h => by cases h
    have hgone := right.invariant (I := fun u => u.datagramRoll.Gone [d])
      (fun _ _ _ hu hstep => hstep.gone hu) (gone_of_unbound (hstep.registered hu) hE hfree)
    exact fun a ha => hgone.absent a d ha (List.mem_singleton.mpr rfl)

end Datagrams

/-- **A failure to build the protocol is contained** never for a connect, and for a
datagram endpoint exactly when its address was taken away between the call and the failure:
the program closed an open endpoint of that address, or its host crashed. -/
theorem failures_contained_iff {seed : Int} {acts : List Act} {s : SimNetwork ρ}
    (run : Run (Step R) (init R seed) acts s) :
    (∀ (conn t : Nat) (e : Exc) (f : Frame) (rest : List Frame) (s' : SimNetwork ρ),
      s.signal = .raised e → s.stack = f :: rest →
      (f = .acceptFactory conn t ∨ f = .acceptMade conn t) → Step R s .tick s' →
        ¬ StreamContained R s' conn t e) ∧
    ∀ (s₁ t : SimNetwork ρ) (during : List Act) (frames : List Frame) (e : Exc),
      Building R s s₁ during frames t →
      ∃ (D : DatagramTransport) (t' : SimNetwork ρ),
        s₁.datagramTransports[s.datagramTransports.length]? = some D ∧
        Run (Step R) t (.raise e :: frames.map fun _ => .tick) t' ∧
        (DatagramContained t' s.stack s.datagramTransports.length e ↔
          Sometime (Step R) (fun u act => Unbinds u act D.loc) s₁ during t) := by
  refine ⟨fun conn t e f rest s' _ hstack hf hstep hcontained => ?_,
    fun s₁ t during frames e hbuilding => ?_⟩
  · -- the connect is deaf, now and in every state to come
    have hdeaf : s.board.Deaf conn := by
      refine answering_of_run run f ?_ conn ⟨t, hf⟩
      show f ∈ s.stack
      rw [hstack]
      exact List.mem_cons_self
    obtain ⟨later, u, hlater, x, hx, hfailed⟩ := hcontained.ends
    have hdeaf' : u.board.Deaf conn :=
      board_of_run (I := fun w => w.Deaf conn) (fun _ _ _ hmove hw => hw.move hmove) hlater
        (hdeaf.moves (step_switches R s hstep))
    obtain ⟨y, hy, hunfailed⟩ := hdeaf'.unfailed
    obtain rfl := Option.some.inj (hx.symm.trans hy)
    exact hunfailed e hfailed
  · obtain ⟨D, hD, hbound⟩ := hbuilding.bound
    obtain ⟨t', hrun, hsignal, hstack, hdatagrams⟩ := hbuilding.raises e
    obtain ⟨loc, remote, hstep⟩ := hbuilding.opening
    have hiff := unregistered_iff hbuilding.run.of_restrict
      (hstep.registered (registered_of_run run)) hD hbound
    refine ⟨D, t', hD, hrun, fun h => hiff.mp (hdatagrams ▸ h.datagrams),
      fun h => ⟨hsignal, hstack, ?_⟩⟩
    rw [hdatagrams]
    exact hiff.mpr h

/-- A connection to a server of the same host, up to the factory of the client. -/
def clientFactory : List Act :=
  [.callback driver, .startServer none 80, .tick, .openConnection driver 80, .tick, .ret {}, .tick,
    .fire 0, .ret {}, .tick, .ret {}, .tick, .tick, .tick, .fire 0, .raise .user]

/-- A datagram endpoint at a port the program chose. -/
def opensDatagram : Act := .openDatagramEndpoint (some (none, 53)) none

/-- The factory of a datagram endpoint returns, and `connection_made` closes the endpoint. -/
def closesItself : List Act := [.ret {}, .tick, .closeDatagram 0, .tick]

theorem failures_contained_iff_clientFactory :
    (∃ s s' : SimNetwork Unit, performs .least (init .least 0) clientFactory = some s ∧
      Step .least s .tick s' ∧ ¬ StreamContained .least s' 0 1 .user) ∧
    ∃ s s₁ t t' : SimNetwork Unit, Building .least s s₁ closesItself [] t ∧
      Run (Step .least) t [.raise .user] t' ∧ DatagramContained t' s.stack 0 .user := by
  refine ⟨?_, ?_⟩
  · have hstate : (performs .least (init .least 0) clientFactory).map
        (fun s => (s.signal, s.stack)) =
        some (.raised .user, [.acceptFactory 0 1, .push (0, (driver, 49152)), .deliver]) := by
      decide +kernel
    obtain ⟨s, hs, hrest⟩ := Option.map_eq_some_iff.mp hstate
    obtain ⟨hsignal, hstack⟩ := Prod.mk.inj hrest
    have hstep : Step .least s .tick (turn .least s) := by
      simp only [Step, perform, hsignal, hstack]
    exact ⟨s, _, hs, hstep, (failures_contained_iff (run_of_performs _ hs)).1 0 1 .user _ _ _
      hsignal hstack (.inl rfl) hstep⟩
  · let deep : SimNetwork Unit → Act → Bool := fun u _ => decide (1 < u.stack.length)
    have hstate : (performs .least (init .least 0) [.callback driver]).bind (fun s =>
        (perform .least s opensDatagram).bind fun s₁ =>
        (performsWhile .least deep s₁ [.ret {}, .tick]).bind fun u =>
        (perform .least u (.closeDatagram 0)).bind fun v =>
        (performsWhile .least deep v [.tick]).map fun t => decide (s.stack = [.code] ∧
          s.datagramTransports = [] ∧ s₁.signal = .run ∧
          s₁.datagramTransports[0]?.map (·.loc) = some (driver, 53) ∧
          u.datagramTransports[0]?.map (·.entry) = some ⟨(driver, 53), 0, false⟩ ∧
          u.stack = [.code, .code] ∧ t.signal = .run ∧ t.stack = [.code, .code])) =
        some true := by
      decide +kernel
    obtain ⟨s, hs, hrest⟩ := Option.bind_eq_some_iff.mp hstate
    obtain ⟨s₁, hs₁, hrest⟩ := Option.bind_eq_some_iff.mp hrest
    obtain ⟨u, hu, hrest⟩ := Option.bind_eq_some_iff.mp hrest
    obtain ⟨v, hv, hrest⟩ := Option.bind_eq_some_iff.mp hrest
    obtain ⟨t, ht, hrest⟩ := Option.map_eq_some_iff.mp hrest
    obtain ⟨hstack, hnone, hcalled, hloc, hopen, hdeep, hsignal, hstack₁⟩ :=
      of_decide_eq_true hrest
    have hleft := run_of_performsWhile .least hu
    have hright := run_of_performsWhile .least ht
    have hbuilding : Building .least s s₁ closesItself [] t := by
      refine ⟨⟨_, _, hs₁⟩, hcalled, ?_, hsignal, ?_, .inl rfl⟩
      · refine Run.widen ?_ ((Run.snoc hleft ⟨hv, ?_⟩).append hright)
        · intro u _ hu
          rw [hstack]
          exact of_decide_eq_true hu
        · show decide (1 < u.stack.length) = true
          rw [hdeep]
          rfl
      · rw [hstack₁, hstack]
        rfl
    obtain ⟨D, t', hD, hrun, hiff⟩ :=
      (failures_contained_iff (run_of_performs _ hs)).2 s₁ t closesItself [] .user hbuilding
    rw [hnone] at hD hiff
    rw [show s₁.datagramTransports[0]? = some D from hD] at hloc
    obtain ⟨E, hE, hentry⟩ := Option.map_eq_some_iff.mp hopen
    refine ⟨s, s₁, t, t', hbuilding, hrun, hiff.mpr ?_⟩
    refine Sometime.intro hleft.of_restrict hv ⟨E, hE, ?_, ?_⟩ hright.of_restrict
    · exact (congrArg Entry.addr hentry).trans (Option.some.inj hloc).symm
    · exact congrArg Entry.closed hentry

/-- The factory of a client raises, and its transport stays registered; the factory of a
datagram endpoint raises, and its address stays bound. -/
theorem not_failures_contained :
    (¬ ∀ (acts : List Act) (s s' : SimNetwork Unit) (conn t : Nat) (rest : List Frame),
      Run (Step .least) (init .least 0) acts s → s.signal = .raised .user →
      s.stack = .acceptFactory conn t :: rest → Step .least s .tick s' →
        StreamContained .least s' conn t .user) ∧
    ¬ ∀ (acts : List Act) (s s₁ t t' : SimNetwork Unit) (during : List Act),
      Run (Step .least) (init .least 0) acts s →
      Building .least s s₁ during [.datagramFactory s.datagramTransports.length] t →
      Run (Step .least) t [.raise .user, .tick] t' →
        DatagramContained t' s.stack s.datagramTransports.length .user := by
  refine ⟨fun hall => ?_, fun hall => ?_⟩
  · have hstate : (performs .least (init .least 0) clientFactory).map (fun s =>
        (s.signal, s.stack, (turn .least s).streams.get? (0, (driver, 49152)))) =
        some (.raised .user, [.acceptFactory 0 1, .push (0, (driver, 49152)), .deliver],
          some 1) := by
      decide +kernel
    obtain ⟨s, hs, hrest⟩ := Option.map_eq_some_iff.mp hstate
    simp only [Prod.mk.injEq] at hrest
    obtain ⟨hsignal, hstack, hstream⟩ := hrest
    have hstep : Step .least s .tick (turn .least s) := by
      simp only [Step, perform, hsignal, hstack]
    exact (hall _ s _ 0 1 _ (run_of_performs _ hs) hsignal hstack hstep).streams _ hstream
  · have hstate : (performs .least (init .least 0) [.callback driver]).bind (fun s =>
        (perform .least s opensDatagram).bind fun s₁ =>
        (performs .least s₁ [.raise .user, .tick]).map fun t =>
          (s.stack, s.datagramTransports.length, s₁.signal, s₁.stack,
            t.datagrams.get? (driver, 53))) =
        some ([.code], 0, .run, [.code, .datagramFactory 0, .code], some 0) := by
      decide +kernel
    obtain ⟨s, hs, hrest⟩ := Option.bind_eq_some_iff.mp hstate
    obtain ⟨s₁, hs₁, hrest⟩ := Option.bind_eq_some_iff.mp hrest
    obtain ⟨t, ht, hrest⟩ := Option.map_eq_some_iff.mp hrest
    simp only [Prod.mk.injEq] at hrest
    obtain ⟨hstack, hlength, hsignal, hstack₁, hbound⟩ := hrest
    have hbuilding : Building .least s s₁ [] [.datagramFactory s.datagramTransports.length] s₁ := by
      refine ⟨⟨_, _, hs₁⟩, hsignal, .nil s₁, hsignal, ?_, .inr rfl⟩
      rw [hstack₁, hlength, hstack]
      rfl
    refine (hall _ s s₁ s₁ t [] (run_of_performs _ hs) hbuilding
      (run_of_performs _ ht)).datagrams (driver, 53) ?_
    rw [hlength]
    exact hbound

end SimNetwork

end SimLoop.Net
