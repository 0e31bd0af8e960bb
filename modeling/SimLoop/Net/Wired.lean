/-
  Net/Wired.lean --- every network is wired.

  The moves of a switchboard are moves of its wiring or leave it alone, so that in every
  reachable state each direction of a connection is one numbered sequence of packets, and
  no two transports ever had the same place.
-/
import SimLoop.Net.Switching
import SimLoop.Net.Wiring

set_option autoImplicit false

namespace SimLoop.Net

open SimLoop.Foundation

/-! ## What is on its way -/

namespace Traffic

/-- The packet is in flight or held. -/
def Aloft (w : Traffic) (p : Packet) : Prop := (∃ f ∈ w.inFlight, f.packet = p) ∨ p ∈ w.held

variable {w w' : Traffic} {time : ℚ} {p x : Packet}

theorem aloft_launch {due : ℚ} : (w.launch time due p).Aloft x ↔ w.Aloft x ∨ x = p := by
  simp only [Aloft, launch, note, List.mem_append, List.mem_singleton]
  constructor
  · rintro (⟨f, hf | rfl, rfl⟩ | hx)
    · exact .inl (.inl ⟨f, hf, rfl⟩)
    · exact .inr rfl
    · exact .inl (.inr hx)
  · rintro ((⟨f, hf, rfl⟩ | hx) | rfl)
    · exact .inl ⟨f, .inl hf, rfl⟩
    · exact .inr hx
    · exact .inl ⟨_, .inr rfl, rfl⟩

theorem aloft_park : (w.park time p).Aloft x ↔ w.Aloft x ∨ x = p := by
  simp only [Aloft, park, note, List.mem_append, List.mem_singleton, or_assoc]

@[simp] theorem aloft_note {verb : Verb} : (w.note time verb p).Aloft x ↔ w.Aloft x := Iff.rfl

@[simp] theorem aloft_stamp : (w.stamp p).Aloft x ↔ w.Aloft x := Iff.rfl

namespace Dispatch

theorem sent (h : Dispatch time p w w') : w'.sent = w.sent := by
  cases h <;> rfl

theorem of_aloft (h : Dispatch time p w w') (hx : w.Aloft x) : w'.Aloft x := by
  cases h with
  | launched due => exact aloft_launch.mpr (.inl hx)
  | parked _ => exact aloft_park.mpr (.inl hx)
  | dropped _ => exact hx
  | doubled _ due due' => exact aloft_launch.mpr (.inl (aloft_launch.mpr (.inl hx)))

theorem aloft (h : Dispatch time p w w') (hx : w'.Aloft x) : w.Aloft x ∨ x = p := by
  cases h with
  | launched due => exact aloft_launch.mp hx
  | parked _ => exact aloft_park.mp hx
  | dropped _ => exact .inl hx
  | doubled _ due due' => exact (aloft_launch.mp hx).elim aloft_launch.mp .inr

/-- A stream packet that was handed over is on its way. -/
theorem aloft_self (h : Dispatch time p w w') (hkind : p.kind ≠ .dgram) : w'.Aloft p := by
  cases h with
  | launched due => exact aloft_launch.mpr (.inr rfl)
  | parked _ => exact aloft_park.mpr (.inr rfl)
  | dropped h => exact absurd h hkind
  | doubled h _ _ => exact absurd h hkind

end Dispatch

namespace Posted

theorem sent (h : Posted p w w') : w'.sent = w.sent ++ [p] := by
  obtain ⟨-, time, h⟩ := h
  exact h.sent

theorem of_aloft (h : Posted p w w') (hx : w.Aloft x) : w'.Aloft x := by
  obtain ⟨-, time, h⟩ := h
  exact h.of_aloft hx

theorem aloft (h : Posted p w w') (hx : w'.Aloft x) : w.Aloft x ∨ x = p := by
  obtain ⟨-, time, h⟩ := h
  exact h.aloft hx

theorem aloft_self (h : Posted p w w') (hkind : p.kind ≠ .dgram) : w'.Aloft p := by
  obtain ⟨-, time, h⟩ := h
  exact h.aloft_self hkind

end Posted

namespace Released

theorem sent (h : Released w w') : w'.sent = w.sent := by
  obtain ⟨time, p, rest, hheld, h⟩ := h
  exact h.sent

theorem aloft (h : Released w w') (hx : w'.Aloft x) : w.Aloft x := by
  obtain ⟨time, p, rest, hheld, h⟩ := h
  rcases h.aloft hx with (hx | hx) | rfl
  · exact .inl hx
  · exact .inr (hheld ▸ List.mem_cons_of_mem _ hx)
  · exact .inr (hheld ▸ List.mem_cons_self)

theorem of_aloft (h : Released w w') (hkind : x.kind ≠ .dgram) (hx : w.Aloft x) : w'.Aloft x := by
  obtain ⟨time, p, rest, hheld, h⟩ := h
  rcases hx with hx | hx
  · exact h.of_aloft (.inl hx)
  · rw [hheld] at hx
    rcases List.mem_cons.mp hx with rfl | hx
    · exact h.aloft_self hkind
    · exact h.of_aloft (.inr hx)

end Released

theorem aloft_of_fire {i : Nat} (hx : (w.fire i p).Aloft x) : w.Aloft x := by
  rcases hx with ⟨f, hf, rfl⟩ | hx
  · exact .inl ⟨f, List.mem_of_mem_eraseIdx hf, rfl⟩
  · exact .inr hx

theorem fire_aloft {i : Nat} {f : Flight} (hi : w.inFlight[i]? = some f) (hx : w.Aloft x) :
    (w.fire i f.packet).Aloft x ∨ x = f.packet := by
  rcases hx with ⟨g, hg, rfl⟩ | hx
  · obtain ⟨j, hj⟩ := List.mem_iff_getElem?.mp hg
    cases hji : decide (j = i) with
    | true =>
        rw [of_decide_eq_true hji, hi] at hj
        exact .inr (congrArg Flight.packet (Option.some.inj hj)).symm
    | false =>
        refine .inl (.inl ⟨g, List.mem_eraseIdx_iff_getElem?.mpr ?_, rfl⟩)
        exact ⟨j, of_decide_eq_false hji, hj⟩
  · exact .inl (.inr hx)

/-- Whatever is on its way was made. -/
def Carried (w : Traffic) : Prop := ∀ p, w.Aloft p → p ∈ w.sent

namespace Carried

theorem posted (hw : w.Carried) (h : Posted p w w') : w'.Carried := by
  intro x hx
  rw [h.sent]
  rcases h.aloft hx with hx | rfl
  · exact List.mem_append_left _ (hw x hx)
  · exact List.mem_append_right _ (List.mem_singleton.mpr rfl)

theorem released (hw : w.Carried) (h : Released w w') : w'.Carried := by
  intro x hx
  rw [h.sent]
  exact hw x (h.aloft hx)

theorem fire (hw : w.Carried) (i : Nat) (p : Packet) : (w.fire i p).Carried :=
  fun x hx => hw x (aloft_of_fire hx)

theorem fired (hw : w.Carried) {i : Nat} {f : Flight} (hi : w.inFlight[i]? = some f) :
    f.packet ∈ w.sent :=
  hw _ (.inl ⟨f, List.mem_of_getElem? hi, rfl⟩)

theorem park (hw : w.Carried) (hp : p ∈ w.sent) : (w.park time p).Carried := by
  intro x hx
  rcases aloft_park.mp hx with hx | rfl
  · exact hw x hx
  · exact hp

theorem purge (hw : w.Carried) (name : HostName) : (w.purge time name).Carried := by
  intro x hx
  rcases hx with hx | hx
  · exact hw x (.inl hx)
  · exact hw x (.inr (List.mem_filter.mp hx).1)

end Carried

end Traffic

/-! ## The wiring of a switchboard -/

/-- From where to where a connect goes. -/
def Connect.route (x : Connect) : Route := (x.loc, x.remote)

@[simp] theorem Connect.route_settle (fut : Fut) (x : Connect) :
    (x.settle fut).route = x.route := by
  unfold Connect.settle
  split <;> rfl

namespace StreamTransport

/-- What the wiring keeps of a transport. -/
def tip (T : StreamTransport) : End := ⟨T.conn, T.loc, T.remote, T.outSeq, T.closed⟩

@[simp] theorem key_tip (T : StreamTransport) : T.tip.key = T.key := rfl

/-- A transport with the same core is at the same place. -/
theorem tip_of_core {T U : StreamTransport} (h : T.core = U.core) : T.tip = U.tip := by
  have htip := congrArg tip h
  exact htip

end StreamTransport

namespace Switchboard

variable {A : Occasion → Prop} {w w' : Switchboard}

/-- The wiring of a switchboard. -/
def wiring (w : Switchboard) : Wiring :=
  ⟨w.connects.map Connect.route, w.transports.map StreamTransport.tip, w.streams, w.inbound,
    w.traffic.sent⟩

theorem wiring_modify {t : Nat} {f : StreamTransport → StreamTransport}
    (hf : ∀ T, (f T).tip = T.tip) : (w.modify t f).wiring = w.wiring := by
  simp only [wiring, modify, map_modify_eq hf]

theorem wiring_connect {n : Nat} {f : Connect → Connect} (hf : ∀ x, (f x).route = x.route) :
    (w.connect n f).wiring = w.wiring := by
  simp only [wiring, connect, map_modify_eq hf]

theorem wiring_attach (w : Switchboard) (T : StreamTransport) :
    (w.attach T).wiring = w.wiring.attach T.tip := by
  simp only [wiring, attach, Wiring.attach, List.map_append, List.map_cons, List.map_nil,
    List.length_map]
  rfl

theorem ends_of_transports {t : Nat} {T : StreamTransport} (hT : w.transports[t]? = some T) :
    w.wiring.ends[t]? = some T.tip := by
  simp only [wiring, List.getElem?_map, hT, Option.map_some]

theorem routes_of_connects {n : Nat} {x : Connect} (hx : w.connects[n]? = some x) :
    w.wiring.routes[n]? = some x.route := by
  simp only [wiring, List.getElem?_map, hx, Option.map_some]

/-! ### Moves -/

theorem wiring_finish {t : Nat} {T : StreamTransport} (exc : Option Exc) :
    (w.finish t T exc).wiring =
      { w.wiring.modify t .shut with streams := w.wiring.streams.erase T.tip.key } := by
  have hends : (w.transports.modify t .finished).map StreamTransport.tip =
      (w.transports.map StreamTransport.tip).modify t .shut := by
    apply map_modify_of
    exact fun _ => rfl
  unfold finish
  cases T.protocol <;> simp only [wiring, modify, call, hends] <;> rfl

theorem Hand.wiring {t : Nat} {data : Bytes} (h : Hand t data w w') : w'.wiring = w.wiring := by
  cases h <;> rfl

theorem Ending.wiring {t : Nat} (h : Ending t w w') : w'.wiring = w.wiring := by
  have hgone : (w.modify t .peerGone).wiring = w.wiring := wiring_modify fun _ => rfl
  cases h with
  | unknown _ => rfl
  | late _ _ => exact hgone
  | kept _ _ _ =>
      refine (wiring_modify ?_).trans hgone
      exact fun _ => rfl
  | refused _ _ _ _ => exact hgone
  | told _ _ _ _ => exact hgone

/-- A packet that is dispatched leaves its queue, and the wiring makes what it asks for. -/
theorem Dispatched.wiring {k : Key} {q : InOrder} {p : Packet} (hready : w.Ready k q p)
    (h : Dispatched p (w.take k q) w') : Wiring.Moves w.wiring w'.wiring := by
  have htaken : Wiring.Moves w.wiring (w.take k q).wiring := .single (.taken w.wiring hready)
  have hsame : w'.wiring = (w.take k q).wiring → Wiring.Moves w.wiring w'.wiring :=
    fun heq => heq ▸ htaken
  cases h with
  | ignored _ _ _ => exact htaken
  | @heard hkind born tr hpost =>
      have hmove := Wiring.Move.heard w.wiring hready hkind w.traffic.nextUid
      refine .single (Eq.mp (congrArg (Wiring.Move w.wiring) ?_) hmove)
      have hattach := wiring_attach (w.take k q) (.fresh p.conn p.target p.source born)
      exact (congrArg (fun v => Wiring.post v _) hattach.symm).trans
        (congrArg (fun sent => ({ (((w.take k q).attach _).wiring) with sent := sent } : Wiring))
          hpost.sent.symm)
  | @unheard hkind tr hpost =>
      have hmove := Wiring.Move.unheard w.wiring hready hkind w.traffic.nextUid
      refine .single (Eq.mp (congrArg (Wiring.Move w.wiring) ?_) hmove)
      exact congrArg (fun sent => ({ (w.take k q).wiring with sent := sent } : Wiring))
        hpost.sent.symm
  | late _ _ _ _ => exact htaken
  | @accepted x hkind _ hx _ born =>
      have hmove := Wiring.Move.accepted w.wiring hready hkind (routes_of_connects hx)
      refine .single (Eq.mp (congrArg (Wiring.Move w.wiring) ?_) hmove)
      exact (wiring_attach ((w.take k q).forget p.conn) (.fresh p.conn x.loc x.remote born)).symm
  | refused _ _ _ _ e => exact hsame (wiring_connect (Connect.route_settle _))
  | queued _ _ _ _ _ =>
      refine hsame (wiring_modify ?_)
      exact fun _ => rfl
  | data _ _ _ _ _ hhand => exact hsame hhand.wiring
  | fin _ _ hending => exact hsame hending.wiring
  | @rst t T _ _ hT _ exc =>
      refine htaken.tail ?_
      rw [wiring_finish]
      have hgone : ((w.take k q).modify t .peerGone).wiring = (w.take k q).wiring :=
        wiring_modify fun _ => rfl
      rw [hgone]
      exact .closed _ (ends_of_transports (w := w.take k q) hT)
  | rstLate _ _ _ _ =>
      refine hsame (wiring_modify ?_)
      exact fun _ => rfl

/-- A move of a switchboard is a sequence of moves of its wiring. -/
theorem Move.wiring (hcarried : w.traffic.Carried) (h : Move A w w') :
    Wiring.Moves w.wiring w'.wiring := by
  have hsame : w'.wiring = w.wiring → Wiring.Moves w.wiring w'.wiring := fun heq => by
    rw [heq]
    exact .refl
  have hposted : ∀ {p : Packet} {tr : Traffic}, Traffic.Posted p w.traffic tr →
      ({ w.wiring with sent := tr.sent } : Wiring) = w.wiring.post p := fun hpost => by
    rw [hpost.sent]
    rfl
  cases h with
  | @datagram p tr hkind _ _ hpost =>
      have hmove := Wiring.Move.datagram w.wiring hkind
      rw [← hposted hpost] at hmove
      exact .single hmove
  | @sent t T kind payload tr hT hkind _ _ hpost =>
      have hends : (w.transports.modify t (.posted kind)).map StreamTransport.tip =
          (w.transports.map StreamTransport.tip).modify t .numbered := by
        apply map_modify_of
        exact fun _ => rfl
      have hmove := Wiring.Move.sent w.wiring (ends_of_transports hT)
        (p := T.packet kind payload w.traffic.nextUid) hkind rfl rfl rfl rfl
      refine .single (Eq.mp (congrArg (Wiring.Move w.wiring) ?_) hmove)
      simp only [Switchboard.wiring, modify, hends, hpost.sent]
      rfl
  | released hrelease =>
      exact hsame (congrArg (fun sent => ({ w.wiring with sent := sent } : Wiring)) hrelease.sent)
  | landed time hi hkind _ _ => exact .single (.arrived w.wiring (hcarried.fired hi) hkind)
  | metered _ hmeter =>
      exact hsame (wiring_modify fun U => StreamTransport.tip_of_core (hmeter.core U))
  | @flowed t _ f _ _ hmeter =>
      have heq : (w.modify t f).wiring = w.wiring :=
        wiring_modify fun U => StreamTransport.tip_of_core (hmeter.core U)
      exact hsame heq
  | adopted protocol _ =>
      refine hsame (wiring_modify ?_)
      exact fun _ => rfl
  | shut _ =>
      refine hsame (wiring_modify ?_)
      exact fun _ => rfl
  | finished hT _ exc _ =>
      rw [wiring_finish]
      exact .single (.closed _ (ends_of_transports hT))
  | paused _ _ =>
      refine hsame (wiring_modify ?_)
      exact fun _ => rfl
  | @resumed t _ _ _ _ =>
      have heq : (w.modify t (.reading false)).wiring = w.wiring := wiring_modify fun _ => rfl
      exact hsame heq
  | next _ hready hdispatch => exact hdispatch.wiring hready
  | @drained t _ _ _ chunks _ _ _ _ _ _ hhand =>
      have heq : (w.modify t (.backlogged chunks)).wiring = w.wiring := wiring_modify fun _ => rfl
      exact hsame (hhand.wiring.trans heq)
  | @ended t rest _ _ _ _ _ _ _ _ hending =>
      have heq : (({ w with stack := rest } : Switchboard).modify t (.ending false)).wiring =
          w.wiring := wiring_modify (w := { w with stack := rest }) fun _ => rfl
      exact hsame (hending.wiring.trans heq)
  | @opened x uid tr hfut hends _ _ hpost =>
      have hmove := Wiring.Move.opened w.wiring (r := x.route) (p := ⟨.syn, x.loc.1, x.remote.1,
        x.loc.2, x.remote.2, w.connects.length, 0, [], uid⟩) hends rfl
        (List.length_map _).symm ⟨rfl, rfl, rfl⟩
      refine .single (Eq.mp (congrArg (Wiring.Move w.wiring) ?_) hmove)
      rw [← hposted hpost]
      simp only [Switchboard.wiring, List.map_append, List.map_cons, List.map_nil]
  | cancelled _ => exact hsame (wiring_connect (Connect.route_settle _))
  | connected _ => exact hsame (wiring_connect (Connect.route_settle _))
  | answered _ _ =>
      refine hsame (wiring_connect ?_)
      exact fun _ => rfl
  | @begunClient _ t rest protocol _ =>
      have heq : (({ w with stack := rest } : Switchboard).modify t (.started protocol)).wiring =
          w.wiring := wiring_modify (w := { w with stack := rest }) fun _ => rfl
      exact hsame heq
  | @begunServer t rest protocol _ =>
      have heq : (({ w with stack := rest } : Switchboard).modify t (.started protocol)).wiring =
          w.wiring := wiring_modify (w := { w with stack := rest }) fun _ => rfl
      exact hsame heq
  | _ => exact hsame rfl

/-- Whatever is on its way stays a packet that was made. -/
theorem Dispatched.carried {p : Packet} (hw : w.traffic.Carried) (h : Dispatched p w w') :
    w'.traffic.Carried := by
  cases h with
  | heard _ _ hpost => exact hw.posted hpost
  | unheard _ hpost => exact hw.posted hpost
  | data _ _ _ _ _ hhand => cases hhand <;> exact hw
  | fin _ _ hending => cases hending <;> exact hw
  | @rst _ T _ _ _ _ exc =>
      unfold finish
      cases T.protocol <;> exact hw
  | _ => exact hw

theorem Move.carried (hw : w.traffic.Carried) (h : Move A w w') : w'.traffic.Carried := by
  cases h with
  | datagram _ _ _ hpost => exact hw.posted hpost
  | sent _ _ _ _ hpost => exact hw.posted hpost
  | released hrelease => exact hw.released hrelease
  | @lost _ i f _ _ _ => exact hw.fire i f.packet
  | @parked _ i f hi _ _ => exact (hw.fire i f.packet).park (hw.fired hi)
  | @dropped _ i f _ _ _ => exact hw.fire i f.packet
  | @landed _ i f _ _ _ _ => exact hw.fire i f.packet
  | @reached _ i f _ _ _ _ => exact hw.fire i f.packet
  | @missed _ i f _ _ _ _ => exact hw.fire i f.packet
  | purged _ _ => exact hw.purge _
  | @finished _ T _ _ exc _ =>
      unfold finish
      cases T.protocol <;> exact hw
  | next _ _ hdispatch =>
      refine hdispatch.carried ?_
      exact hw
  | drained _ _ _ _ _ hhand => cases hhand <;> exact hw
  | ended _ _ _ _ _ _ hending => cases hending <;> exact hw
  | opened _ _ _ _ hpost => exact hw.posted hpost
  | _ => exact hw

/-- A switchboard whose packets were all made, by whom they say, and whose connections are
wired. -/
structure Sound (w : Switchboard) : Prop where
  carried : w.traffic.Carried
  wired : w.wiring.Wired
  signed : w.wiring.Signed

theorem Sound.move (hw : w.Sound) (h : Move A w w') : w'.Sound :=
  ⟨h.carried hw.carried, hw.wired.moves (h.wiring hw.carried),
    hw.signed.moves (h.wiring hw.carried)⟩

end Switchboard

variable {ρ : Type}

namespace SimNetwork

/-- **Every reachable network is wired.** -/
theorem sound_of_run {R : RandomSource ρ} {seed : Int} {acts : List Act} {s : SimNetwork ρ}
    (run : Run (Step R) (init R seed) acts s) : s.board.Sound := by
  refine board_of_run (fun A w w' hmove hw => Switchboard.Sound.move hw hmove) run
    ⟨?_, .empty, fun p hp => ?_⟩
  · rintro p (⟨f, hf, -⟩ | hp)
    · cases hf
    · cases hp
  · cases hp

end SimNetwork

end SimLoop.Net
