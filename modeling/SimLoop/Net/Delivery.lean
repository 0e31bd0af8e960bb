/-
  Net/Delivery.lean --- every transport of a network is an intake.

  The intake of a transport is read off the switchboard.  A move of the switchboard is a
  move of the intake or leaves it alone, as long as no exception takes a frame away that
  still has bytes in its hands.
-/
import SimLoop.Net.Sequence

set_option autoImplicit false

namespace SimLoop.Net

open SimLoop.Foundation

/-! ## The intake of a transport -/

/-- The receiving side of a transport. -/
def StreamTransport.ear (T : StreamTransport) : Ear :=
  ⟨T.closed, T.protocol.isSome, T.buffered, T.begun, T.readPaused, T.backlog, T.eofPending⟩

theorem StreamTransport.ear_of_core {T U : StreamTransport} (h : T.core = U.core) :
    T.ear = U.ear := by
  have hear := congrArg ear h
  exact hear

theorem StreamTransport.not_live {T : StreamTransport} (h : T.protocol = none) : ¬ T.ear.Live := by
  rintro ⟨-, hready⟩
  simp only [ear, h, Option.isSome_none, Bool.false_eq_true] at hready

/-- What the frame does for the transport `t`. -/
def Frame.duty (t : Nat) : Frame → Option Duty
  | .synFactory u => if u = t then some .opening else none
  | .acceptFactory _ u => if u = t then some .opening else none
  | .drain u => if u = t then some .draining else none
  | .getBuffer u view => if u = t then some (.feeding view) else none
  | .bufferUpdated u view => if u = t then some (.feeding view) else none
  | _ => none

/-- What the frames do for the transport `t`. -/
def duties (t : Nat) (stack : List Frame) : List Duty := stack.filterMap (Frame.duty t)

/-- The bytes that a call hands to the protocol of a transport. -/
def Call.bytesTo (t : Nat) : Call → Bytes
  | .dataReceived u data => if u = t then data else []
  | .bufferUpdated u data => if u = t then data else []
  | _ => []

/-- The call tells the protocol of a transport that nothing will follow. -/
def Call.endsTo (t : Nat) (x : Call) : Bool := decide (x = .eofReceived t)

/-- The bytes that the protocol of a transport was given. -/
def handedTo (t : Nat) (calls : List (HostName × Call)) : Bytes :=
  calls.flatMap fun x => x.2.bytesTo t

/-- How often the protocol of a transport was told that nothing will follow. -/
def eofsTo (t : Nat) (calls : List (HostName × Call)) : Nat :=
  calls.countP fun x => x.2.endsTo t

theorem duties_append (t : Nat) (l r : List Frame) :
    duties t (l ++ r) = duties t l ++ duties t r := List.filterMap_append

theorem duties_cons_none {t : Nat} {f : Frame} (h : f.duty t = none) (r : List Frame) :
    duties t (f :: r) = duties t r := List.filterMap_cons_none h

theorem duties_cons_some {t : Nat} {f : Frame} {d : Duty} (h : f.duty t = some d)
    (r : List Frame) : duties t (f :: r) = d :: duties t r := List.filterMap_cons_some h

theorem duties_eq_nil {t : Nat} {l : List Frame} (h : ∀ f ∈ l, f.duty t = none) :
    duties t l = [] := List.filterMap_eq_nil_iff.mpr h

theorem handedTo_concat (t : Nat) (calls : List (HostName × Call)) (x : HostName × Call) :
    handedTo t (calls ++ [x]) = handedTo t calls ++ x.2.bytesTo t := by
  simp only [handedTo, List.flatMap_append, List.flatMap_singleton]

theorem eofsTo_concat (t : Nat) (calls : List (HostName × Call)) (x : HostName × Call) :
    eofsTo t (calls ++ [x]) = eofsTo t calls + if x.2.endsTo t then 1 else 0 := by
  simp only [eofsTo, List.countP_append, List.countP_singleton]

theorem Frame.Aside.duty {f : Frame} (hf : f.Aside) (t : Nat) : f.duty t = none := by
  cases f <;> first | rfl | exact absurd hf id

theorem bytesTo_aside {x : Call} (hx : x.Aside) (t : Nat) : x.bytesTo t = [] := by
  cases x <;> first | rfl | exact absurd hx id

theorem endsTo_aside {x : Call} (hx : x.Aside) (t : Nat) : x.endsTo t = false := by
  cases x <;> first | rfl | exact absurd hx id

namespace Switchboard

variable {A : Occasion → Prop} {w w' : Switchboard} {t u : Nat} {T : StreamTransport}

/-- The intake of the transport `t`. -/
def intake (w : Switchboard) (t : Nat) : Intake where
  ear := w.transports[t]?.map StreamTransport.ear
  duties := duties t w.stack
  arrived := (w.transports[t]?.map fun T => w.wiring.taken T.key).getD []
  handed := handedTo t w.calls
  eofs := eofsTo t w.calls

theorem ear_intake (hT : w.transports[t]? = some T) : (w.intake t).ear = some T.ear := by
  simp only [intake, hT, Option.map_some]

theorem arrived_intake (hT : w.transports[t]? = some T) :
    (w.intake t).arrived = w.wiring.taken T.key := by
  simp only [intake, hT, Option.map_some, Option.getD_some]

theorem duties_intake {f : Frame} {rest : List Frame} {d : Duty} (hstack : w.stack = f :: rest)
    (hduty : f.duty t = some d) : (w.intake t).duties = d :: duties t rest := by
  show duties t w.stack = _
  rw [hstack, duties_cons_some hduty]

/-- Two switchboards that look the same to the transport. -/
theorem intake_eq
    (htransports : w'.transports[t]?.map (fun T => (T.ear, T.key)) =
      w.transports[t]?.map fun T => (T.ear, T.key))
    (hduties : duties t w'.stack = duties t w.stack)
    (htaken : ∀ T, w.transports[t]? = some T → w'.wiring.taken T.key = w.wiring.taken T.key)
    (hhanded : handedTo t w'.calls = handedTo t w.calls)
    (heofs : eofsTo t w'.calls = eofsTo t w.calls) : w'.intake t = w.intake t := by
  have hears := congrArg (Option.map Prod.fst) htransports
  have harrived := congrArg (Option.map fun x => w'.wiring.taken x.2) htransports
  simp only [Option.map_map] at hears harrived
  have hsame : (w.transports[t]?.map fun T => w'.wiring.taken T.key) =
      w.transports[t]?.map fun T => w.wiring.taken T.key :=
    Option.map_congr fun T hT => htaken T hT
  have hall := congrArg (Option.getD · []) (harrived.trans hsame)
  have hear : w'.transports[t]?.map StreamTransport.ear =
      w.transports[t]?.map StreamTransport.ear := hears
  simp only [intake, hduties, hhanded, heofs, hear]
  congr 1

theorem taken_of_same {k : Key} (hinbound : w'.inbound = w.inbound)
    (hsent : w'.traffic.sent = w.traffic.sent) : w'.wiring.taken k = w.wiring.taken k := by
  simp only [Wiring.taken, Wiring.on, Wiring.next, wiring, hinbound, hsent]

/-- A change of one transport at its place. -/
theorem intake_modify (hT : w.transports[t]? = some T) {f : StreamTransport → StreamTransport}
    (hf : (f T).key = T.key) : (w.modify t f).intake t = (w.intake t).hear (f T).ear := by
  have hget : (w.modify t f).transports[t]? = some (f T) := by
    simp only [modify, List.getElem?_modify_eq, hT]
    rfl
  have htaken : (w.modify t f).wiring.taken (f T).key = w.wiring.taken T.key := by
    rw [hf]
    rfl
  simp only [intake, Intake.hear, hget, hT, Option.map_some, Option.getD_some, htaken]
  rfl

/-- A change of a transport that it does not hear of itself, or of another one. -/
theorem intake_modify_of {f : StreamTransport → StreamTransport}
    (hf : ∀ T, w.transports[u]? = some T → (f T).key = T.key ∧ (u = t → (f T).ear = T.ear)) :
    (w.modify u f).intake t = w.intake t := by
  refine intake_eq ?_ rfl (fun _ _ => rfl) rfl rfl
  simp only [modify, List.getElem?_modify, Option.map_eq_map, Option.map_map]
  refine Option.map_congr fun T hT => ?_
  simp only [Function.comp_apply]
  split
  · rename_i hut
    subst hut
    obtain ⟨hkey, hear⟩ := hf T hT
    rw [hkey, hear rfl]
  · rfl

theorem intake_push (w : Switchboard) (t : Nat) (frames : List Frame) :
    (w.push frames).intake t =
      { w.intake t with duties := duties t frames ++ (w.intake t).duties } := by
  simp only [intake, push, duties_append]
  rfl

theorem intake_call (w : Switchboard) (t : Nat) (x : Call) (frames : List Frame) :
    (w.call x frames).intake t =
      { w.intake t with
        duties := duties t frames ++ (w.intake t).duties
        handed := (w.intake t).handed ++ x.bytesTo t
        eofs := (w.intake t).eofs + if x.endsTo t then 1 else 0 } := by
  have hcode : duties t (.code :: frames ++ w.stack) = duties t frames ++ duties t w.stack := by
    rw [List.cons_append, duties_cons_none rfl, duties_append]
  simp only [intake, call, hcode, handedTo_concat, eofsTo_concat]
  rfl

theorem intake_call_of {x : Call} {frames : List Frame} (hbytes : x.bytesTo t = [])
    (hends : x.endsTo t = false) (hframes : ∀ f ∈ frames, f.duty t = none) :
    (w.call x frames).intake t = w.intake t := by
  rw [intake_call, hbytes, hends, duties_eq_nil hframes]
  simp only [List.nil_append, List.append_nil, Bool.false_eq_true, if_false, Nat.add_zero]

theorem intake_push_of {frames : List Frame} (hframes : ∀ f ∈ frames, f.duty t = none) :
    (w.push frames).intake t = w.intake t := by
  rw [intake_push, duties_eq_nil hframes, List.nil_append]

theorem intake_finish (w : Switchboard) (u : Nat) (T : StreamTransport) (exc : Option Exc) :
    (w.finish u T exc).intake t = (w.modify u .finished).intake t := by
  have hgone : ({ w.modify u .finished with streams := w.streams.erase T.key } :
      Switchboard).intake t = (w.modify u .finished).intake t := rfl
  unfold finish
  cases T.protocol with
  | none => exact hgone
  | some _ =>
      refine (intake_call_of rfl rfl fun f h => ?_).trans hgone
      cases h

/-- `_finish` closes the ear of the transport. -/
theorem intake_finished (hT : w.transports[u]? = some T) (exc : Option Exc) {U : StreamTransport}
    (t : Nat) : (w.finish u U exc).intake t = w.intake t ∨
      u = t ∧ (w.finish u U exc).intake t =
        (w.intake t).hear { T.ear with closed := true, ready := false, buffered := false } := by
  rw [intake_finish]
  cases hut : decide (u = t) with
  | false =>
      refine .inl (intake_modify_of ?_)
      exact fun _ _ => ⟨rfl, fun h => absurd h (of_decide_eq_false hut)⟩
  | true =>
      obtain rfl := of_decide_eq_true hut
      exact .inr ⟨rfl, intake_modify hT rfl⟩

/-! ## Moves -/

/-- The bytes of a packet go to the one transport. -/
theorem Hand.intake {data : Bytes} (h : Hand u data w w') (hT : w.transports[u]? = some T) :
    Intake.Give data T.ear (w.intake u) (w'.intake u) ∧
      ∀ t, u ≠ t → w'.intake t = w.intake t := by
  have hthis : ∀ {T'}, w.transports[u]? = some T' → T' = T := fun h =>
    Option.some.inj (h.symm.trans hT)
  cases h with
  | unknown hnone => cases hnone.symm.trans hT
  | refused hT' hprotocol =>
      obtain rfl := hthis hT'
      exact ⟨.refused (by simp only [StreamTransport.ear, hprotocol, Option.isSome_none]),
        fun _ _ => rfl⟩
  | whole hT' hbuffered hprotocol =>
      obtain rfl := hthis hT'
      refine ⟨?_, fun t hne => intake_call_of (if_neg hne) rfl fun f h => by cases h⟩
      rw [intake_call]
      have hbytes : (Call.dataReceived u data).bytesTo u = data := if_pos rfl
      rw [hbytes]
      exact .whole (Option.isSome_iff_ne_none.mpr hprotocol)
  | parts hT' hbuffered =>
      obtain rfl := hthis hT'
      refine ⟨?_, fun t hne => intake_push_of fun f h => ?_⟩
      · rw [intake_push]
        have hduty : duties u [.bufferUpdated u data] = [.feeding data] := by
          refine duties_cons_some (f := .bufferUpdated u data) ?_ []
          exact if_pos rfl
        rw [hduty]
        exact .parts hbuffered
      · rw [List.mem_singleton.mp h]
        exact if_neg hne

/-- The end of the stream comes to the one transport. -/
theorem Ending.intake (h : Ending u w w') (hT : w.transports[u]? = some T) :
    Intake.Tell T.ear (w.intake u) (w'.intake u) ∧ ∀ t, u ≠ t → w'.intake t = w.intake t := by
  have hthis : ∀ {T'}, w.transports[u]? = some T' → T' = T := fun h =>
    Option.some.inj (h.symm.trans hT)
  have hgone : ∀ t, (w.modify u .peerGone).intake t = w.intake t := fun t =>
    intake_modify_of fun _ _ => ⟨rfl, fun _ => rfl⟩
  have hget : (w.modify u .peerGone).transports[u]? = some T.peerGone := by
    simp only [modify, List.getElem?_modify_eq, hT]
    rfl
  cases h with
  | unknown hnone => cases hnone.symm.trans hT
  | late hT' hclosed =>
      obtain rfl := hthis hT'
      refine ⟨?_, fun t _ => hgone t⟩
      rw [hgone]
      exact .refused fun hl => by cases hclosed.symm.trans hl.1
  | kept hT' hopen hpaused =>
      obtain rfl := hthis hT'
      refine ⟨?_, fun t hne => Eq.trans ?_ (hgone t)⟩
      · rw [intake_modify hget rfl, hgone]
        exact .kept hpaused
      · refine intake_modify_of ?_
        exact fun _ _ => ⟨rfl, fun h => absurd h hne⟩
  | refused hT' hopen hreading hprotocol =>
      obtain rfl := hthis hT'
      refine ⟨?_, fun t _ => hgone t⟩
      rw [hgone]
      exact .refused (StreamTransport.not_live hprotocol)
  | told hT' hopen hreading hprotocol =>
      obtain rfl := hthis hT'
      refine ⟨?_, fun t hne => (intake_call_of rfl ?_ fun f h => ?_).trans (hgone t)⟩
      · have hends : (Call.eofReceived u).endsTo u = true := decide_eq_true rfl
        have hframes : duties u [.eofReceived u] = [] := rfl
        have hbytes : (Call.eofReceived u).bytesTo u = [] := rfl
        rw [intake_call, hgone, hends, hframes, hbytes, if_pos rfl, List.nil_append,
          List.append_nil]
        exact .told ⟨hopen, Option.isSome_iff_ne_none.mpr hprotocol⟩ hreading
      · exact decide_eq_false fun h => hne (Call.eofReceived.inj h)
      · rw [List.mem_singleton.mp h]
        rfl

/-- The next packet of a direction, if it belongs to the stream, comes before its end. -/
theorem Ordered.unended_taken (hw : w.Ordered) (hwired : w.wiring.Wired) {k : Key} {q : InOrder}
    {p : Packet} (hready : w.Ready k q p) (hkind : p.kind = .data ∨ p.kind = .fin) :
    ∀ x ∈ w.wiring.taken k, x.kind ≠ .fin := by
  intro x hx hfin
  have hready' : w.wiring.Ready k q p := hready
  obtain ⟨i, hi, hget⟩ := List.mem_take_iff_getElem.mp hx
  have hnext := hwired.on_next hready'
  have hlt := (List.getElem?_eq_some_iff.mp hnext).1
  have hpair := List.pairwise_iff_getElem.mp (hw.lastly k) i (w.wiring.next k) (by omega) hlt
    (by omega) (hget ▸ hfin)
  rw [(List.getElem?_eq_some_iff.mp hnext).2] at hpair
  rcases hkind with h | h
  · exact hpair.1 h
  · exact hpair.2 h

section Dispatching

variable {k : Key} {q : InOrder} {p : Packet}

/-- The packet comes up to the transport at its place. -/
theorem intake_take (hwired : w.wiring.Wired) (hready : w.Ready k q p)
    (hT : w.transports[t]? = some T) (hkey : T.key = k) :
    (w.take k q).intake t = (w.intake t).note p := by
  have hready' : w.wiring.Ready k q p := hready
  have htaken := Wiring.taken_take hwired hready' k
  rw [if_pos rfl] at htaken
  have hget : (w.take k q).transports[t]? = some T := hT
  simp only [intake, Intake.note, hget, hT, Option.map_some, Option.getD_some, hkey]
  exact congrArg (fun l => (⟨_, _, l, _, _⟩ : Intake)) htaken

/-- It does not come up to any other. -/
theorem intake_take_of (hwired : w.wiring.Wired) (hready : w.Ready k q p)
    (hkey : ∀ T, w.transports[t]? = some T → T.key ≠ k) :
    (w.take k q).intake t = w.intake t := by
  have hready' : w.wiring.Ready k q p := hready
  refine intake_eq rfl rfl (fun T hT => ?_) rfl rfl
  have htaken := Wiring.taken_take hwired hready' T.key
  rw [if_neg fun h => hkey T hT h.symm] at htaken
  exact htaken

/-- A new packet of any direction comes after what was dispatched. -/
theorem intake_posted (hwired : w.wiring.Wired) {tr : Traffic}
    (hpost : Traffic.Posted p w.traffic tr) :
    ({ w with traffic := tr } : Switchboard).intake t = w.intake t := by
  have hsent : w.wiring.sent <+: ({ w with traffic := tr } : Switchboard).wiring.sent :=
    ⟨[p], hpost.sent.symm⟩
  refine intake_eq rfl rfl (fun T _ => ?_) rfl rfl
  exact Wiring.taken_of_sent hwired hsent rfl

/-- A transport is made at a new place. -/
theorem intake_attach (hne : t ≠ w.transports.length) :
    (w.attach T).intake t = w.intake t := by
  have hget : (w.transports ++ [T])[t]? = w.transports[t]? := by
    rcases Nat.lt_or_gt_of_ne hne with hlt | hgt
    · exact List.getElem?_append_left hlt
    · have hlength : (w.transports ++ [T]).length ≤ t := by
        rw [List.length_append]
        exact hgt
      rw [List.getElem?_eq_none hlength, List.getElem?_eq_none (Nat.le_of_lt hgt)]
  refine intake_eq ?_ rfl (fun _ _ => rfl) rfl rfl
  show ((w.transports ++ [T])[t]?).map _ = _
  rw [hget]

/-- The packet comes up to the transport at its place, which can make nothing of it. -/
theorem intake_ignored (hordered : w.Ordered) (hwired : w.wiring.Wired) (hready : w.Ready k q p)
    (hduties : duties t w.stack = [])
    (hdeaf : p.kind = .data ∨ p.kind = .fin → ∀ T, w.transports[t]? = some T → T.key = k →
      ¬ T.ear.Live) : Intake.Moves (w.intake t) ((w.take k q).intake t) := by
  cases hT : w.transports[t]? with
  | none =>
      rw [intake_take_of hwired hready fun T h => by cases hT.symm.trans h]
      exact .refl
  | some T =>
      cases hkey : decide (T.key = k) with
      | false =>
          rw [intake_take_of hwired hready fun U h => by
            obtain rfl := Option.some.inj (hT.symm.trans h)
            exact of_decide_eq_false hkey]
          exact .refl
      | true =>
          have hkey := of_decide_eq_true hkey
          rw [intake_take hwired hready hT hkey]
          refine .single (.ignored _ (ear_intake hT) hduties ?_ fun h => hdeaf h T hT hkey)
          rintro hdata ⟨x, hx, hfin⟩
          rw [arrived_intake hT, hkey] at hx
          exact hordered.unended_taken hwired hready (.inl hdata) x hx hfin

/-- What the registry has at the place of the packet is the one transport it comes up to. -/
theorem Ordered.place (hordered : w.Ordered) (hwired : w.wiring.Wired)
    (hu : w.streams.get? k = some u) (hU : w.transports[u]? = some T) :
    T.key = k ∧ ∀ t, u ≠ t → ∀ U, w.transports[t]? = some U → U.key ≠ k := by
  obtain ⟨U, hU', hkey⟩ := hordered.placed k u hu
  obtain rfl := Option.some.inj (hU.symm.trans hU')
  refine ⟨hkey, fun t hne U hT hsame => hne ?_⟩
  exact hwired.eq_of_key (ends_of_transports hU) (ends_of_transports hT) (hkey.trans hsame.symm)

/-- A transport that is made has heard no packet but the one that it is made for. -/
theorem intake_made (hfirst : p.kind ≠ .data ∧ p.kind ≠ .fin) {f : Frame}
    (hduty : f.duty w.transports.length = some .opening) (hear : T.ear = .fresh)
    (htaken : w'.wiring.taken T.key = [p]) (hT : w'.transports[w.transports.length]? = some T)
    (hstack : w'.stack = .code :: f :: w.stack)
    (hcalls : w'.calls = w.calls ++ [(w.current, .factory)]) :
    Intake.Move (w.intake w.transports.length) (w'.intake w.transports.length) := by
  have hnone : w.transports[w.transports.length]? = none := List.getElem?_eq_none (Nat.le_refl _)
  have honly : ∀ x ∈ [p], x.kind ≠ .data ∧ x.kind ≠ .fin := fun x hx => by
    rw [List.mem_singleton.mp hx]
    exact hfirst
  have hmade := Intake.Move.made (w.intake w.transports.length)
    (by simp only [intake, hnone, Option.map_none]) honly
  refine Eq.mp (congrArg (Intake.Move _) ?_) hmade
  have hstack' : duties w.transports.length w'.stack =
      .opening :: duties w.transports.length w.stack := by
    rw [hstack, duties_cons_none rfl, duties_cons_some hduty]
  simp only [intake, hT, Option.map_some, Option.getD_some, htaken, hear, hstack', hcalls,
    handedTo_concat, eofsTo_concat]
  simp only [Call.bytesTo, Call.endsTo, reduceCtorEq, decide_false, List.append_nil,
    Bool.false_eq_true, if_false, Nat.add_zero]

/-- A packet that is dispatched is heard by the transport at its place, if there is one. -/
theorem Dispatched.intake (hw : w.Sound) (hordered : w.Ordered) (hready : w.Ready k q p)
    (hduties : duties t w.stack = []) (h : Dispatched p (w.take k q) w') :
    Intake.Moves (w.intake t) (w'.intake t) := by
  have hwired := hw.wired
  have hready' : w.wiring.Ready k q p := hready
  have hwired' : (w.take k q).wiring.Wired := hwired.taken hready'
  have hkey : p.key = k := (Wiring.mem_on.mp (hwired.ready hready').1).2.2
  have htaken := h.taken hw hready k
  rw [if_pos rfl] at htaken
  have hzero : w.wiring.next k = 0 → w'.wiring.taken k = [p] := fun hnext => by
    rw [htaken, Wiring.taken, hnext]
    rfl
  have hignored := fun hdeaf => intake_ignored (t := t) hordered hwired hready hduties hdeaf
  have hother : p.kind ≠ .data → p.kind ≠ .fin →
      Intake.Moves (w.intake t) ((w.take k q).intake t) := fun hdata hfin =>
    hignored fun h => absurd h (not_or.mpr ⟨hdata, hfin⟩)
  have hsame : ∀ {v : Switchboard}, v.intake t = (w.take k q).intake t → p.kind ≠ .data →
      p.kind ≠ .fin → Intake.Moves (w.intake t) (v.intake t) := fun heq hdata hfin =>
    heq ▸ hother hdata hfin
  -- the one transport at the place, and every other
  have hplace : ∀ {u U}, w.streams.get? p.key = some u → w.transports[u]? = some U →
      (w.take k q).intake u = (w.intake u).note p ∧
        (u ≠ t → (w.take k q).intake t = w.intake t) := by
    intro u U hu hU
    obtain ⟨hthis, hrest⟩ := hordered.place hwired (hkey ▸ hu) hU
    exact ⟨intake_take hwired hready hU hthis, fun hne =>
      intake_take_of hwired hready (hrest t hne)⟩
  cases h with
  | ignored hsyn hanswer hdeaf =>
      refine hignored fun hkind T hT hkeyT hlive => ?_
      have hregistered := hwired.registered t T.tip (ends_of_transports hT) hlive.1
      have hclosed := hdeaf (hkind.elim .inl fun h => .inr (.inl h)) t T
        ((congrArg w.streams.get? (hkey.trans hkeyT.symm)).trans hregistered) hT
      cases hclosed.symm.trans hlive.1
  | @heard hkind born tr hpost =>
      obtain ⟨r, -, -, -, hnext, -⟩ := hwired.syn_first hready' hkind
      cases ht : decide (t = w.transports.length) with
      | true =>
          rw [of_decide_eq_true ht]
          have hkind' : p.kind ≠ .data ∧ p.kind ≠ .fin := by
            rw [hkind]
            decide
          refine .single (intake_made hkind' (f := .synFactory w.transports.length)
            (T := .fresh p.conn p.target p.source born) (if_pos rfl) rfl ?_ ?_ rfl rfl)
          · exact (congrArg _ hkey).trans (hzero hnext)
          · exact List.getElem?_concat_length
      | false =>
          have hne := of_decide_eq_false ht
          have hattach := intake_attach (w := { w.take k q with traffic := tr }) (t := t)
            (T := .fresh p.conn p.target p.source born) hne
          refine hsame (Eq.trans (intake_call_of rfl rfl fun f hf => ?_)
            (hattach.trans (intake_posted hwired' hpost))) (by rw [hkind]; decide)
              (by rw [hkind]; decide)
          rw [List.mem_singleton.mp hf]
          exact if_neg fun h => hne h.symm
  | unheard hkind hpost =>
      exact hsame (intake_posted hwired' hpost) (by rw [hkind]; decide) (by rw [hkind]; decide)
  | late hkind _ _ _ =>
      refine hsame rfl ?_ ?_ <;> rcases hkind with hkind | hkind <;> rw [hkind] <;> decide
  | @accepted x hkind _ hx _ born =>
      obtain ⟨r, hr, hk, hnext, -⟩ := hwired.accept_first hready' hkind
      obtain rfl := Option.some.inj ((routes_of_connects (w := w) hx).symm.trans hr)
      cases ht : decide (t = w.transports.length) with
      | true =>
          rw [of_decide_eq_true ht]
          have hkind' : p.kind ≠ .data ∧ p.kind ≠ .fin := by
            rw [hkind]
            decide
          refine .single (intake_made hkind' (f := .acceptFactory p.conn w.transports.length)
            (T := .fresh p.conn x.loc x.remote born) (if_pos rfl) rfl ?_ ?_ rfl rfl)
          · exact (congrArg _ hk.symm).trans (hzero hnext)
          · exact List.getElem?_concat_length
      | false =>
          have hne := of_decide_eq_false ht
          have hattach := intake_attach (w := (w.take k q).forget p.conn) (t := t)
            (T := .fresh p.conn x.loc x.remote born) hne
          refine hsame (Eq.trans (intake_call_of rfl rfl fun f hf => ?_) hattach)
            (by rw [hkind]; decide) (by rw [hkind]; decide)
          rw [List.mem_singleton.mp hf]
          exact if_neg fun h => hne h.symm
  | refused hkind _ _ _ e =>
      exact hsame rfl (by rw [hkind]; decide) (by rw [hkind]; decide)
  | @queued u U hkind hu hU hopen hpaused =>
      have hU : w.transports[u]? = some U := hU
      obtain ⟨hthis, hrest⟩ := hplace hu hU
      cases hut : decide (u = t) with
      | false =>
          have hne := of_decide_eq_false hut
          have hbacklog := intake_modify_of (w := w.take k q) (u := u) (t := t)
            (f := fun T => T.backlogged (T.backlog ++ [p.payload]))
            fun _ _ => ⟨rfl, fun h => absurd h hne⟩
          rw [hbacklog, hrest hne]
          exact .refl
      | true =>
          obtain rfl := of_decide_eq_true hut
          have hbacklog := intake_modify (w := w.take k q) hU
            (f := fun T => T.backlogged (T.backlog ++ [p.payload])) rfl
          rw [hbacklog, hthis]
          refine .single (.queued (w.intake u) (ear_intake hU) hduties hkind ?_ hpaused)
          rintro ⟨x, hx, hfin⟩
          rw [arrived_intake hU, (hordered.place hwired (hkey ▸ hu) hU).1] at hx
          exact hordered.unended_taken hwired hready (.inl hkind) x hx hfin
  | @data u U _ hkind hu hU hopen hreading hhand =>
      obtain ⟨hthis, hrest⟩ := hplace hu hU
      obtain ⟨hgive, helse⟩ := hhand.intake hU
      have hU : w.transports[u]? = some U := hU
      have hconsumed : ∀ t, ((w.take k q).push [.consumed u p.payload.length]).intake t =
          (w.take k q).intake t := fun t => intake_push_of fun f hf => by
        rw [List.mem_singleton.mp hf]
        rfl
      cases hut : decide (u = t) with
      | false =>
          have hne := of_decide_eq_false hut
          rw [helse t hne, hconsumed, hrest hne]
          exact .refl
      | true =>
          obtain rfl := of_decide_eq_true hut
          rw [hconsumed, hthis] at hgive
          refine .single (.data _ (ear_intake hU) hduties hkind ?_ hopen hreading hgive)
          rintro ⟨x, hx, hfin⟩
          rw [arrived_intake hU, (hordered.place hwired (hkey ▸ hu) hU).1] at hx
          exact hordered.unended_taken hwired hready (.inl hkind) x hx hfin
  | @fin u _ hkind hu hending =>
      obtain ⟨U, hU, -⟩ := hordered.placed p.key u hu
      obtain ⟨hthis, hrest⟩ := hplace hu hU
      obtain ⟨htell, helse⟩ := hending.intake hU
      cases hut : decide (u = t) with
      | false =>
          have hne := of_decide_eq_false hut
          rw [helse t hne, hrest hne]
          exact .refl
      | true =>
          obtain rfl := of_decide_eq_true hut
          rw [hthis] at htell
          refine .single (.fin _ (ear_intake hU) hduties hkind ?_ htell)
          rintro ⟨x, hx, hfin⟩
          rw [arrived_intake hU, (hordered.place hwired (hkey ▸ hu) hU).1] at hx
          exact hordered.unended_taken hwired hready (.inr hkind) x hx hfin
  | @rst u U hkind hu hU hopen exc =>
      have hgone : ((w.take k q).modify u .peerGone).intake t = (w.take k q).intake t :=
        intake_modify_of fun _ _ => ⟨rfl, fun _ => rfl⟩
      have hget : ((w.take k q).modify u .peerGone).transports[u]? = some U.peerGone := by
        simp only [modify, List.getElem?_modify_eq, hU]
        rfl
      have hnoted := hother (by rw [hkind]; decide) (by rw [hkind]; decide)
      rw [← hgone] at hnoted
      rcases intake_finished hget exc t with heq | ⟨rfl, heq⟩
      · rw [heq]
        exact hnoted
      · rw [heq]
        exact hnoted.tail (.shut _ (ear_intake hget))
  | @rstLate u U hkind hu hU hclosed =>
      refine hsame ?_ (by rw [hkind]; decide) (by rw [hkind]; decide)
      refine intake_modify_of ?_
      exact fun _ _ => ⟨rfl, fun _ => rfl⟩

end Dispatching

/-- A frame that is done is left, whatever it did. -/
theorem Done.intake {f : Frame} {rest : List Frame} (hstack : w.stack = f :: rest)
    (hdone : w.Done f) :
    Intake.Moves (w.intake t) (({ w with stack := rest } : Switchboard).intake t) := by
  have hpopped : ({ w with stack := rest } : Switchboard).intake t =
      { w.intake t with duties := duties t rest } := rfl
  rw [hpopped]
  cases hduty : f.duty t with
  | none =>
      have hsame : duties t w.stack = duties t rest := by
        rw [hstack, duties_cons_none hduty]
      rw [← hsame]
      exact .refl
  | some d =>
      have hduties : (w.intake t).duties = d :: duties t rest := duties_intake hstack hduty
      refine .single (.dropped _ hduties ?_)
      have hear : ∀ E, (w.intake t).ear = some E → ∃ T, w.transports[t]? = some T ∧ T.ear = E :=
        fun E hE => Option.map_eq_some_iff.mp hE
      cases f <;> simp only [Frame.duty, reduceCtorEq] at hduty
      case drain u =>
        obtain ⟨rfl, h⟩ := Option.ite_none_right_eq_some.mp hduty
        obtain rfl := Option.some.inj h
        intro E hE hlive hreading
        obtain ⟨T, hT, rfl⟩ := hear E hE
        rcases hdone T hT with hpaused | hclosed | hnone
        · cases hpaused.symm.trans hreading
        · cases hclosed.symm.trans hlive.1
        · exact .inl hnone
      case getBuffer u view =>
        obtain ⟨rfl, h⟩ := Option.ite_none_right_eq_some.mp hduty
        obtain rfl := Option.some.inj h
        refine .inr fun E hE => ?_
        obtain ⟨T, hT, rfl⟩ := hear E hE
        have hprotocol : w.transports[u]?.bind (·.protocol) = none := hdone
        rw [hT] at hprotocol
        exact StreamTransport.not_live hprotocol
      case bufferUpdated u view =>
        obtain ⟨rfl, h⟩ := Option.ite_none_right_eq_some.mp hduty
        obtain rfl := Option.some.inj h
        refine hdone.imp_right fun hprotocol E hE => ?_
        obtain ⟨T, hT, rfl⟩ := hear E hE
        rw [hT] at hprotocol
        exact StreamTransport.not_live hprotocol
      all_goals exact absurd hdone id

/-- Occasions on which no frame that hands bytes to the transport `t` is given up, and on which
its protocol does not ask for more. -/
structure Calm (A : Occasion → Prop) (t : Nat) : Prop where
  unwound : ∀ f, A (.unwound f) → f.duty t = none ∨ f.duty t = some .opening
  resumed : ¬ A (.resumed t)
  starved : ¬ A (.starved t)

/-- The frame on top goes, and others come instead. -/
theorem intake_popped {f : Frame} {rest : List Frame} (hstack : w.stack = f :: rest)
    (hduty : f.duty t = none) :
    ({ w with stack := rest } : Switchboard).intake t = w.intake t := by
  have hsame : duties t w.stack = duties t rest := by
    rw [hstack, duties_cons_none hduty]
  simp only [intake, hsame]
  rfl

/-- A transport gets its protocol. -/
theorem intake_begun {f : Frame} {rest frames : List Frame} (hstack : w.stack = f :: rest)
    (hduty : ∀ v, f.duty v = if u = v then some .opening else none) (protocol : Protocol)
    (hframes : ∀ g ∈ frames, g.duty t = none) :
    Intake.Moves (w.intake t) (((({ w with stack := rest } : Switchboard).modify u
      (.started protocol)).call (.connectionMade u) frames).intake t) := by
  rw [intake_call_of (x := .connectionMade u) rfl rfl hframes]
  cases hut : decide (u = t) with
  | false =>
      have hne := of_decide_eq_false hut
      have hpopped := intake_popped hstack ((hduty t).trans (if_neg hne))
      have hstarted := intake_modify_of (w := { w with stack := rest }) (u := u) (t := t)
        (f := .started protocol) fun _ _ => ⟨rfl, fun h => absurd h hne⟩
      rw [hstarted, hpopped]
      exact .refl
  | true =>
      obtain rfl := of_decide_eq_true hut
      have hduties : (w.intake u).duties = .opening :: duties u rest :=
        duties_intake hstack ((hduty u).trans (if_pos rfl))
      cases hT : w.transports[u]? with
      | none =>
          have hstarted := intake_modify_of (w := { w with stack := rest }) (u := u) (t := u)
            (f := .started protocol) fun _ h => by cases hT.symm.trans h
          rw [hstarted]
          exact .single (.dropped _ hduties trivial)
      | some T =>
          have hstarted := intake_modify (w := { w with stack := rest }) hT
            (f := .started protocol) rfl
          rw [hstarted]
          exact .single (.began _ (ear_intake hT) hduties protocol.buffered)

/-- Flow control is deaf. -/
theorem Meter.heard {u : Nat} {T : StreamTransport} {f : StreamTransport → StreamTransport}
    {x : Option Call} (h : Meter A u T f x) (U : StreamTransport) :
    (f U).key = U.key ∧ (f U).ear = U.ear := by
  have hkey := congrArg StreamTransport.key (h.core U)
  exact ⟨hkey, StreamTransport.ear_of_core (h.core U)⟩

/-- **A move of the switchboard is a sequence of moves of every intake.** -/
theorem Move.intake (h : Move A w w') (hw : w.Sound) (hordered : w.Ordered)
    (hstacked : Stacked w.stack) (hcalm : Calm A t) :
    Intake.Moves (w.intake t) (w'.intake t) := by
  have hsame : w'.intake t = w.intake t → Intake.Moves (w.intake t) (w'.intake t) := fun heq => by
    rw [heq]
    exact .refl
  have hpopped : ∀ {f rest}, w.stack = f :: rest → f.duty t = none →
      ({ w with stack := rest } : Switchboard).intake t = w.intake t := intake_popped
  have hmodify : ∀ {u : Nat} {f : StreamTransport → StreamTransport},
      (∀ T, (f T).key = T.key ∧ (f T).ear = T.ear) → (w.modify u f).intake t = w.intake t :=
    fun hf => intake_modify_of fun T _ => ⟨(hf T).1, fun _ => (hf T).2⟩
  cases h with
  | datagram _ _ _ hpost => exact hsame (intake_posted hw.wired hpost)
  | @sent u T kind payload tr hT hkind heof hdata hpost =>
      have hposted := intake_posted (t := t) hw.wired hpost
      have hnumbered := intake_modify_of (w := { w with traffic := tr }) (u := u) (t := t)
        (f := .posted kind) fun _ _ => ⟨rfl, fun _ => rfl⟩
      exact hsame (hnumbered.trans hposted)
  | released hrelease =>
      exact hsame (intake_eq rfl rfl (fun _ _ => taken_of_same rfl hrelease.sent) rfl rfl)
  | @landed time i f hi hkind hstack hA =>
      have hmove := Move.landed (A := A) w time hi hkind hstack hA
      have hnext := Wiring.next_arrive (w := w.wiring) (p := f.packet)
      exact hsame (intake_eq rfl rfl (fun T _ => hmove.taken hw (hnext T.key)) rfl rfl)
  | started hstack _ =>
      have hduties : duties t w.stack = [] := by
        rw [hstack]
        rfl
      exact hsame (intake_eq rfl hduties.symm (fun _ _ => rfl) rfl rfl)
  | popped hstack hdone => exact hdone.intake hstack
  | @unwound f rest hstack hA =>
      rcases hcalm.unwound f hA with hnone | hopening
      · exact hsame (hpopped hstack hnone)
      · exact .single (.dropped _ (duties_intake hstack hopening) trivial)
  | @starved u view rest hstack hA =>
      refine hsame (hpopped hstack (if_neg ?_))
      rintro rfl
      exact hcalm.starved hA
  | left hstack _ => exact hsame (hpopped hstack rfl)
  | called hx hframes =>
      exact hsame (intake_call_of (bytesTo_aside hx t) (endsTo_aside hx t)
        fun f hf => (hframes f hf).duty t)
  | pushed hf =>
      refine hsame (intake_push_of fun g hg => ?_)
      rw [List.mem_singleton.mp hg]
      exact hf.duty t
  | crashing keys _ =>
      refine hsame (intake_push_of fun g hg => ?_)
      rw [List.mem_singleton.mp hg]
      rfl
  | metered _ hmeter => exact hsame (hmodify hmeter.heard)
  | @flowed u _ f x _ hmeter =>
      have hmetered : (w.modify u f).intake t = w.intake t := hmodify hmeter.heard
      refine hsame ((intake_call_of ?_ ?_ fun g hg => ?_).trans hmetered)
      · rcases hmeter.calls with rfl | rfl <;> rfl
      · rcases hmeter.calls with rfl | rfl <;> rfl
      · rw [List.mem_singleton.mp hg]
        rfl
  | @wrote u data hA =>
      refine hsame (intake_eq rfl rfl (fun _ _ => rfl) ?_ ?_)
      · rw [handedTo_concat]
        exact List.append_nil _
      · rw [eofsTo_concat]
        rfl
  | @adopted u protocol hbegun =>
      cases hut : decide (u = t) with
      | false =>
          refine hsame (intake_modify_of ?_)
          exact fun _ _ => ⟨rfl, fun h => absurd h (of_decide_eq_false hut)⟩
      | true =>
          obtain rfl := of_decide_eq_true hut
          cases hT : w.transports[u]? with
          | none =>
              refine hsame (intake_modify_of ?_)
              exact fun _ h => by cases hT.symm.trans h
          | some T =>
              rw [intake_modify hT (f := .adopted protocol) rfl]
              exact .single (.adopted _ (ear_intake hT) (hbegun T hT) protocol.buffered)
  | shut _ =>
      refine hsame (hmodify ?_)
      exact fun _ => ⟨rfl, rfl⟩
  | @finished u T hT _ exc _ =>
      rcases intake_finished hT exc t with heq | ⟨rfl, heq⟩
      · exact hsame heq
      · rw [heq]
        exact .single (.shut _ (ear_intake hT))
  | @paused u T hT _ =>
      cases hut : decide (u = t) with
      | false =>
          refine hsame (intake_modify_of ?_)
          exact fun _ _ => ⟨rfl, fun h => absurd h (of_decide_eq_false hut)⟩
      | true =>
          obtain rfl := of_decide_eq_true hut
          rw [intake_modify hT (f := .reading true) rfl]
          exact .single (.paused _ (ear_intake hT))
  | @resumed u T hT _ hA =>
      have hne : u ≠ t := by
        rintro rfl
        exact hcalm.resumed hA
      have hread := intake_modify_of (w := w) (u := u) (t := t) (f := .reading false)
        fun _ _ => ⟨rfl, fun h => absurd h hne⟩
      refine hsame ((intake_push_of fun f hf => ?_).trans hread)
      rw [List.mem_singleton.mp hf]
      exact if_neg hne
  | @next k rest q p _ hstack hready hdispatch =>
      refine hdispatch.intake hw hordered hready ?_
      rw [hstack] at hstacked
      rw [hstack, hstacked.eq_deliver_of_push]
      rfl
  | @drained u rest T chunk chunks _ hstack hT hopen hreading hbacklog hhand =>
      have hdraining : (w.intake u).duties = .draining :: duties u rest := by
        refine duties_intake hstack ?_
        exact if_pos rfl
      have hget : ((w.modify u (.backlogged chunks)).push
          [.consumed u chunk.length]).transports[u]? = some (T.backlogged chunks) := by
        simp only [push, modify, List.getElem?_modify_eq, hT]
        rfl
      obtain ⟨hgive, helse⟩ := hhand.intake hget
      have hconsumed : ∀ v, ((w.modify u (.backlogged chunks)).push
          [.consumed u chunk.length]).intake v = (w.modify u (.backlogged chunks)).intake v :=
        fun v => intake_push_of fun f hf => by
          rw [List.mem_singleton.mp hf]
          rfl
      cases hut : decide (u = t) with
      | false =>
          have hne := of_decide_eq_false hut
          refine hsame ((helse t hne).trans ((hconsumed t).trans (intake_modify_of ?_)))
          exact fun _ _ => ⟨rfl, fun h => absurd h hne⟩
      | true =>
          obtain rfl := of_decide_eq_true hut
          rw [hconsumed, intake_modify hT (f := .backlogged chunks) rfl] at hgive
          exact .single (.drained (w.intake u) (ear_intake hT) hdraining hopen hreading
            hbacklog hgive)
  | @ended u rest T _ hstack hT hopen hreading hbacklog heof hending =>
      have hdraining : (w.intake u).duties = .draining :: duties u rest := by
        refine duties_intake hstack ?_
        exact if_pos rfl
      have hget : (({ w with stack := rest } : Switchboard).modify u
          (.ending false)).transports[u]? = some (T.ending false) := by
        simp only [modify, List.getElem?_modify_eq, hT]
        rfl
      obtain ⟨htell, helse⟩ := hending.intake hget
      cases hut : decide (u = t) with
      | false =>
          have hne := of_decide_eq_false hut
          refine hsame ((helse t hne).trans (Eq.trans ?_ (hpopped hstack (if_neg hne))))
          refine intake_modify_of ?_
          exact fun _ _ => ⟨rfl, fun h => absurd h hne⟩
      | true =>
          obtain rfl := of_decide_eq_true hut
          rw [intake_modify (w := { w with stack := rest }) hT (f := .ending false) rfl] at htell
          exact .single (.concluded (w.intake u) (ear_intake hT) hdraining hopen hreading
            hbacklog heof htell)
  | @fed u view rest hstack _ =>
      have hduties : duties t (.code :: .getBuffer u view :: rest) = duties t w.stack := by
        rw [hstack]
        rfl
      refine hsame (intake_eq rfl hduties (fun _ _ => rfl) ?_ ?_)
      · exact (handedTo_concat t w.calls _).trans (List.append_nil _)
      · exact eofsTo_concat t w.calls _
  | @roomed u view rest taken hstack =>
      rw [intake_call]
      cases hut : decide (u = t) with
      | false =>
          have hne := of_decide_eq_false hut
          have hbytes : (Call.bufferUpdated u (view.take taken)).bytesTo t = [] := if_neg hne
          have hframes : duties t [.bufferUpdated u (view.drop taken)] = [] :=
            duties_eq_nil fun g hg => by
              rw [List.mem_singleton.mp hg]
              exact if_neg hne
          have hgone := hpopped hstack (f := .getBuffer u view) (if_neg hne)
          rw [hbytes, hframes, hgone, List.append_nil, List.nil_append]
          exact .refl
      | true =>
          obtain rfl := of_decide_eq_true hut
          have hbytes : (Call.bufferUpdated u (view.take taken)).bytesTo u = view.take taken :=
            if_pos rfl
          have hframes : duties u [.bufferUpdated u (view.drop taken)] =
              [.feeding (view.drop taken)] := by
            refine duties_cons_some (f := .bufferUpdated u (view.drop taken)) ?_ []
            exact if_pos rfl
          have hduties : (w.intake u).duties = .feeding view :: duties u rest := by
            refine duties_intake hstack ?_
            exact if_pos rfl
          rw [hbytes, hframes]
          exact .single (.fed (w.intake u) hduties taken)
  | opened _ _ _ _ hpost => exact hsame (intake_posted hw.wired hpost)
  | begunClient protocol hstack =>
      refine intake_begun hstack (fun _ => rfl) protocol fun g hg => ?_
      rw [List.mem_singleton.mp hg]
      rfl
  | begunServer protocol hstack =>
      exact intake_begun hstack (fun _ => rfl) protocol fun g hg => absurd hg List.not_mem_nil
  | _ => exact hsame rfl

end Switchboard

end SimLoop.Net
