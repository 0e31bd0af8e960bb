/-
  Net/Intake.lean --- what one end of a connection does with what arrives.

  An intake is the receiving side of a transport, seen apart from the network: the packets
  that came up in order, what of them was handed to the protocol, what is parked in the
  backlog and what a frame still has in its hands.  However reading is paused, resumed and
  entered again, these put together are the bytes that came up.
-/
import SimLoop.Net.State

set_option autoImplicit false

namespace SimLoop.Net

/-! ## Intakes -/

/-- The bytes of the stream that a packet carries. -/
def Packet.bytes (p : Packet) : Bytes := if p.kind = .data then p.payload else []

/-- The bytes of the stream that some packets carry. -/
def streamBytes (ps : List Packet) : Bytes := ps.flatMap Packet.bytes

/-- What a frame does for one transport. -/
inductive Duty where
  /-- It waits for the protocol. -/
  | opening
  /-- It works off the backlog. -/
  | draining
  /-- It hands these bytes over piece by piece. -/
  | feeding (view : Bytes)
  deriving DecidableEq

/-- The bytes that are still in the hands of a frame. -/
def Duty.bytes : Duty → Bytes
  | .feeding view => view
  | _ => []

/-- The bytes in the hands of all frames. -/
def underway (duties : List Duty) : Bytes := duties.flatMap Duty.bytes

/-- What the receiving side of a transport keeps. -/
structure Ear where
  closed : Bool
  /-- There is a protocol. -/
  ready : Bool
  buffered : Bool
  begun : Bool
  paused : Bool
  backlog : List Bytes
  eofPending : Bool

/-- The ear of an open transport with a protocol. -/
def Ear.Live (E : Ear) : Prop := E.closed = false ∧ E.ready = true

/-- The ear of a new transport. -/
def Ear.fresh : Ear := ⟨false, false, false, false, false, [], false⟩

@[simp] theorem streamBytes_append (ps qs : List Packet) :
    streamBytes (ps ++ qs) = streamBytes ps ++ streamBytes qs := List.flatMap_append

@[simp] theorem streamBytes_singleton (p : Packet) : streamBytes [p] = p.bytes :=
  List.flatMap_singleton _ _

@[simp] theorem underway_nil : underway [] = [] := rfl

@[simp] theorem underway_cons (d : Duty) (ds : List Duty) :
    underway (d :: ds) = d.bytes ++ underway ds := rfl

theorem Packet.bytes_of_data {p : Packet} (h : p.kind = .data) : p.bytes = p.payload := if_pos h

theorem Packet.bytes_of_ne {p : Packet} (h : p.kind ≠ .data) : p.bytes = [] := if_neg h

structure Intake where
  /-- Nothing before the transport is made. -/
  ear : Option Ear
  /-- What the frames do for it, the one on top first. -/
  duties : List Duty
  /-- The packets that came up in order. -/
  arrived : List Packet
  /-- The bytes the protocol was given. -/
  handed : Bytes
  /-- How often the protocol was told that nothing will follow. -/
  eofs : Nat

namespace Intake

/-- The other end has finished. -/
def Ended (i : Intake) : Prop := ∃ p ∈ i.arrived, p.kind = .fin

def hear (i : Intake) (E : Ear) : Intake := { i with ear := some E }

/-- One more packet comes up. -/
def note (i : Intake) (p : Packet) : Intake := { i with arrived := i.arrived ++ [p] }

theorem not_ended_note {i : Intake} {p : Packet} (hkind : p.kind = .data) (h : ¬ i.Ended) :
    ¬ (i.note p).Ended := by
  rintro ⟨q, hq, hfin⟩
  rcases List.mem_append.mp hq with hq | hq
  · exact h ⟨q, hq, hfin⟩
  · rw [List.mem_singleton.mp hq, hkind] at hfin
    cases hfin

/-! ## Moves -/

/-- What becomes of the bytes of a packet. -/
inductive Give (data : Bytes) (E : Ear) (i : Intake) : Intake → Prop
  | refused (hready : E.ready = false) : Give data E i i
  | whole (hready : E.ready = true) : Give data E i { i with handed := i.handed ++ data }
  | parts (hbuffered : E.buffered = true) :
      Give data E i { i with duties := .feeding data :: i.duties }

/-- What becomes of the end of the stream. -/
inductive Tell (E : Ear) (i : Intake) : Intake → Prop
  | kept (hpaused : E.paused = true) : Tell E i (i.hear { E with eofPending := true })
  | refused (hlive : ¬ E.Live) : Tell E i i
  | told (hlive : E.Live) (hreading : E.paused = false) : Tell E i { i with eofs := i.eofs + 1 }

/-- A duty can be given up: nothing that is live is left in its hands. -/
def MayDrop (i : Intake) (rest : List Duty) : Duty → Prop
  | .opening => True
  | .draining => ∀ E, i.ear = some E → E.Live → E.paused = false →
      E.backlog = [] ∧ E.eofPending = false ∨ .draining ∈ rest
  | .feeding view => view = [] ∨ ∀ E, i.ear = some E → ¬ E.Live

inductive Move : Intake → Intake → Prop
  | made (i : Intake) (hear : i.ear = none) {ps : List Packet}
      (hfirst : ∀ p ∈ ps, p.kind ≠ .data ∧ p.kind ≠ .fin) :
      Move i { i with ear := some .fresh, duties := .opening :: i.duties, arrived := ps }
  | began (i : Intake) {E : Ear} {rest : List Duty} (hear : i.ear = some E)
      (hduty : i.duties = .opening :: rest) (buffered : Bool) :
      Move i { i with
        ear := some { E with ready := true, buffered := buffered, begun := true }
        duties := rest }
  | adopted (i : Intake) {E : Ear} (hear : i.ear = some E) (hbegun : E.begun = true)
      (buffered : Bool) : Move i (i.hear { E with ready := true, buffered := buffered })
  | shut (i : Intake) {E : Ear} (hear : i.ear = some E) :
      Move i (i.hear { E with closed := true, ready := false, buffered := false })
  | paused (i : Intake) {E : Ear} (hear : i.ear = some E) :
      Move i (i.hear { E with paused := true })
  | resumed (i : Intake) {E : Ear} (hear : i.ear = some E) (hbegun : E.begun = true)
      (hidle : underway i.duties = []) :
      Move i { i with ear := some { E with paused := false }, duties := .draining :: i.duties }
  | reopened (i : Intake) {E : Ear} (hear : i.ear = some E) (hbacklog : E.backlog = [])
      (hpending : E.eofPending = false) : Move i (i.hear { E with paused := false })
  -- a packet comes up
  | ignored (i : Intake) {E : Ear} {p : Packet} (hear : i.ear = some E) (hduties : i.duties = [])
      (hfirst : p.kind = .data → ¬ i.Ended) (hdeaf : p.kind = .data ∨ p.kind = .fin → ¬ E.Live) :
      Move i (i.note p)
  | queued (i : Intake) {E : Ear} {p : Packet} (hear : i.ear = some E) (hduties : i.duties = [])
      (hkind : p.kind = .data) (hfirst : ¬ i.Ended) (hpaused : E.paused = true) :
      Move i ((i.note p).hear { E with backlog := E.backlog ++ [p.payload] })
  | data (i : Intake) {E : Ear} {p : Packet} {i' : Intake} (hear : i.ear = some E)
      (hduties : i.duties = []) (hkind : p.kind = .data) (hfirst : ¬ i.Ended)
      (hopen : E.closed = false) (hreading : E.paused = false)
      (hgive : Give p.payload E (i.note p) i') : Move i i'
  | fin (i : Intake) {E : Ear} {p : Packet} {i' : Intake} (hear : i.ear = some E)
      (hduties : i.duties = []) (hkind : p.kind = .fin) (hfirst : ¬ i.Ended)
      (htell : Tell E (i.note p) i') : Move i i'
  -- a frame goes on
  | drained (i : Intake) {E : Ear} {rest : List Duty} {chunk : Bytes} {chunks : List Bytes}
      {i' : Intake} (hear : i.ear = some E) (hduty : i.duties = .draining :: rest)
      (hopen : E.closed = false) (hreading : E.paused = false)
      (hbacklog : E.backlog = chunk :: chunks)
      (hgive : Give chunk { E with backlog := chunks }
        (i.hear { E with backlog := chunks }) i') : Move i i'
  | concluded (i : Intake) {E : Ear} {rest : List Duty} {i' : Intake} (hear : i.ear = some E)
      (hduty : i.duties = .draining :: rest) (hopen : E.closed = false)
      (hreading : E.paused = false) (hbacklog : E.backlog = []) (heof : E.eofPending = true)
      (htell : Tell { E with eofPending := false }
        { i with ear := some { E with eofPending := false }, duties := rest } i') : Move i i'
  | fed (i : Intake) {view : Bytes} {rest : List Duty} (hduty : i.duties = .feeding view :: rest)
      (taken : Nat) :
      Move i { i with
        handed := i.handed ++ view.take taken, duties := .feeding (view.drop taken) :: rest }
  | dropped (i : Intake) {d : Duty} {rest : List Duty} (hduty : i.duties = d :: rest)
      (hdrop : i.MayDrop rest d) : Move i { i with duties := rest }

/-- Any number of moves. -/
def Moves : Intake → Intake → Prop := Relation.ReflTransGen Move

/-! ## Nothing is lost or out of order -/

/-- What holds of an intake while the bytes `loose` are on their way from the backlog, or
from a packet, to the protocol. -/
structure Holds (loose : Bytes) (i : Intake) : Prop where
  unmade : i.ear = none → i.duties = [] ∧ i.arrived = [] ∧ i.handed = [] ∧ i.eofs = 0
  /-- Only the frame on top can have bytes in its hands. -/
  tidy : ∀ d ds, i.duties = d :: ds → underway ds = []
  mute : ∀ E, i.ear = some E → E.ready = false → E.buffered = false
  begun : ∀ E, i.ear = some E → E.begun = true → E.closed = false → E.ready = true
  opening : .opening ∈ i.duties → i.duties = [.opening] ∧ streamBytes i.arrived = [] ∧
    ¬ i.Ended ∧ i.handed = [] ∧
    ∀ E, i.ear = some E → E.begun = false ∧ E.backlog = [] ∧ E.eofPending = false
  draining : .draining ∈ i.duties → ∀ E, i.ear = some E → E.begun = true
  whole : ∀ E, i.ear = some E → E.Live →
    i.handed ++ underway i.duties ++ loose ++ E.backlog.flatten = streamBytes i.arrived
  part : i.handed ++ underway i.duties <+: streamBytes i.arrived
  drains : ∀ E, i.ear = some E → E.Live → E.paused = false →
    E.backlog ≠ [] ∨ E.eofPending = true → .draining ∈ i.duties
  pending : ∀ E, i.ear = some E → E.eofPending = true → i.Ended
  heard : i.eofs = 0 ∨ i.eofs = 1 ∧ i.Ended ∧ i.handed = streamBytes i.arrived ∧
    ∀ E, i.ear = some E → E.eofPending = false

/-- What holds of an intake between moves. -/
structure Sound (i : Intake) : Prop extends i.Holds [] where
  told : i.Ended → ∀ E, i.ear = some E → E.Live → E.eofPending = true ∨ i.eofs = 1

namespace Holds

variable {i i' : Intake} {E E' : Ear} {loose data : Bytes} {rest : List Duty}

/-- Nothing is made yet. -/
theorem empty : Holds [] ⟨none, [], [], [], 0⟩ where
  unmade _ := ⟨rfl, rfl, rfl, rfl⟩
  tidy _ _ h := by cases h
  mute _ h := by cases h
  begun _ h := by cases h
  opening h := absurd h List.not_mem_nil
  draining h := absurd h List.not_mem_nil
  whole _ h := by cases h
  part := List.nil_prefix
  drains _ h := by cases h
  pending _ h := by cases h
  heard := .inl rfl

/-- Whoever was told that nothing follows was given everything, and is given no more. -/
theorem handed_eq (hi : i.Holds loose) (heof : i.eofs = 1) {b : Bytes}
    (hb : i.handed ++ b <+: streamBytes i.arrived) : b = [] := by
  rcases hi.heard with hzero | ⟨-, -, hall, -⟩
  · rw [hzero] at heof
    cases heof
  · rw [← hall] at hb
    have hlen := hb.length_le
    rw [List.length_append] at hlen
    exact List.length_eq_zero_iff.mp (by omega)

/-- A change of the ear that neither brings it to life nor lets it read. -/
theorem hear (hi : i.Holds loose) (hear : i.ear = some E)
    (hbegun : E'.begun = E.begun) (hbacklog : E'.backlog = E.backlog)
    (hpending : E'.eofPending = true → E.eofPending = true) (hlive : E'.Live → E.Live)
    (hpaused : E'.paused = false → E.paused = false)
    (hmute : E'.ready = false → E'.buffered = false)
    (hopen : E'.begun = true → E'.closed = false → E'.ready = true) :
    (i.hear E').Holds loose where
  unmade h := by cases h
  tidy := hi.tidy
  mute _ h := by
    obtain rfl := Option.some.inj h
    exact hmute
  begun _ h := by
    obtain rfl := Option.some.inj h
    exact hopen
  opening h := by
    obtain ⟨hduties, harrived, hended, hhanded, hE⟩ := hi.opening h
    refine ⟨hduties, harrived, hended, hhanded, fun _ h => ?_⟩
    obtain rfl := Option.some.inj h
    obtain ⟨hfresh, hnone, hquiet⟩ := hE E hear
    refine ⟨hbegun.trans hfresh, hbacklog.trans hnone, Bool.eq_false_iff.mpr fun h => ?_⟩
    cases hquiet.symm.trans (hpending h)
  draining h _ h' := by
    obtain rfl := Option.some.inj h'
    exact hbegun.trans (hi.draining h E hear)
  whole _ h hl := by
    obtain rfl := Option.some.inj h
    rw [hbacklog]
    exact hi.whole E hear (hlive hl)
  part := hi.part
  drains _ h hl hp := by
    obtain rfl := Option.some.inj h
    rw [hbacklog]
    exact fun h => hi.drains E hear (hlive hl) (hpaused hp) (h.imp_right hpending)
  pending _ h hp := by
    obtain rfl := Option.some.inj h
    exact hi.pending E hear (hpending hp)
  heard := hi.heard.imp_right fun ⟨hone, hended, hall, hE⟩ => ⟨hone, hended, hall, fun _ h => by
    obtain rfl := Option.some.inj h
    exact Bool.eq_false_iff.mpr fun h => by cases (hE E hear).symm.trans (hpending h)⟩

/-- The loose bytes are handed over, or go into the hands of a frame. -/
theorem give (hi : i.Holds data) (hear : i.ear = some E) (hopen : E.closed = false)
    (hidle : underway i.duties = []) (hopening : .opening ∉ i.duties)
    (hgive : Give data E i i') : i'.Holds [] := by
  cases hgive with
  | refused hready =>
      refine { hi with whole := fun F hF hlive => ?_ }
      obtain rfl := Option.some.inj (hear.symm.trans hF)
      rw [Ear.Live, hready] at hlive
      cases hlive.2
  | whole hready =>
      have hwhole := hi.whole E hear ⟨hopen, hready⟩
      rw [hidle, List.append_nil] at hwhole
      have hpart : i.handed ++ data <+: streamBytes i.arrived := ⟨E.backlog.flatten, hwhole⟩
      refine { hi with
        unmade := fun h => ?_
        opening := fun h => absurd h hopening
        whole := fun F hF _ => ?_
        part := ?_
        heard := hi.heard.imp_right fun ⟨hone, hended, hall, hE⟩ => ⟨hone, hended, ?_, hE⟩ }
      · cases hear.symm.trans h
      · obtain rfl := Option.some.inj (hear.symm.trans hF)
        simpa only [hidle, List.append_nil] using hwhole
      · simpa only [hidle, List.append_nil] using hpart
      · rw [hi.handed_eq hone hpart, List.append_nil]
        exact hall
  | parts hbuffered =>
      have hready : E.ready = true := by
        refine Bool.eq_true_of_not_eq_false fun h => ?_
        rw [hi.mute E hear h] at hbuffered
        cases hbuffered
      have hwhole := hi.whole E hear ⟨hopen, hready⟩
      rw [hidle, List.append_nil] at hwhole
      refine { hi with
        unmade := fun h => ?_
        tidy := fun d ds h => ?_
        opening := fun h => ?_
        draining := fun h => ?_
        whole := fun F hF _ => ?_
        part := ?_
        drains := fun F hF hl hp h => List.mem_cons_of_mem _ (hi.drains F hF hl hp h) }
      · cases hear.symm.trans h
      · obtain ⟨-, rfl⟩ := List.cons.inj h
        exact hidle
      · rcases List.mem_cons.mp h with h | h
        · cases h
        · exact absurd h hopening
      · rcases List.mem_cons.mp h with h | h
        · cases h
        · exact hi.draining h
      · obtain rfl := Option.some.inj (hear.symm.trans hF)
        simpa only [underway_cons, Duty.bytes, hidle, List.append_nil] using hwhole
      · simp only [underway_cons, Duty.bytes, hidle, List.append_nil]
        exact ⟨E.backlog.flatten, hwhole⟩

/-- The end of the stream is noticed, for the first time. -/
theorem tell (hi : i.Holds []) (hear : i.ear = some E) (hended : i.Ended) (hnone : i.eofs = 0)
    (hpending : E.eofPending = false)
    (hidle : E.Live → E.paused = false → underway i.duties = [] ∧ E.backlog = [])
    (htell : Tell E i i') : i'.Sound := by
  have hopening : .opening ∉ i.duties := fun h => (hi.opening h).2.2.1 hended
  cases htell with
  | kept hpaused =>
      refine { hi with
        unmade := fun h => ?_
        mute := fun F h => ?_
        begun := fun F h => ?_
        opening := fun h => absurd h hopening
        draining := fun h F hF => ?_
        whole := fun F h hl => ?_
        drains := fun F h hl hp => ?_
        pending := fun _ _ _ => hended
        heard := .inl hnone
        told := fun _ F h _ => ?_ }
      · cases h
      · obtain rfl := Option.some.inj h
        exact hi.mute E hear
      · obtain rfl := Option.some.inj h
        exact hi.begun E hear
      · obtain rfl := Option.some.inj hF
        exact hi.draining h E hear
      · obtain rfl := Option.some.inj h
        exact hi.whole E hear hl
      · obtain rfl := Option.some.inj h
        rw [hpaused] at hp
        cases hp
      · obtain rfl := Option.some.inj h
        exact .inl rfl
  | refused hlive =>
      refine { hi with told := fun _ F hF hl => ?_ }
      obtain rfl := Option.some.inj (hear.symm.trans hF)
      exact absurd hl hlive
  | told hlive hreading =>
      obtain ⟨hunderway, hbacklog⟩ := hidle hlive hreading
      have hwhole := hi.whole E hear hlive
      simp only [hunderway, hbacklog, List.flatten_nil, List.append_nil] at hwhole
      have hone : i.eofs + 1 = 1 := by rw [hnone]
      refine { hi with
        unmade := fun h => ?_
        heard := .inr ⟨hone, hended, hwhole, fun F hF => ?_⟩
        told := fun _ _ _ _ => .inr hone }
      · cases hear.symm.trans h
      · obtain rfl := Option.some.inj (hear.symm.trans hF)
        exact hpending

/-- A packet comes up while no frame is at work on the stream. -/
theorem note (hi : i.Holds []) {p : Packet} (hear : i.ear = some E) (hduties : i.duties = [])
    (hfirst : p.kind = .data → ¬ i.Ended)
    (hwhole : E.Live → i.handed ++ loose ++ E.backlog.flatten = streamBytes i.arrived ++ p.bytes) :
    (i.note p).Holds loose := by
  have hno : ∀ {d}, d ∉ i.duties := fun h => by
    rw [hduties] at h
    cases h
  have hended : i.Ended → (i.note p).Ended := fun ⟨q, hq, hkind⟩ =>
    ⟨q, List.mem_append_left _ hq, hkind⟩
  have hbytes : i.Ended → p.bytes = [] := fun h => Packet.bytes_of_ne fun hkind => hfirst hkind h
  have harrived : streamBytes (i.note p).arrived = streamBytes i.arrived ++ p.bytes := by
    simp only [Intake.note, streamBytes_append, streamBytes_singleton]
  refine { hi with
    unmade := fun h => ?_
    opening := fun h => absurd h hno
    whole := fun F hF hl => ?_
    part := ?_
    pending := fun F hF hp => hended (hi.pending F hF hp)
    heard := hi.heard.imp_right fun ⟨hone, hend, hall, hE⟩ => ⟨hone, hended hend, ?_, hE⟩ }
  · cases hear.symm.trans h
  · obtain rfl := Option.some.inj (hear.symm.trans hF)
    rw [harrived, ← hwhole hl]
    simp only [Intake.note, hduties, underway_nil, List.append_nil]
  · rw [harrived]
    exact hi.part.trans (List.prefix_append _ _)
  · rw [harrived, hbytes hend, List.append_nil]
    exact hall

/-- A frame has nothing left to do. -/
theorem drop (hi : i.Holds []) {d : Duty} (hduty : i.duties = d :: rest)
    (hdrop : i.MayDrop rest d) : ({ i with duties := rest } : Intake).Holds [] := by
  have hidle := hi.tidy d rest hduty
  have hmem : ∀ {e}, e ∈ rest → e ∈ i.duties := fun h => hduty ▸ List.mem_cons_of_mem _ h
  have hopening : .opening ∉ rest := fun h => by
    obtain ⟨honly, -⟩ := hi.opening (hmem h)
    obtain ⟨-, rfl⟩ := List.cons.inj (hduty.symm.trans honly)
    cases h
  have hpart : i.handed ++ underway rest <+: streamBytes i.arrived := by
    rw [hidle, List.append_nil]
    exact (List.prefix_append _ _).trans hi.part
  refine { hi with
    unmade := fun h => ?_
    tidy := fun e es h => ?_
    opening := fun h => absurd h hopening
    draining := fun h => hi.draining (hmem h)
    whole := fun E hE hl => ?_
    part := hpart
    drains := fun E hE hl hp h => ?_ }
  · cases hduty.symm.trans (hi.unmade h).1
  · obtain rfl : rest = e :: es := h
    rw [underway_cons] at hidle
    exact (List.append_eq_nil_iff.mp hidle).2
  · have hwhole := hi.whole E hE hl
    cases d with
    | feeding view =>
        obtain rfl : view = [] := hdrop.resolve_right fun hdead => hdead E hE hl
        simpa only [hduty, underway_cons, Duty.bytes, List.nil_append] using hwhole
    | _ => simpa only [hduty, underway_cons, Duty.bytes, List.nil_append] using hwhole
  · have hstill := hi.drains E hE hl hp h
    rw [hduty] at hstill
    rcases List.mem_cons.mp hstill with heq | hstill
    · rw [← heq] at hdrop
      rcases hdrop E hE hl hp with ⟨hbacklog, hpending⟩ | hrest
      · rcases h with h | h
        · exact absurd hbacklog h
        · rw [hpending] at h
          cases h
      · exact hrest
    · exact hstill

end Holds

namespace Sound

variable {i i' : Intake} {E : Ear} {rest : List Duty}

theorem empty : Sound ⟨none, [], [], [], 0⟩ where
  toHolds := .empty
  told _ _ h := by cases h

/-- What is loose leaves no trace in what the protocol was told. -/
theorem give {data : Bytes} (hi : i.Holds data)
    (htold : i.Ended → ∀ E, i.ear = some E → E.Live → E.eofPending = true ∨ i.eofs = 1)
    (hear : i.ear = some E) (hopen : E.closed = false) (hidle : underway i.duties = [])
    (hopening : .opening ∉ i.duties) (hgive : Give data E i i') : i'.Sound where
  toHolds := hi.give hear hopen hidle hopening hgive
  told := by cases hgive <;> exact htold

/-- A packet joins the backlog. -/
theorem queue (hi : i.Sound) {p : Packet} (hear : i.ear = some E) (hduties : i.duties = [])
    (hkind : p.kind = .data) (hfirst : ¬ i.Ended) (hpaused : E.paused = true) :
    ((i.note p).hear { E with backlog := E.backlog ++ [p.payload] }).Sound := by
  have hno : ∀ {d}, d ∉ i.duties := fun h => by
    rw [hduties] at h
    cases h
  have heofs : i.eofs = 0 := hi.heard.resolve_right fun h => hfirst h.2.1
  have hended : ¬ (i.note p).Ended := not_ended_note hkind hfirst
  have harrived : streamBytes (i.note p).arrived = streamBytes i.arrived ++ p.payload := by
    simp only [note, streamBytes_append, streamBytes_singleton, Packet.bytes_of_data hkind]
  refine { hi with
    unmade := fun h => ?_
    mute := fun F h => ?_
    begun := fun F h => ?_
    opening := fun h => absurd h hno
    draining := fun h => absurd h hno
    whole := fun F h hl => ?_
    part := ?_
    drains := fun F h hl hp => ?_
    pending := fun F h hp => ?_
    heard := .inl heofs
    told := fun h => absurd h hended }
  · cases h
  · obtain rfl := Option.some.inj h
    exact hi.mute E hear
  · obtain rfl := Option.some.inj h
    exact hi.begun E hear
  · obtain rfl := Option.some.inj h
    have hwhole := hi.whole E hear hl
    change i.handed ++ underway i.duties ++ [] ++ (E.backlog ++ [p.payload]).flatten =
      streamBytes (i.note p).arrived
    rw [harrived, ← hwhole]
    simp only [List.flatten_append, List.flatten_cons, List.flatten_nil, List.append_nil,
      List.append_assoc]
  · change _ <+: streamBytes (i.note p).arrived
    rw [harrived]
    exact hi.part.trans (List.prefix_append _ _)
  · obtain rfl := Option.some.inj h
    cases hpaused.symm.trans hp
  · obtain rfl := Option.some.inj h
    exact absurd (hi.pending E hear hp) hfirst

/-- Nobody waits for the protocol while a frame does something else. -/
theorem not_opening (hi : i.Sound) {d : Duty} (hduty : i.duties = d :: rest)
    (hd : d ≠ .opening) : .opening ∉ i.duties := by
  intro h
  have honly := (hi.opening h).1
  exact hd (List.cons.inj (hduty.symm.trans honly)).1

/-- Nothing is parked while nobody is at work on it. -/
theorem backlog_eq_nil (hi : i.Sound) (hear : i.ear = some E) (hl : E.Live)
    (hreading : E.paused = false) (hno : .draining ∉ i.duties) : E.backlog = [] := by
  refine Classical.not_not.mp fun h => ?_
  exact hno (hi.drains E hear hl hreading (.inl h))

/-- Every move keeps an intake sound. -/
theorem move (hi : i.Sound) (hmove : Move i i') : i'.Sound := by
  cases hmove with
  | @made hnone ps hfirst =>
      obtain ⟨hduties, -, hhanded, heofs⟩ := hi.unmade hnone
      have hbytes : streamBytes ps = [] := List.flatMap_eq_nil_iff.mpr fun p hp =>
        Packet.bytes_of_ne (hfirst p hp).1
      have hended : ¬ ∃ p ∈ ps, p.kind = .fin := fun ⟨p, hp, hkind⟩ => (hfirst p hp).2 hkind
      refine ⟨⟨fun h => ?_, fun d ds h => ?_, fun F h _ => ?_, fun F h hb => ?_, fun _ => ?_,
        fun h => ?_, fun F h hl => ?_, ?_, fun F h hl => ?_, fun F h hp => ?_, .inl heofs⟩,
        fun h => absurd h hended⟩
      · cases h
      · obtain ⟨-, rfl⟩ := List.cons.inj h
        rw [hduties]
        rfl
      · obtain rfl := Option.some.inj h
        rfl
      · obtain rfl := Option.some.inj h
        cases hb
      · refine ⟨congrArg _ hduties, hbytes, hended, hhanded, fun F h => ?_⟩
        obtain rfl := Option.some.inj h
        exact ⟨rfl, rfl, rfl⟩
      · rw [hduties] at h
        cases List.mem_singleton.mp h
      · obtain rfl := Option.some.inj h
        cases hl.2
      · simp only [hduties, hhanded, underway_cons, Duty.bytes, underway_nil, List.append_nil]
        exact List.nil_prefix
      · obtain rfl := Option.some.inj h
        cases hl.2
      · obtain rfl := Option.some.inj h
        cases hp
  | @began E rest hear hduty buffered =>
      obtain ⟨honly, harrived, hended, hhanded, hE⟩ := hi.opening (hduty ▸ List.mem_cons_self)
      obtain ⟨-, rfl⟩ := List.cons.inj (hduty.symm.trans honly)
      obtain ⟨-, hbacklog, hpending⟩ := hE E hear
      refine { hi with
        unmade := fun h => ?_
        tidy := fun d ds h => ?_
        mute := fun F h hr => ?_
        begun := fun F h _ _ => ?_
        opening := fun h => absurd h List.not_mem_nil
        draining := fun h => absurd h List.not_mem_nil
        whole := fun F h _ => ?_
        part := ?_
        drains := fun F h _ _ hsome => ?_
        pending := fun F h hp => ?_
        heard := .inl (hi.heard.resolve_right fun h => hended h.2.1)
        told := fun h => absurd h hended }
      · cases h
      · cases h
      · obtain rfl := Option.some.inj h
        cases hr
      · obtain rfl := Option.some.inj h
        rfl
      · obtain rfl := Option.some.inj h
        simp only [hhanded, hbacklog, harrived, underway_nil, List.flatten_nil, List.append_nil]
      · simp only [hhanded, underway_nil, List.append_nil]
        exact List.nil_prefix
      · obtain rfl := Option.some.inj h
        rcases hsome with h | h
        · exact absurd hbacklog h
        · cases hpending.symm.trans h
      · obtain rfl := Option.some.inj h
        cases hpending.symm.trans hp
  | @adopted E hear hbegun buffered =>
      have hready : E.closed = false → E.ready = true := hi.begun E hear hbegun
      refine ⟨hi.toHolds.hear hear rfl rfl id (fun hl => ⟨hl.1, hready hl.1⟩) id
        (fun h => by cases h) fun _ _ => rfl, fun hended F hF hl => ?_⟩
      obtain rfl := Option.some.inj hF
      exact hi.told hended E hear ⟨hl.1, hready hl.1⟩
  | @shut E hear =>
      refine ⟨hi.toHolds.hear hear rfl rfl id (fun hl => by cases hl.1) id (fun _ => rfl)
        (fun _ h => by cases h), fun _ F hF hl => ?_⟩
      obtain rfl := Option.some.inj hF
      cases hl.1
  | @paused E hear =>
      refine ⟨hi.toHolds.hear hear rfl rfl id id (fun h => by cases h) (hi.mute E hear)
        (hi.begun E hear), fun hended F hF hl => ?_⟩
      obtain rfl := Option.some.inj hF
      exact hi.told hended E hear hl
  | @resumed E hear hbegun hidle =>
      have hopening : .opening ∉ i.duties := fun h => by
        have hfresh := ((hi.opening h).2.2.2.2 E hear).1
        cases hbegun.symm.trans hfresh
      refine { hi with
        unmade := fun h => ?_
        tidy := fun d ds h => ?_
        mute := fun F h => ?_
        begun := fun F h => ?_
        opening := fun h => ?_
        draining := fun _ F h => ?_
        whole := fun F h hl => ?_
        part := hi.part
        drains := fun F h _ _ _ => List.mem_cons_self
        pending := fun F h => ?_
        heard := hi.heard.imp_right fun ⟨hone, hended, hall, hE⟩ =>
          ⟨hone, hended, hall, fun F h => by
            obtain rfl := Option.some.inj h
            exact hE E hear⟩
        told := fun hended F h hl => ?_ }
      · cases h
      · obtain ⟨-, rfl⟩ := List.cons.inj h
        exact hidle
      · obtain rfl := Option.some.inj h
        exact hi.mute E hear
      · obtain rfl := Option.some.inj h
        exact hi.begun E hear
      · rcases List.mem_cons.mp h with h | h
        · cases h
        · exact absurd h hopening
      · obtain rfl := Option.some.inj h
        exact hbegun
      · obtain rfl := Option.some.inj h
        exact hi.whole E hear hl
      · obtain rfl := Option.some.inj h
        exact hi.pending E hear
      · obtain rfl := Option.some.inj h
        exact hi.told hended E hear hl
  | @reopened E hear hbacklog hpending =>
      refine { hi with
        unmade := fun h => ?_
        mute := fun F h => ?_
        begun := fun F h => ?_
        opening := fun h => ?_
        draining := fun h F hF => ?_
        whole := fun F h hl => ?_
        drains := fun F h _ _ hsome => ?_
        pending := fun F h => ?_
        heard := hi.heard.imp_right fun ⟨hone, hended, hall, hE⟩ =>
          ⟨hone, hended, hall, fun F h => by
            obtain rfl := Option.some.inj h
            exact hE E hear⟩
        told := fun hended F h hl => ?_ }
      · cases h
      · obtain rfl := Option.some.inj h
        exact hi.mute E hear
      · obtain rfl := Option.some.inj h
        exact hi.begun E hear
      · obtain ⟨hduties, harrived, hended, hhanded, hE⟩ := hi.opening h
        refine ⟨hduties, harrived, hended, hhanded, fun F h => ?_⟩
        obtain rfl := Option.some.inj h
        exact hE E hear
      · obtain rfl := Option.some.inj hF
        exact hi.draining h E hear
      · obtain rfl := Option.some.inj h
        exact hi.whole E hear hl
      · obtain rfl := Option.some.inj h
        rcases hsome with h | h
        · exact absurd hbacklog h
        · cases hpending.symm.trans h
      · obtain rfl := Option.some.inj h
        exact hi.pending E hear
      · obtain rfl := Option.some.inj h
        exact hi.told hended E hear hl
  | @ignored E p hear hduties hfirst hdeaf =>
      refine ⟨hi.toHolds.note hear hduties hfirst fun hl => ?_, fun hended F hF hl => ?_⟩
      · have hother : p.kind ≠ .data := fun h => hdeaf (.inl h) hl
        have hwhole := hi.whole E hear hl
        rw [hduties, underway_nil, List.append_nil] at hwhole
        rw [hwhole, Packet.bytes_of_ne hother, List.append_nil]
      · obtain rfl := Option.some.inj (hear.symm.trans hF)
        obtain ⟨q, hq, hkind⟩ := hended
        rcases List.mem_append.mp hq with hq | hq
        · exact hi.told ⟨q, hq, hkind⟩ E hear hl
        · obtain rfl := List.mem_singleton.mp hq
          exact absurd hl (hdeaf (.inr hkind))
  | @queued E p hear hduties hkind hfirst hpaused =>
      exact hi.queue hear hduties hkind hfirst hpaused
  | @data E p _ hear hduties hkind hfirst hopen hreading hgive =>
      have hended : ¬ (i.note p).Ended := not_ended_note hkind hfirst
      have hnote : (i.note p).Holds p.payload :=
        hi.toHolds.note hear hduties (fun _ => hfirst) fun hl => by
          have hbacklog := hi.backlog_eq_nil hear hl hreading (hduties ▸ List.not_mem_nil)
          have hwhole := hi.whole E hear hl
          rw [hduties, hbacklog] at hwhole
          simp only [underway_nil, List.flatten_nil, List.append_nil] at hwhole
          rw [hbacklog, hwhole, Packet.bytes_of_data hkind, List.flatten_nil, List.append_nil]
      refine .give hnote (fun h => absurd h hended) hear hopen ?_ ?_ hgive
      · exact congrArg underway hduties
      · exact fun h => absurd (hduties ▸ h) List.not_mem_nil
  | @fin E p _ hear hduties hkind hfirst htell =>
      have hother : p.kind ≠ .data := by
        rw [hkind]
        decide
      have hnote : (i.note p).Holds [] :=
        hi.toHolds.note hear hduties (fun h => absurd h hother) fun hl => by
          have hwhole := hi.whole E hear hl
          rw [hduties, underway_nil, List.append_nil] at hwhole
          rw [hwhole, Packet.bytes_of_ne hother, List.append_nil]
      refine hnote.tell hear ⟨p, List.mem_append_right _ (List.mem_singleton.mpr rfl), hkind⟩
        (hi.heard.resolve_right fun h => hfirst h.2.1)
        (Bool.eq_false_iff.mpr fun h => hfirst (hi.pending E hear h)) (fun hl hreading => ?_) htell
      refine ⟨congrArg underway hduties, ?_⟩
      exact hi.backlog_eq_nil hear hl hreading (hduties ▸ List.not_mem_nil)
  | @drained E rest chunk chunks _ hear hduty hopen hreading hbacklog hgive =>
      have hopening : .opening ∉ i.duties := hi.not_opening hduty (by decide)
      have hidle : underway i.duties = [] := by
        rw [hduty, underway_cons, hi.tidy _ _ hduty]
        rfl
      have hloose : (i.hear { E with backlog := chunks }).Holds chunk := by
        refine { hi with
          unmade := fun h => ?_
          mute := fun F h => ?_
          begun := fun F h => ?_
          opening := fun h => absurd h hopening
          draining := fun h F hF => ?_
          whole := fun F h hl => ?_
          drains := fun F h _ _ _ => ?_
          pending := fun F h hp => ?_
          heard := hi.heard.imp_right fun ⟨hone, hended, hall, hE⟩ =>
            ⟨hone, hended, hall, fun F h => ?_⟩ }
        · cases h
        · obtain rfl := Option.some.inj h
          exact hi.mute E hear
        · obtain rfl := Option.some.inj h
          exact hi.begun E hear
        · obtain rfl := Option.some.inj hF
          exact hi.draining h E hear
        · obtain rfl := Option.some.inj h
          have hwhole := hi.whole E hear hl
          change i.handed ++ underway i.duties ++ chunk ++ chunks.flatten = streamBytes i.arrived
          rw [← hwhole, hbacklog]
          simp only [List.flatten_cons, List.append_nil, List.append_assoc]
        · exact hduty ▸ List.mem_cons_self
        · obtain rfl := Option.some.inj h
          exact hi.pending E hear hp
        · obtain rfl := Option.some.inj h
          exact hE E hear
      refine .give hloose (fun hended F hF hl => ?_) rfl hopen hidle hopening hgive
      obtain rfl := Option.some.inj hF
      exact hi.told hended E hear hl
  | @concluded E rest _ hear hduty hopen hreading hbacklog heof htell =>
      have hended := hi.pending E hear heof
      have hnone : i.eofs = 0 := hi.heard.resolve_right fun h => by
        cases heof.symm.trans (h.2.2.2 E hear)
      have hquiet : (i.hear { E with eofPending := false }).Holds [] :=
        hi.toHolds.hear hear rfl rfl (fun h => by cases h) id id (hi.mute E hear) (hi.begun E hear)
      have hdrop := hquiet.drop hduty fun F hF _ _ => by
        obtain rfl := Option.some.inj hF
        exact .inl ⟨hbacklog, rfl⟩
      refine hdrop.tell rfl hended hnone rfl (fun _ _ => ⟨hi.tidy _ _ hduty, hbacklog⟩) htell
  | @fed view rest hduty taken =>
      have hidle := hi.tidy _ _ hduty
      have hopening : .opening ∉ i.duties := hi.not_opening hduty fun h => by cases h
      have hsplit : ∀ b : Bytes,
          i.handed ++ view.take taken ++ underway (.feeding (view.drop taken) :: rest) ++ b =
            i.handed ++ underway i.duties ++ b := by
        intro b
        simp only [hduty, underway_cons, Duty.bytes, List.append_assoc]
        rw [← List.append_assoc (view.take taken), List.take_append_drop]
      have hpart := hi.part
      have hsame := hsplit []
      simp only [List.append_nil] at hsame
      refine { hi with
        unmade := fun h => ?_
        tidy := fun d ds h => ?_
        opening := fun h => ?_
        draining := fun h => ?_
        whole := fun F hF hl => ?_
        part := ?_
        drains := fun F hF hl hp h => ?_
        heard := hi.heard.imp_right fun ⟨hone, hended, hall, hE⟩ => ⟨hone, hended, ?_, hE⟩ }
      · cases hduty.symm.trans (hi.unmade h).1
      · obtain ⟨-, rfl⟩ := List.cons.inj h
        exact hidle
      · rcases List.mem_cons.mp h with h | h
        · cases h
        · exact absurd (hduty ▸ List.mem_cons_of_mem _ h) hopening
      · rcases List.mem_cons.mp h with h | h
        · cases h
        · exact hi.draining (hduty ▸ List.mem_cons_of_mem _ h)
      · have hwhole := hi.whole F hF hl
        rw [List.append_assoc] at hwhole ⊢
        rw [hsplit]
        exact hwhole
      · rw [hsame]
        exact hpart
      · have hstill := hi.drains F hF hl hp h
        rw [hduty] at hstill
        rcases List.mem_cons.mp hstill with h | h
        · cases h
        · exact List.mem_cons_of_mem _ h
      · have hview : underway i.duties = [] := hi.handed_eq hone hpart
        rw [hduty, underway_cons, hidle, List.append_nil] at hview
        have hnil : view = [] := hview
        rw [hnil, List.take_nil, List.append_nil]
        exact hall
  | @dropped d rest hduty hdrop =>
      exact ⟨hi.toHolds.drop hduty hdrop, hi.told⟩

/-- So does every number of them. -/
theorem moves (hi : i.Sound) (hmoves : Moves i i') : i'.Sound := by
  induction hmoves with
  | refl => exact hi
  | tail _ hmove ih => exact ih.move hmove

end Sound

end Intake

end SimLoop.Net
