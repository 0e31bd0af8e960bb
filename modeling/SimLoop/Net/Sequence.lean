/-
  Net/Sequence.lean --- what comes in which order in one direction of a connection.

  The packets that were dispatched in a direction are the first ones that were made in it.
  An end makes handshakes before anything else, and neither data nor another end of the
  stream once it has ended it.
-/
import SimLoop.Net.Intake
import SimLoop.Net.Stack
import SimLoop.Net.Wired

set_option autoImplicit false

namespace SimLoop.Net

open SimLoop.Foundation

/-! ## Dispatched packets -/

namespace Wiring

variable {w w' : Wiring} {k : Key} {q : InOrder} {p : Packet}

/-- The packets of a direction that were dispatched. -/
def taken (w : Wiring) (k : Key) : List Packet := (w.on k).take (w.next k)

theorem taken_begins (w : Wiring) (k : Key) : w.taken k <+: w.on k := List.take_prefix _ _

theorem Wired.next_le (hw : w.Wired) (k : Key) : w.next k ≤ (w.on k).length := by
  unfold next
  cases hq : w.inbound.get? k with
  | none => exact Nat.zero_le _
  | some q => exact (hw.queues k q hq).1

theorem on_extends (hsent : w.sent <+: w'.sent) (k : Key) : w.on k <+: w'.on k :=
  hsent.filter _

/-- No packet that is made later comes before what was dispatched. -/
theorem taken_of_sent (hw : w.Wired) (hsent : w.sent <+: w'.sent) (hnext : w'.next k = w.next k) :
    w'.taken k = w.taken k := by
  obtain ⟨l, hl⟩ := on_extends hsent k
  rw [taken, taken, hnext, ← hl, List.take_append_of_le_length (hw.next_le k)]

/-- The packet that is next is the next one that was made. -/
theorem Wired.on_next (hw : w.Wired) (h : w.Ready k q p) : (w.on k)[w.next k]? = some p := by
  obtain ⟨hmem, hseq, -⟩ := hw.ready h
  obtain ⟨i, hi⟩ := List.mem_iff_getElem?.mp hmem
  rw [h.next, ← hseq, hw.numbered k i p hi]
  exact hi

theorem taken_take (hw : w.Wired) (h : w.Ready k q p) (k' : Key) :
    (w.take k q).taken k' = if k = k' then w.taken k' ++ [p] else w.taken k' := by
  simp only [taken, on_take, next_take]
  split
  · rename_i hk
    subst hk
    rw [← h.next, List.take_add_one, hw.on_next h]
    rfl
  · rfl

theorem Move.sent_extends (h : Move w w') : w.sent <+: w'.sent := by
  cases h with
  | datagram _ => exact List.prefix_append _ _
  | opened _ _ _ _ => exact List.prefix_append _ _
  | sent _ _ _ _ _ _ => exact List.prefix_append _ _
  | heard _ _ _ => exact List.prefix_append _ _
  | unheard _ _ _ => exact List.prefix_append _ _
  | _ => exact List.prefix_refl _

theorem Moves.sent_extends (h : Moves w w') : w.sent <+: w'.sent := by
  induction h with
  | refl => exact List.prefix_refl _
  | tail _ hmove ih => exact ih.trans hmove.sent_extends

/-- An accept is the first packet of its direction, and only the syn was made in the other. -/
theorem Wired.accept_first (hw : w.Wired) (h : w.Ready k q p) (hkind : p.kind = .accept) :
    ∃ r, w.routes[p.conn]? = some r ∧ k = (p.conn, r.1) ∧ w.next k = 0 ∧
      (w.on (p.conn, r.2)).length = 1 := by
  obtain ⟨hmem, hseq, -⟩ := hw.ready h
  obtain ⟨hsent, hstream, hkey⟩ := mem_on.mp hmem
  obtain ⟨r, hr, hfits⟩ := hw.fitting p hsent hstream
  obtain ⟨hzero, -, htarget⟩ := hfits.accept hkind
  have hk : k = (p.conn, r.1) := by rw [← hkey, p.key_eq, htarget]
  have hnext : w.next k = 0 := by rw [h.next, ← hseq, hzero]
  exact ⟨r, hr, hk, hnext, hw.unanswered _ r hr fun e he => hk ▸ hw.none_of_next_eq_zero hnext e he⟩

end Wiring

/-! ## The order within a direction -/

namespace Switchboard

variable {A : Occasion → Prop} {w w' : Switchboard}

/-- Handshakes come first in a direction and the end of the stream after all data; the
registry knows every transport under its own key. -/
structure Ordered (w : Switchboard) : Prop where
  placed : ∀ k t, w.streams.get? k = some t → ∃ T, w.transports[t]? = some T ∧ T.key = k
  counting : ∀ T ∈ w.transports, T.outSeq ≠ 0
  first : ∀ p ∈ w.traffic.sent, p.seq = 0 → p.kind ≠ .data ∧ p.kind ≠ .fin
  unended : ∀ T ∈ w.transports, T.eofSent = false → ∀ p ∈ w.wiring.on T.outKey, p.kind ≠ .fin
  ended : ∀ T ∈ w.transports, T.eofSent = true → ∃ p ∈ w.wiring.on T.outKey, p.kind = .fin
  lastly : ∀ k, (w.wiring.on k).Pairwise fun p x =>
    p.kind = .fin → x.kind ≠ .data ∧ x.kind ≠ .fin

namespace Ordered

/-- Transports that are still at the same place and have sent the same. -/
theorem of_same (hw : w.Ordered) (hstreams : w'.streams = w.streams)
    (hsent : w'.traffic.sent = w.traffic.sent)
    (hlength : w'.transports.length = w.transports.length)
    (htransports : ∀ (t : Nat) (T' : StreamTransport), w'.transports[t]? = some T' →
      ∃ T, w.transports[t]? = some T ∧ T'.key = T.key ∧ T'.outKey = T.outKey ∧
        T'.outSeq = T.outSeq ∧ T'.eofSent = T.eofSent) :
    w'.Ordered := by
  have hon : ∀ k, w'.wiring.on k = w.wiring.on k := fun k =>
    congrArg (List.filter (Packet.travels k)) hsent
  have hmem : ∀ T' ∈ w'.transports, ∃ T ∈ w.transports,
      T'.outKey = T.outKey ∧ T'.outSeq = T.outSeq ∧ T'.eofSent = T.eofSent := by
    intro T' hT'
    obtain ⟨t, ht⟩ := List.mem_iff_getElem?.mp hT'
    obtain ⟨T, hT, -, hrest⟩ := htransports t T' ht
    exact ⟨T, List.mem_of_getElem? hT, hrest⟩
  refine ⟨fun k t hk => ?_, fun T' hT' => ?_, ?_, fun T' hT' heof => ?_, fun T' hT' heof => ?_,
    fun k => ?_⟩
  · rw [hstreams] at hk
    obtain ⟨T, hT, hkey⟩ := hw.placed k t hk
    have hlt : t < w'.transports.length := hlength ▸ (List.getElem?_eq_some_iff.mp hT).1
    obtain ⟨U, hU, hsame, -⟩ := htransports t _ (List.getElem?_eq_getElem hlt)
    obtain rfl := Option.some.inj (hT.symm.trans hU)
    exact ⟨_, List.getElem?_eq_getElem hlt, hsame.trans hkey⟩
  · obtain ⟨T, hT, -, hseq, -⟩ := hmem T' hT'
    rw [hseq]
    exact hw.counting T hT
  · rw [hsent]
    exact hw.first
  · obtain ⟨T, hT, hkey, -, hflag⟩ := hmem T' hT'
    rw [hon, hkey]
    exact hw.unended T hT (hflag ▸ heof)
  · obtain ⟨T, hT, hkey, -, hflag⟩ := hmem T' hT'
    rw [hon, hkey]
    exact hw.ended T hT (hflag ▸ heof)
  · rw [hon]
    exact hw.lastly k

theorem still (hw : w.Ordered) (hstreams : w'.streams = w.streams)
    (hsent : w'.traffic.sent = w.traffic.sent) (htransports : w'.transports = w.transports) :
    w'.Ordered := by
  refine hw.of_same hstreams hsent (congrArg List.length htransports) fun t T' h => ?_
  rw [htransports] at h
  exact ⟨T', h, rfl, rfl, rfl, rfl⟩

theorem modify (hw : w.Ordered) (t : Nat) {f : StreamTransport → StreamTransport}
    (hf : ∀ T, (f T).key = T.key ∧ (f T).outKey = T.outKey ∧ (f T).outSeq = T.outSeq ∧
      (f T).eofSent = T.eofSent) : (w.modify t f).Ordered := by
  refine hw.of_same rfl rfl (List.length_modify _ _ _) fun u T' h => ?_
  simp only [Switchboard.modify, List.getElem?_modify] at h
  obtain ⟨T, hT, rfl⟩ := Option.map_eq_some_iff.mp h
  refine ⟨T, hT, ?_⟩
  split
  · exact hf T
  · exact ⟨rfl, rfl, rfl, rfl⟩

/-- What a direction looks like when a packet was made. -/
theorem mem_on_post {wires : Wiring} {p x : Packet} {k : Key} (hx : x ∈ (wires.post p).on k) :
    x ∈ wires.on k ∨ x = p ∧ p.key = k := by
  obtain ⟨hmem, hkind, hkey⟩ := Wiring.mem_on.mp hx
  rcases List.mem_append.mp hmem with h | h
  · exact .inl (Wiring.mem_on.mpr ⟨h, hkind, hkey⟩)
  · obtain rfl := List.mem_singleton.mp h
    exact .inr ⟨rfl, hkey⟩

theorem wiring_posted {p : Packet} {tr : Traffic} (hpost : Traffic.Posted p w.traffic tr) :
    ({ w with traffic := tr } : Switchboard).wiring = w.wiring.post p := by
  simp only [wiring, Wiring.post, hpost.sent]

/-- A packet of the stream is made only while the end of the stream has not been. -/
theorem lastly_post (hw : w.Ordered) {p : Packet}
    (hopen : p.kind = .data ∨ p.kind = .fin → ∀ x ∈ w.wiring.on p.key, x.kind ≠ .fin) (k : Key) :
    ((w.wiring.post p).on k).Pairwise fun p x =>
      p.kind = .fin → x.kind ≠ .data ∧ x.kind ≠ .fin := by
  cases hdgram : decide (p.kind = .dgram) with
  | true =>
      rw [Wiring.on_post_of_dgram (of_decide_eq_true hdgram)]
      exact hw.lastly k
  | false =>
      rw [Wiring.on_post (of_decide_eq_false hdgram)]
      split
      · rename_i hk
        subst hk
        refine List.pairwise_append.mpr ⟨hw.lastly _, List.pairwise_singleton _ _, ?_⟩
        intro x hx y hy hfin
        obtain rfl := List.mem_singleton.mp hy
        refine ⟨fun h => ?_, fun h => ?_⟩
        · exact hopen (.inl h) x hx hfin
        · exact hopen (.inr h) x hx hfin
      · exact hw.lastly k

/-- A packet is made that neither carries data nor ends the stream. -/
theorem posted (hw : w.Ordered) {p : Packet} {tr : Traffic} (hkind : p.kind ≠ .data ∧ p.kind ≠ .fin)
    (hpost : Traffic.Posted p w.traffic tr) : ({ w with traffic := tr } : Switchboard).Ordered := by
  refine ⟨hw.placed, hw.counting, fun x hx hseq => ?_, fun T hT heof x hx => ?_,
    fun T hT heof => ?_, fun k => ?_⟩
  · rw [show tr.sent = _ from hpost.sent] at hx
    rcases List.mem_append.mp hx with hx | hx
    · exact hw.first x hx hseq
    · rw [List.mem_singleton.mp hx]
      exact hkind
  · rw [wiring_posted hpost] at hx
    rcases mem_on_post hx with hx | ⟨rfl, -⟩
    · exact hw.unended T hT heof x hx
    · exact hkind.2
  · obtain ⟨x, hx, hfin⟩ := hw.ended T hT heof
    rw [wiring_posted hpost]
    exact ⟨x, Wiring.on_subset_post _ _ _ hx, hfin⟩
  · rw [wiring_posted hpost]
    refine hw.lastly_post (fun h => ?_) k
    exact absurd h (not_or.mpr hkind)

/-- An end makes its next packet, as long as it has not ended the stream. -/
theorem sent (hw : w.Ordered) (hwired : w.wiring.Wired) {t : Nat} {T : StreamTransport}
    {kind : PacketKind} {payload : Bytes} {tr : Traffic} (hT : w.transports[t]? = some T)
    (hkind : kind = .data ∨ kind = .fin ∨ kind = .rst) (heof : kind ≠ .rst → T.eofSent = false)
    (hpost : Traffic.Posted (T.packet kind payload w.traffic.nextUid) w.traffic tr) :
    ({ w.modify t (.posted kind) with traffic := tr } : Switchboard).Ordered := by
  have hmem := List.mem_of_getElem? hT
  have hkey : (T.packet kind payload w.traffic.nextUid).key = T.outKey := rfl
  have hwiring : ({ w.modify t (.posted kind) with traffic := tr } : Switchboard).wiring.sent =
      (w.wiring.post (T.packet kind payload w.traffic.nextUid)).sent := hpost.sent
  have hon : ∀ k, ({ w.modify t (.posted kind) with traffic := tr } : Switchboard).wiring.on k =
      (w.wiring.post (T.packet kind payload w.traffic.nextUid)).on k := fun k =>
    congrArg (List.filter (Packet.travels k)) hwiring
  have hcases : ∀ {u : Nat} {U' : StreamTransport},
      (w.transports.modify t (.posted kind))[u]? = some U' →
      ∃ U, w.transports[u]? = some U ∧ U' = if t = u then U.posted kind else U := by
    intro u U' h
    rw [List.getElem?_modify] at h
    obtain ⟨U, hU, rfl⟩ := Option.map_eq_some_iff.mp h
    refine ⟨U, hU, ?_⟩
    split <;> rfl
  refine ⟨fun k u hk => ?_, fun U' hU' => ?_, fun x hx hseq => ?_, fun U' hU' hflag x hx => ?_,
    fun U' hU' hflag => ?_, fun k => ?_⟩
  · obtain ⟨U, hU, hplace⟩ := hw.placed k u hk
    refine ⟨if t = u then U.posted kind else U, ?_, ?_⟩
    · show (w.transports.modify t (.posted kind))[u]? = _
      rw [List.getElem?_modify, hU]
      split <;> rfl
    · rw [← hplace]
      split <;> rfl
  · obtain ⟨u, hu⟩ := List.mem_iff_getElem?.mp hU'
    obtain ⟨U, hU, rfl⟩ := hcases hu
    split
    · exact Nat.succ_ne_zero _
    · exact hw.counting U (List.mem_of_getElem? hU)
  · rw [show tr.sent = _ from hpost.sent] at hx
    rcases List.mem_append.mp hx with hx | hx
    · exact hw.first x hx hseq
    · rw [List.mem_singleton.mp hx] at hseq
      exact absurd hseq (hw.counting T hmem)
  · obtain ⟨u, hu⟩ := List.mem_iff_getElem?.mp hU'
    obtain ⟨U, hU, rfl⟩ := hcases hu
    rw [hon] at hx
    split at hflag <;> rename_i htu
    · subst htu
      obtain rfl := Option.some.inj (hT.symm.trans hU)
      obtain ⟨hopen, hnot⟩ := Bool.or_eq_false_iff.mp hflag
      rw [if_pos rfl] at hx
      rcases mem_on_post hx with hx | ⟨rfl, -⟩
      · exact hw.unended T hmem hopen x hx
      · exact of_decide_eq_false hnot
    · rw [if_neg htu] at hx
      rcases mem_on_post hx with hx | ⟨rfl, hsame⟩
      · exact hw.unended U (List.mem_of_getElem? hU) hflag x hx
      · refine absurd (hwired.eq_of_outKey (ends_of_transports hT) (ends_of_transports hU) ?_) htu
        exact hsame
  · obtain ⟨u, hu⟩ := List.mem_iff_getElem?.mp hU'
    obtain ⟨U, hU, rfl⟩ := hcases hu
    rw [hon]
    have hstill : U.eofSent = true →
        ∃ x ∈ (w.wiring.post (T.packet kind payload w.traffic.nextUid)).on U.outKey,
          x.kind = .fin := fun h => by
      obtain ⟨x, hx, hfin⟩ := hw.ended U (List.mem_of_getElem? hU) h
      exact ⟨x, Wiring.on_subset_post _ _ _ hx, hfin⟩
    split at hflag <;> rename_i htu
    · subst htu
      obtain rfl := Option.some.inj (hT.symm.trans hU)
      rw [if_pos rfl]
      rcases Bool.or_eq_true_iff.mp hflag with h | h
      · exact hstill h
      · have hfin := of_decide_eq_true h
        refine ⟨T.packet kind payload w.traffic.nextUid, Wiring.mem_on.mpr ⟨?_, ?_, rfl⟩, hfin⟩
        · exact List.mem_append_right _ (List.mem_singleton.mpr rfl)
        · rw [show (T.packet kind payload w.traffic.nextUid).kind = kind from rfl, hfin]
          decide
    · rw [if_neg htu]
      exact hstill hflag
  · rw [hon]
    refine hw.lastly_post (fun h => ?_) k
    have hnot : kind ≠ .rst := by
      rintro rfl
      rcases h with h | h <;> cases h
    exact hw.unended T hmem (heof hnot)

/-- An end is made at a place where none was, and has made a handshake at most. -/
theorem attach (hw : w.Ordered) {T : StreamTransport} (hseq : T.outSeq ≠ 0)
    (hopen : T.eofSent = false) (hfin : ∀ p ∈ w.wiring.on T.outKey, p.kind ≠ .fin) :
    (w.attach T).Ordered := by
  refine ⟨fun k t hk => ?_, fun U hU => ?_, hw.first, fun U hU heof => ?_, fun U hU heof => ?_,
    hw.lastly⟩
  · have hk' : (w.streams.insert T.key w.transports.length).get? k = some t := hk
    rw [Dict.get?_insert] at hk'
    split at hk'
    · obtain rfl := Option.some.inj hk'
      exact ⟨T, List.getElem?_concat_length, ‹_›⟩
    · obtain ⟨U, hU, hkey⟩ := hw.placed k t hk'
      refine ⟨U, ?_, hkey⟩
      exact (List.getElem?_append_left (List.getElem?_eq_some_iff.mp hU).1).trans hU
  · rcases List.mem_append.mp hU with hU | hU
    · exact hw.counting U hU
    · rw [List.mem_singleton.mp hU]
      exact hseq
  · rcases List.mem_append.mp hU with hU | hU
    · exact hw.unended U hU heof
    · rw [List.mem_singleton.mp hU]
      exact hfin
  · rcases List.mem_append.mp hU with hU | hU
    · exact hw.ended U hU heof
    · rw [List.mem_singleton.mp hU, hopen] at heof
      cases heof

/-- An end is closed and leaves the registry. -/
theorem finish (hw : w.Ordered) (t : Nat) (T : StreamTransport) (exc : Option Exc) :
    (w.finish t T exc).Ordered := by
  have hshut : (w.modify t .finished).Ordered := hw.modify t fun _ => ⟨rfl, rfl, rfl, rfl⟩
  have hgone : ({ w.modify t .finished with streams := w.streams.erase T.key } :
      Switchboard).Ordered := by
    refine { hshut with placed := fun k u hk => hshut.placed k u ?_ }
    rw [Dict.get?_erase] at hk
    split at hk
    · cases hk
    · exact hk
  unfold Switchboard.finish
  cases T.protocol with
  | none => exact hgone
  | some _ => exact hgone.still rfl rfl rfl

/-- The one packet of a direction is a handshake. -/
theorem first_of_single (hw : w.Ordered) (hwired : w.wiring.Wired) {k : Key} {p : Packet}
    (hlength : (w.wiring.on k).length = 1) (hp : p ∈ w.wiring.on k) :
    p.kind ≠ .data ∧ p.kind ≠ .fin := by
  obtain ⟨i, hi⟩ := List.mem_iff_getElem?.mp hp
  have hlt := (List.getElem?_eq_some_iff.mp hi).1
  refine hw.first p (Wiring.mem_on.mp hp).1 ?_
  rw [hwired.numbered k i p hi]
  omega

end Ordered

/-! ### Moves -/

theorem Hand.ordered {t : Nat} {data : Bytes} (h : Hand t data w w') (hw : w.Ordered) :
    w'.Ordered := by
  cases h with
  | unknown _ => exact hw
  | refused _ _ => exact hw
  | whole _ _ _ => exact hw.still rfl rfl rfl
  | parts _ _ => exact hw.still rfl rfl rfl

theorem Ending.ordered {t : Nat} (h : Ending t w w') (hw : w.Ordered) : w'.Ordered := by
  have hgone : (w.modify t .peerGone).Ordered := hw.modify t fun _ => ⟨rfl, rfl, rfl, rfl⟩
  cases h with
  | unknown _ => exact hw
  | late _ _ => exact hgone
  | kept _ _ _ => exact hgone.modify t fun _ => ⟨rfl, rfl, rfl, rfl⟩
  | refused _ _ _ _ => exact hgone
  | told _ _ _ _ => exact hgone.still rfl rfl rfl

theorem Dispatched.ordered {k : Key} {q : InOrder} {p : Packet} (hwired : w.wiring.Wired)
    (hready : w.Ready k q p) (h : Dispatched p (w.take k q) w') (hw : w.Ordered) : w'.Ordered := by
  have hnever : ∀ {kind : PacketKind}, kind = .accept ∨ kind = .refuse →
      kind ≠ .data ∧ kind ≠ .fin := by
    rintro kind (rfl | rfl) <;> decide
  have htaken : (w.take k q).Ordered := hw.still rfl rfl rfl
  cases h with
  | ignored _ _ _ => exact htaken
  | @heard hkind born tr hpost =>
      obtain ⟨r, -, hfits, -, -, hback⟩ := hwired.syn_first hready hkind
      have hposted : ({ w.take k q with traffic := tr } : Switchboard).Ordered :=
        htaken.posted (hnever (.inl rfl)) hpost
      have hattach := hposted.attach (T := .fresh p.conn p.target p.source born) Nat.one_ne_zero
        rfl fun x hx => by
          rw [Ordered.wiring_posted hpost] at hx
          rcases Ordered.mem_on_post hx with hx | ⟨rfl, -⟩
          · obtain ⟨-, hsource, -⟩ := hfits.syn hkind
            have hout : x ∈ w.wiring.on (p.conn, r.1) := hsource ▸ hx
            rw [hback] at hout
            cases hout
          · exact (hnever (.inl rfl)).2
      exact hattach.still rfl rfl rfl
  | unheard _ hpost => exact htaken.posted (hnever (.inr rfl)) hpost
  | late _ _ _ _ => exact htaken.still rfl rfl rfl
  | @accepted x hkind _ hx _ born =>
      obtain ⟨r, hr, -, -, hlength⟩ := hwired.accept_first hready hkind
      have hforgot : ((w.take k q).forget p.conn).Ordered := htaken.still rfl rfl rfl
      have hattach := hforgot.attach (T := .fresh p.conn x.loc x.remote born) Nat.one_ne_zero rfl
        fun y hy => by
          obtain rfl := Option.some.inj ((routes_of_connects (w := w) hx).symm.trans hr)
          have hmem : y ∈ w.wiring.on (p.conn, x.route.2) := hy
          exact (hw.first_of_single hwired hlength hmem).2
      exact hattach.still rfl rfl rfl
  | refused _ _ _ _ e => exact htaken.still rfl rfl rfl
  | @queued t _ _ _ _ _ _ => exact htaken.modify t fun _ => ⟨rfl, rfl, rfl, rfl⟩
  | data _ _ _ _ _ hhand => exact hhand.ordered (htaken.still rfl rfl rfl)
  | fin _ _ hending => exact hending.ordered htaken
  | @rst t T _ _ _ _ exc =>
      have hgone : ((w.take k q).modify t .peerGone).Ordered :=
        htaken.modify t fun _ => ⟨rfl, rfl, rfl, rfl⟩
      exact hgone.finish t T exc
  | @rstLate t _ _ _ _ _ => exact htaken.modify t fun _ => ⟨rfl, rfl, rfl, rfl⟩

/-- Flow control leaves the ends of a connection as they are. -/
theorem Meter.ordered {t : Nat} {T : StreamTransport} {f : StreamTransport → StreamTransport}
    {x : Option Call} (h : Meter A t T f x) (U : StreamTransport) :
    (f U).key = U.key ∧ (f U).outKey = U.outKey ∧ (f U).outSeq = U.outSeq ∧
      (f U).eofSent = U.eofSent := by
  have hkey := congrArg StreamTransport.key (h.core U)
  have hout := congrArg StreamTransport.outKey (h.core U)
  have hseq := congrArg StreamTransport.outSeq (h.core U)
  have heof := congrArg StreamTransport.eofSent (h.core U)
  exact ⟨hkey, hout, hseq, heof⟩

theorem Move.ordered (h : Move A w w') (hwired : w.wiring.Wired) (hw : w.Ordered) : w'.Ordered := by
  have hstill : w'.streams = w.streams → w'.traffic.sent = w.traffic.sent →
      w'.transports = w.transports → w'.Ordered := hw.still
  cases h with
  | @datagram p tr hkind _ _ hpost =>
      refine hw.posted ?_ hpost
      rw [hkind]
      decide
  | sent hT hkind heof _ hpost => exact hw.sent hwired hT hkind heof hpost
  | released hrelease => exact hstill rfl hrelease.sent rfl
  | @metered t _ _ _ hmeter => exact hw.modify t hmeter.ordered
  | @flowed t _ f _ _ hmeter =>
      have hmetered : (w.modify t f).Ordered := hw.modify t hmeter.ordered
      exact hmetered.still rfl rfl rfl
  | @adopted t _ _ => exact hw.modify t fun _ => ⟨rfl, rfl, rfl, rfl⟩
  | @shut t _ _ _ => exact hw.modify t fun _ => ⟨rfl, rfl, rfl, rfl⟩
  | @finished t T _ _ exc _ => exact hw.finish t T exc
  | @paused t _ _ _ => exact hw.modify t fun _ => ⟨rfl, rfl, rfl, rfl⟩
  | @resumed t _ _ _ _ =>
      have hread : (w.modify t (.reading false)).Ordered :=
        hw.modify t fun _ => ⟨rfl, rfl, rfl, rfl⟩
      exact hread.still rfl rfl rfl
  | next _ hready hdispatch => exact hdispatch.ordered hwired hready hw
  | @drained t _ _ _ chunks _ _ _ _ _ _ hhand =>
      have hrest : (w.modify t (.backlogged chunks)).Ordered :=
        hw.modify t fun _ => ⟨rfl, rfl, rfl, rfl⟩
      exact hhand.ordered (hrest.still rfl rfl rfl)
  | @ended t rest _ _ _ _ _ _ _ _ hending =>
      have hpopped : ({ w with stack := rest } : Switchboard).Ordered := hw.still rfl rfl rfl
      exact hending.ordered (hpopped.modify t fun _ => ⟨rfl, rfl, rfl, rfl⟩)
  | @opened x uid tr _ _ _ _ hpost =>
      have hposted : ({ w with traffic := tr } : Switchboard).Ordered :=
        hw.posted ⟨fun h => (by cases h), fun h => by cases h⟩ hpost
      exact hposted.still rfl rfl rfl
  | @begunClient _ t rest protocol _ =>
      have hstarted : (w.modify t (.started protocol)).Ordered :=
        hw.modify t fun _ => ⟨rfl, rfl, rfl, rfl⟩
      exact hstarted.still rfl rfl rfl
  | @begunServer t rest protocol _ =>
      have hstarted : (w.modify t (.started protocol)).Ordered :=
        hw.modify t fun _ => ⟨rfl, rfl, rfl, rfl⟩
      exact hstarted.still rfl rfl rfl
  | _ => exact hstill rfl rfl rfl

/-! ### What was dispatched -/

theorem sent_extends (hw : w.Sound) (h : Move A w w') : w.wiring.sent <+: w'.wiring.sent :=
  (h.wiring hw.carried).sent_extends

theorem Ending.inbound {t : Nat} (h : Ending t w w') : w'.inbound = w.inbound := by
  cases h <;> rfl

theorem inbound_finish (t : Nat) (T : StreamTransport) (exc : Option Exc) :
    (w.finish t T exc).inbound = w.inbound := by
  unfold finish
  cases T.protocol <;> rfl

theorem Dispatched.inbound {p : Packet} (h : Dispatched p w w') : w'.inbound = w.inbound := by
  cases h with
  | data _ _ _ _ _ hhand => cases hhand <;> rfl
  | fin _ _ hending => exact hending.inbound
  | rst _ _ _ _ exc => exact inbound_finish _ _ exc
  | _ => rfl

/-- A move that leaves the queues alone dispatches nothing. -/
theorem Move.taken (h : Move A w w') (hw : w.Sound) {k : Key}
    (hnext : w'.wiring.next k = w.wiring.next k) : w'.wiring.taken k = w.wiring.taken k :=
  Wiring.taken_of_sent hw.wired (sent_extends hw h) hnext

/-- What was dispatched when the next packet of a direction is. -/
theorem Dispatched.taken {k : Key} {q : InOrder} {p : Packet} (hw : w.Sound)
    (hready : w.Ready k q p) (h : Dispatched p (w.take k q) w') (k' : Key) :
    w'.wiring.taken k' =
      if k = k' then w.wiring.taken k' ++ [p] else w.wiring.taken k' := by
  have hready' : w.wiring.Ready k q p := hready
  have hprefix : (w.take k q).wiring.sent <+: w'.wiring.sent := (h.wiring hready).sent_extends
  have hnext : w'.wiring.next k' = (w.take k q).wiring.next k' :=
    congrArg (fun inbound => ((Dict.get? inbound k').map InOrder.next).getD 0) h.inbound
  refine (Wiring.taken_of_sent (hw.wired.taken hready') hprefix hnext).trans ?_
  exact Wiring.taken_take hw.wired hready' k'

end Switchboard

/-! ## What was written -/

/-- The bytes that a call writes to a transport. -/
def Call.wroteTo (t : Nat) : Call → Bytes
  | .wrote u data => if u = t then data else []
  | _ => []

/-- The bytes that were written to a transport. -/
def writtenTo (t : Nat) (calls : List (HostName × Call)) : Bytes :=
  calls.flatMap fun x => x.2.wroteTo t

theorem writtenTo_concat (t : Nat) (calls : List (HostName × Call)) (x : HostName × Call) :
    writtenTo t (calls ++ [x]) = writtenTo t calls ++ x.2.wroteTo t := by
  simp only [writtenTo, List.flatMap_append, List.flatMap_singleton]

theorem writtenTo_aside {x : Call} (hx : x.Aside) (t : Nat) : x.wroteTo t = [] := by
  cases x <;> first | rfl | exact absurd hx id

namespace Switchboard

variable {A : Occasion → Prop} {w w' : Switchboard}

/-- What an end has written is what its data packets carry. -/
structure Written (w : Switchboard) : Prop where
  unmade : ∀ t, w.transports[t]? = none → writtenTo t w.calls = []
  carried : ∀ t T, w.transports[t]? = some T →
    streamBytes (w.wiring.on T.outKey) = writtenTo t w.calls

namespace Written

theorem of_same (hw : w.Written) (hlength : w'.transports.length = w.transports.length)
    (htransports : ∀ (t : Nat) (T' : StreamTransport), w'.transports[t]? = some T' →
      ∃ T, w.transports[t]? = some T ∧ T'.outKey = T.outKey)
    (hon : ∀ k, streamBytes (w'.wiring.on k) = streamBytes (w.wiring.on k))
    (hcalls : ∀ t, writtenTo t w'.calls = writtenTo t w.calls) : w'.Written := by
  refine ⟨fun t ht => ?_, fun t T' hT' => ?_⟩
  · rw [hcalls]
    refine hw.unmade t (List.getElem?_eq_none ?_)
    rw [← hlength]
    exact List.getElem?_eq_none_iff.mp ht
  · obtain ⟨T, hT, hkey⟩ := htransports t T' hT'
    rw [hcalls, hon, hkey]
    exact hw.carried t T hT

theorem still (hw : w.Written) (htransports : w'.transports = w.transports)
    (hsent : w'.traffic.sent = w.traffic.sent) (hcalls : w'.calls = w.calls) : w'.Written := by
  refine hw.of_same (congrArg List.length htransports) (fun t T h => ?_) (fun k => ?_) fun t => ?_
  · exact ⟨T, htransports ▸ h, rfl⟩
  · exact congrArg (fun l => streamBytes (List.filter (Packet.travels k) l)) hsent
  · rw [hcalls]

theorem modify (hw : w.Written) (t : Nat) {f : StreamTransport → StreamTransport}
    (hf : ∀ T, (f T).outKey = T.outKey) : (w.modify t f).Written := by
  refine hw.of_same (List.length_modify _ _ _) (fun u T' h => ?_) (fun _ => rfl) fun _ => rfl
  simp only [Switchboard.modify, List.getElem?_modify] at h
  obtain ⟨T, hT, rfl⟩ := Option.map_eq_some_iff.mp h
  refine ⟨T, hT, ?_⟩
  split
  · exact hf T
  · rfl

theorem call (hw : w.Written) {x : Call} (hx : ∀ t, x.wroteTo t = []) (frames : List Frame) :
    (w.call x frames).Written := by
  refine hw.of_same rfl (fun t T h => ⟨T, h, rfl⟩) (fun _ => rfl) fun t => ?_
  simp only [Switchboard.call, writtenTo_concat, hx, List.append_nil]

theorem streamBytes_on_post {wires : Wiring} {p : Packet} (hkind : p.kind ≠ .data) (k : Key) :
    streamBytes ((wires.post p).on k) = streamBytes (wires.on k) := by
  have hnone : streamBytes ([p].filter (Packet.travels k)) = [] := by
    refine List.flatMap_eq_nil_iff.mpr fun x hx => ?_
    rw [List.mem_singleton.mp (List.mem_filter.mp hx).1]
    exact Packet.bytes_of_ne hkind
  simp only [Wiring.on, Wiring.post, List.filter_append, streamBytes_append, hnone,
    List.append_nil]

theorem posted (hw : w.Written) {p : Packet} {tr : Traffic} (hkind : p.kind ≠ .data)
    (hpost : Traffic.Posted p w.traffic tr) : ({ w with traffic := tr } : Switchboard).Written := by
  refine hw.of_same rfl (fun t T h => ⟨T, h, rfl⟩) (fun k => ?_) fun _ => rfl
  rw [Ordered.wiring_posted hpost]
  exact streamBytes_on_post hkind k

theorem attach (hw : w.Written) {T : StreamTransport}
    (hnone : streamBytes (w.wiring.on T.outKey) = []) : (w.attach T).Written := by
  refine ⟨fun t ht => hw.unmade t (List.getElem?_eq_none ?_), fun t U hU => ?_⟩
  · have hlength := List.getElem?_eq_none_iff.mp ht
    simp only [Switchboard.attach, List.length_append] at hlength
    omega
  · change (w.transports ++ [T])[t]? = some U at hU
    rw [List.getElem?_append] at hU
    split at hU
    · exact hw.carried t U hU
    · rename_i hlength
      obtain rfl := List.mem_singleton.mp (List.mem_of_getElem? hU)
      refine hnone.trans (hw.unmade t (List.getElem?_eq_none (Nat.not_lt.mp hlength))).symm

theorem finish (hw : w.Written) (t : Nat) (T : StreamTransport) (exc : Option Exc) :
    (w.finish t T exc).Written := by
  have hshut : (w.modify t .finished).Written := hw.modify t fun _ => rfl
  have hgone : ({ w.modify t .finished with streams := w.streams.erase T.key } :
      Switchboard).Written := hshut.still rfl rfl rfl
  unfold Switchboard.finish
  cases T.protocol with
  | none => exact hgone
  | some _ => exact hgone.call (fun _ => rfl) _

end Written

theorem Hand.written {t : Nat} {data : Bytes} (h : Hand t data w w') (hw : w.Written) :
    w'.Written := by
  cases h with
  | unknown _ => exact hw
  | refused _ _ => exact hw
  | whole _ _ _ => exact hw.call (fun _ => rfl) _
  | parts _ _ => exact hw.still rfl rfl rfl

theorem Ending.written {t : Nat} (h : Ending t w w') (hw : w.Written) : w'.Written := by
  have hgone : (w.modify t .peerGone).Written := hw.modify t fun _ => rfl
  cases h with
  | unknown _ => exact hw
  | late _ _ => exact hgone
  | kept _ _ _ => exact hgone.modify t fun _ => rfl
  | refused _ _ _ _ => exact hgone
  | told _ _ _ _ => exact hgone.call (fun _ => rfl) _

theorem Dispatched.written {k : Key} {q : InOrder} {p : Packet} (hwired : w.wiring.Wired)
    (hordered : w.Ordered) (hready : w.Ready k q p) (h : Dispatched p (w.take k q) w')
    (hw : w.Written) : w'.Written := by
  have htaken : (w.take k q).Written := hw.still rfl rfl rfl
  cases h with
  | ignored _ _ _ => exact htaken
  | @heard hkind born tr hpost =>
      obtain ⟨r, -, hfits, -, -, hback⟩ := hwired.syn_first hready hkind
      have hposted : ({ w.take k q with traffic := tr } : Switchboard).Written :=
        htaken.posted (fun h => by cases h) hpost
      have hattach := hposted.attach (T := .fresh p.conn p.target p.source born) (by
        obtain ⟨-, hsource, -⟩ := hfits.syn hkind
        have hout : streamBytes (w.wiring.on (p.conn, p.source)) = [] := by
          rw [hsource, hback]
          rfl
        rw [Ordered.wiring_posted hpost]
        refine (Written.streamBytes_on_post (fun h => by cases h) _).trans ?_
        exact hout)
      exact hattach.call (fun _ => rfl) _
  | unheard _ hpost => exact htaken.posted (fun h => by cases h) hpost
  | late _ _ _ _ => exact htaken.still rfl rfl rfl
  | @accepted x hkind _ hx _ born =>
      obtain ⟨r, hr, -, -, hlength⟩ := hwired.accept_first hready hkind
      have hforgot : ((w.take k q).forget p.conn).Written := htaken.still rfl rfl rfl
      have hattach := hforgot.attach (T := .fresh p.conn x.loc x.remote born) (by
        obtain rfl := Option.some.inj ((routes_of_connects (w := w) hx).symm.trans hr)
        refine List.flatMap_eq_nil_iff.mpr fun y hy => ?_
        have hmem : y ∈ w.wiring.on (p.conn, x.route.2) := hy
        exact Packet.bytes_of_ne (hordered.first_of_single hwired hlength hmem).1)
      exact hattach.call (fun _ => rfl) _
  | refused _ _ _ _ e => exact htaken.still rfl rfl rfl
  | @queued t _ _ _ _ _ _ => exact htaken.modify t fun _ => rfl
  | data _ _ _ _ _ hhand => exact hhand.written (htaken.still rfl rfl rfl)
  | fin _ _ hending => exact hending.written htaken
  | @rst t T _ _ _ _ exc =>
      have hgone : ((w.take k q).modify t .peerGone).Written := htaken.modify t fun _ => rfl
      exact hgone.finish t T exc
  | @rstLate t _ _ _ _ _ => exact htaken.modify t fun _ => rfl

theorem Move.written (h : Move A w w') (hA : ∀ t data, ¬ A (.wrote t data))
    (hwired : w.wiring.Wired) (hordered : w.Ordered) (hw : w.Written) : w'.Written := by
  have hstill : w'.transports = w.transports → w'.traffic.sent = w.traffic.sent →
      w'.calls = w.calls → w'.Written := hw.still
  cases h with
  | @datagram p tr hkind _ _ hpost =>
      refine hw.posted ?_ hpost
      rw [hkind]
      decide
  | @sent t T kind payload tr hT hkind heof hdata hpost =>
      have hnot : kind ≠ .data := fun h => hA t payload (hdata h)
      have hposted := hw.posted (p := T.packet kind payload w.traffic.nextUid) hnot hpost
      have hmodify := hposted.modify t (f := .posted kind) fun _ => rfl
      exact hmodify
  | released hrelease => exact hstill rfl hrelease.sent rfl
  | wrote hwrote => exact absurd hwrote (hA _ _)
  | called hx _ => exact hw.call (writtenTo_aside hx) _
  | @metered t _ _ _ hmeter => exact hw.modify t fun U => (hmeter.ordered U).2.1
  | @flowed t _ f x _ hmeter =>
      have hmetered : (w.modify t f).Written := hw.modify t fun U => (hmeter.ordered U).2.1
      refine hmetered.call (fun u => ?_) _
      rcases hmeter.calls with rfl | rfl <;> rfl
  | @adopted t _ _ => exact hw.modify t fun _ => rfl
  | @shut t _ _ _ => exact hw.modify t fun _ => rfl
  | @finished t T _ _ exc _ => exact hw.finish t T exc
  | @paused t _ _ _ => exact hw.modify t fun _ => rfl
  | @resumed t _ _ _ _ =>
      have hread : (w.modify t (.reading false)).Written := hw.modify t fun _ => rfl
      exact hread.still rfl rfl rfl
  | next _ hready hdispatch => exact hdispatch.written hwired hordered hready hw
  | @drained t _ _ _ chunks _ _ _ _ _ _ hhand =>
      have hrest : (w.modify t (.backlogged chunks)).Written := hw.modify t fun _ => rfl
      exact hhand.written (hrest.still rfl rfl rfl)
  | @ended t rest _ _ _ _ _ _ _ _ hending =>
      have hpopped : ({ w with stack := rest } : Switchboard).Written := hw.still rfl rfl rfl
      exact hending.written (hpopped.modify t fun _ => rfl)
  | @fed t view rest _ _ =>
      have hpopped : ({ w with stack := rest } : Switchboard).Written := hw.still rfl rfl rfl
      exact hpopped.call (fun _ => rfl) _
  | @roomed t view rest taken _ =>
      have hpopped : ({ w with stack := rest } : Switchboard).Written := hw.still rfl rfl rfl
      exact hpopped.call (fun _ => rfl) _
  | @opened x uid tr _ _ _ _ hpost =>
      have hposted : ({ w with traffic := tr } : Switchboard).Written :=
        hw.posted (fun h => by cases h) hpost
      exact hposted.still rfl rfl rfl
  | @begunClient _ t rest protocol _ =>
      have hpopped : ({ w with stack := rest } : Switchboard).Written := hw.still rfl rfl rfl
      have hstarted : (({ w with stack := rest } : Switchboard).modify t
          (.started protocol)).Written := hpopped.modify t fun _ => rfl
      exact hstarted.call (fun _ => rfl) _
  | @begunServer t rest protocol _ =>
      have hpopped : ({ w with stack := rest } : Switchboard).Written := hw.still rfl rfl rfl
      have hstarted : (({ w with stack := rest } : Switchboard).modify t
          (.started protocol)).Written := hpopped.modify t fun _ => rfl
      exact hstarted.call (fun _ => rfl) _
  | _ => exact hstill rfl rfl rfl

end Switchboard

end SimLoop.Net
