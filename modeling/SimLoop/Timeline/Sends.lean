/-
  Timeline/Sends.lean --- a timeline of a network run draws every send once, almost.

  A stream packet is in one place at a time, so its sends never wait for more deliveries
  than come.  A datagram that was duplicated has two sends and two deliveries; when the
  first copy reaches a port with nothing bound, the loss that follows takes the second
  send out of the line, and the second delivery is drawn without one.
-/
import SimLoop.Timeline.Recorded

set_option autoImplicit false

namespace SimLoop.Timeline

open SimLoop.Foundation SimLoop.Net

/-! ## The lines of one uid -/

/-- How many sends wait. -/
def pendingSends (vs : List Verb) : Nat := waiting (vs.map verbBeat)

/-- A delivery comes when no send waits. -/
def Sendless (vs : List Verb) : Prop := Unasked (vs.map verbBeat)

/-- A loss between two deliveries. -/
def Echo (vs : List Verb) : Prop := [Verb.deliver, .lost, .deliver].Sublist vs

theorem pendingSends_concat (vs : List Verb) (v : Verb) :
    pendingSends (vs ++ [v]) = (verbBeat v).after (pendingSends vs) := by
  unfold pendingSends
  rw [List.map_append, List.map_cons, List.map_nil, waiting_concat]

theorem sendless_concat (vs : List Verb) (v : Verb) :
    Sendless (vs ++ [v]) ↔ Sendless vs ∨ v = .deliver ∧ pendingSends vs = 0 := by
  have hanswer : verbBeat v = .answer ↔ v = .deliver := by
    cases v <;> decide
  unfold Sendless pendingSends
  rw [List.map_append, List.map_cons, List.map_nil, unasked_concat, hanswer]

theorem echo_concat (vs : List Verb) (v : Verb) :
    Echo (vs ++ [v]) ↔ Echo vs ∨ v = .deliver ∧ [Verb.deliver, .lost].Sublist vs := by
  have h := concat_sublist_concat (l := [Verb.deliver, .lost]) (m := vs) (x := .deliver) (y := v)
  rw [eq_comm (a := Verb.deliver)] at h
  exact h

theorem lossAfter_concat (vs : List Verb) (v : Verb) :
    [Verb.deliver, .lost].Sublist (vs ++ [v]) ↔
      [Verb.deliver, .lost].Sublist vs ∨ v = .lost ∧ Verb.deliver ∈ vs := by
  have h := concat_sublist_concat (l := [Verb.deliver]) (m := vs) (x := .lost) (y := v)
  rw [eq_comm (a := Verb.lost), List.singleton_sublist] at h
  exact h

/-! ### Datagrams -/

/-- What holds of a datagram with some copies in flight: there are two sends at most, and
fewer wait with every delivery and every loss. -/
structure Casual (aloft : Nat) (vs : List Verb) : Prop where
  sendless : Sendless vs ↔ Echo vs
  most : pendingSends vs ≤ 2
  delivered : Verb.deliver ∈ vs → pendingSends vs ≤ 1
  missed : [Verb.deliver, .lost].Sublist vs → pendingSends vs = 0
  covered : aloft ≤ pendingSends vs ∨ [Verb.deliver, .lost].Sublist vs

namespace Casual

variable {aloft : Nat} {vs : List Verb}

theorem start (vs : List Verb) (hvs : vs = [.send] ∨ vs = [.drop] ∨ vs = [.dup, .send, .send]) :
    Casual (pendingSends vs) vs := by
  have hnone : Verb.deliver ∉ vs := by
    rcases hvs with rfl | rfl | rfl <;> decide
  have hloss : ¬ [Verb.deliver, .lost].Sublist vs := fun h => hnone (h.subset List.mem_cons_self)
  refine ⟨⟨?_, fun h => ?_⟩, ?_, fun h => absurd h hnone, fun h => absurd h hloss, .inl le_rfl⟩
  · rintro ⟨pre, post, h, -⟩
    have hmem : Beat.answer ∈ vs.map verbBeat :=
      h ▸ List.mem_append_right _ List.mem_cons_self
    rcases hvs with rfl | rfl | rfl <;> exact absurd hmem (by decide)
  · exact absurd (h.subset List.mem_cons_self) hnone
  · rcases hvs with rfl | rfl | rfl <;> decide

/-- A copy that does not arrive. -/
theorem forgone (h : Casual (aloft + 1) vs) {v : Verb} (hv : v = .lost ∨ v = .drop) :
    Casual aloft (vs ++ [v]) := by
  have hbeat : verbBeat v = .forgo := by
    rcases hv with rfl | rfl <;> rfl
  have hne : v ≠ .deliver := by
    rcases hv with rfl | rfl <;> decide
  have hpending : pendingSends (vs ++ [v]) = pendingSends vs - 1 := by
    rw [pendingSends_concat, hbeat]
    rfl
  have hmem : Verb.deliver ∈ vs ++ [v] → Verb.deliver ∈ vs := fun h =>
    (List.mem_append.mp h).resolve_right fun h => hne (List.mem_singleton.mp h).symm
  refine ⟨?_, ?_, fun hd => ?_, fun hl => ?_, ?_⟩
  · rw [sendless_concat, echo_concat, h.sendless]
    simp only [hne, false_and, or_false]
  · have := h.most
    omega
  · have := h.delivered (hmem hd)
    omega
  · rcases (lossAfter_concat vs v).mp hl with hl | ⟨-, hd⟩
    · have := h.missed hl
      omega
    · have := h.delivered hd
      omega
  · rcases h.covered with hcovered | hl
    · exact .inl (by omega)
    · exact .inr (hl.trans (List.sublist_append_left vs [v]))

/-- A copy that arrives. -/
theorem arrived (h : Casual (aloft + 1) vs) : Casual aloft (vs ++ [.deliver]) := by
  have hpending : pendingSends (vs ++ [.deliver]) = pendingSends vs - 1 :=
    pendingSends_concat vs .deliver
  have hloss : [Verb.deliver, .lost].Sublist (vs ++ [.deliver]) ↔
      [Verb.deliver, .lost].Sublist vs := by
    rw [lossAfter_concat]
    simp only [reduceCtorEq, false_and, or_false]
  have hmost := h.most
  refine ⟨?_, ?_, fun _ => ?_, fun hl => ?_, ?_⟩
  · rw [sendless_concat, echo_concat, h.sendless]
    refine or_congr_right (and_congr_right fun _ => ⟨fun hzero => ?_, h.missed⟩)
    exact h.covered.resolve_left fun hcovered => by omega
  · omega
  · omega
  · have := h.missed (hloss.mp hl)
    omega
  · rw [hloss]
    exact h.covered.imp_left fun hcovered => by omega

/-- A copy that arrives where nothing is bound. -/
theorem astray (h : Casual (aloft + 1) vs) : Casual aloft (vs ++ [.deliver] ++ [.lost]) := by
  have ha := h.arrived
  have hmem : Verb.deliver ∈ vs ++ [.deliver] := List.mem_append_right _ List.mem_cons_self
  have hpending : pendingSends (vs ++ [.deliver] ++ [.lost]) = 0 := by
    have := ha.delivered hmem
    rw [pendingSends_concat]
    show pendingSends (vs ++ [.deliver]) - 1 = 0
    omega
  refine ⟨?_, by omega, fun _ => by omega, fun _ => hpending, .inr ?_⟩
  · rw [sendless_concat, echo_concat, ha.sendless]
    simp only [reduceCtorEq, false_and, or_false]
  · exact (lossAfter_concat _ _).mpr (.inr ⟨rfl, hmem⟩)

end Casual

/-! ### Stream packets -/

/-- What holds of a stream packet: a send waits exactly while the packet is in flight. -/
structure Steady (aloft : Nat) (vs : List Verb) : Prop where
  line : pendingSends vs = aloft
  sent : ¬ Sendless vs
  once : ¬ [Verb.deliver, .deliver].Sublist vs

namespace Steady

variable {aloft : Nat} {vs : List Verb}

theorem nil : Steady 0 [] := by
  refine ⟨rfl, not_unasked_nil, fun h => ?_⟩
  cases h

theorem not_echo (h : Steady aloft vs) : ¬ Echo vs := fun hecho =>
  h.once (.trans (by decide) hecho)

/-- Whatever happens but a delivery. -/
theorem noted (h : Steady aloft vs) {v : Verb} (hv : v ≠ .deliver) :
    Steady ((verbBeat v).after aloft) (vs ++ [v]) := by
  refine ⟨by rw [pendingSends_concat, h.line], fun hsend => ?_, fun honce => ?_⟩
  · rcases (sendless_concat vs v).mp hsend with hsend | ⟨rfl, -⟩
    · exact h.sent hsend
    · exact hv rfl
  · have hlast := (concat_sublist_concat (l := [Verb.deliver])).mp honce
    rcases hlast with honce | ⟨rfl, -⟩
    · exact h.once honce
    · exact hv rfl

theorem delivered (h : Steady (aloft + 1) vs) (hnew : Verb.deliver ∉ vs) :
    Steady aloft (vs ++ [.deliver]) := by
  have hline := h.line
  refine ⟨?_, fun hsend => ?_, fun honce => ?_⟩
  · rw [pendingSends_concat, hline]
    rfl
  · rcases (sendless_concat vs .deliver).mp hsend with hsend | ⟨-, hzero⟩
    · exact h.sent hsend
    · omega
  · rcases (concat_sublist_concat (l := [Verb.deliver])).mp honce with honce | ⟨-, hmem⟩
    · exact h.once honce
    · exact hnew (List.singleton_sublist.mp hmem)

end Steady

/-! ## Every packet -/

variable {w w' : Traffic} {time : ℚ} {p : Net.Packet}

/-- What the lines of a packet look like. -/
def Lined (kind : PacketKind) (aloft : Nat) (vs : List Verb) : Prop :=
  if kind = .dgram then Casual aloft vs else Steady aloft vs

/-- The lines of all packets. -/
def Matched (w : Traffic) : Prop :=
  ∀ p ∈ w.sent, Lined p.kind (w.account p.uid).aloft (verbs w.trace p.uid)

theorem verbs_note (w : Traffic) (time : ℚ) (verb : Verb) (p : Net.Packet) (uid : Nat) :
    verbs (w.note time verb p).trace uid =
      if p.uid = uid then verbs w.trace uid ++ [verb] else verbs w.trace uid := by
  show verbs (w.trace ++ [Traffic.event time verb p]) uid = _
  rw [verbs_concat]
  show verbs w.trace uid ++ (if p.uid = uid then [verb] else []) = _
  split
  · rfl
  · exact List.append_nil _

theorem aloft_note (w : Traffic) (time : ℚ) (verb : Verb) (p : Net.Packet) (uid : Nat) :
    ((w.note time verb p).account uid).aloft = (w.account uid).aloft := rfl

theorem aloft_launch (w : Traffic) (time due : ℚ) (p : Net.Packet) (uid : Nat) :
    ((w.launch time due p).account uid).aloft =
      if p.uid = uid then (w.account uid).aloft + 1 else (w.account uid).aloft := by
  rw [Traffic.account_launch]
  split <;> rfl

/-- What handing over a packet does to the lines of a uid. -/
theorem dispatch_lines (h : Traffic.Dispatch time p w w') (uid : Nat) :
    (p.uid ≠ uid ∧ (w'.account uid).aloft = (w.account uid).aloft ∧
      verbs w'.trace uid = verbs w.trace uid) ∨
    p.uid = uid ∧
      ((w'.account uid).aloft = (w.account uid).aloft + 1 ∧
          verbs w'.trace uid = verbs w.trace uid ++ [.send] ∨
        p.kind ≠ .dgram ∧ (w'.account uid).aloft = (w.account uid).aloft ∧
          verbs w'.trace uid = verbs w.trace uid ++ [.hold] ∨
        p.kind = .dgram ∧ (w'.account uid).aloft = (w.account uid).aloft ∧
          verbs w'.trace uid = verbs w.trace uid ++ [.drop] ∨
        p.kind = .dgram ∧ (w'.account uid).aloft = (w.account uid).aloft + 2 ∧
          verbs w'.trace uid = verbs w.trace uid ++ [.dup, .send, .send]) := by
  have hlaunch : ∀ (v : Traffic) (due : ℚ), verbs (v.launch time due p).trace uid =
      if p.uid = uid then verbs v.trace uid ++ [.send] else verbs v.trace uid :=
    fun v _ => verbs_note v time .send p uid
  by_cases huid : p.uid = uid
  · refine .inr ⟨huid, ?_⟩
    cases h with
    | launched due =>
        refine .inl ⟨?_, ?_⟩
        · rw [aloft_launch, if_pos huid]
        · rw [hlaunch, if_pos huid]
    | parked hkind =>
        refine .inr (.inl ⟨hkind, rfl, ?_⟩)
        exact (verbs_note w time .hold p uid).trans (if_pos huid)
    | dropped hkind =>
        refine .inr (.inr (.inl ⟨hkind, rfl, ?_⟩))
        exact (verbs_note w time .drop p uid).trans (if_pos huid)
    | doubled hkind due due' =>
        refine .inr (.inr (.inr ⟨hkind, ?_, ?_⟩))
        · rw [aloft_launch, if_pos huid, aloft_launch, if_pos huid, aloft_note]
        · rw [hlaunch, if_pos huid, hlaunch, if_pos huid, verbs_note, if_pos huid]
          simp only [List.append_assoc, List.cons_append, List.nil_append]
  · refine .inl ⟨huid, ?_⟩
    cases h with
    | launched due =>
        rw [aloft_launch, if_neg huid, hlaunch, if_neg huid]
        exact ⟨rfl, rfl⟩
    | parked _ => exact ⟨rfl, (verbs_note w time .hold p uid).trans (if_neg huid)⟩
    | dropped _ => exact ⟨rfl, (verbs_note w time .drop p uid).trans (if_neg huid)⟩
    | doubled _ due due' =>
        rw [aloft_launch, if_neg huid, aloft_launch, if_neg huid, hlaunch, if_neg huid, hlaunch,
          if_neg huid, verbs_note, if_neg huid]
        exact ⟨rfl, rfl⟩

/-- Nothing is said of a uid that no packet has. -/
theorem verbs_of_new (hw : w.Placed) {uid : Nat} (huid : uid ∉ w.sent.map Net.Packet.uid) :
    verbs w.trace uid = [] := by
  refine List.filterMap_eq_nil_iff.mpr fun e he => ?_
  obtain ⟨he, heq⟩ := List.mem_filter.mp he
  by_contra hverb
  exact huid (of_decide_eq_true heq ▸ hw.recorded e he hverb)

theorem delivers_of_mem {uid : Nat} (h : Verb.deliver ∈ verbs w.trace uid) :
    0 < (w.account uid).delivers := by
  obtain ⟨e, he, hverb⟩ := List.mem_filterMap.mp h
  obtain ⟨he, heq⟩ := List.mem_filter.mp he
  exact List.countP_pos_iff.mpr ⟨e, he, decide_eq_true ⟨of_decide_eq_true heq, hverb⟩⟩

/-- A new packet. -/
theorem Matched.posted (hw : Matched w) (hconserved : w.Conserved)
    (h : Traffic.Posted p w w') : Matched w' := by
  obtain ⟨huid, time, hsend⟩ := h
  have hnew : p.uid ∉ w.sent.map Net.Packet.uid := by
    intro hmem
    obtain ⟨q, hq, heq⟩ := List.mem_map.mp hmem
    have hlt := hconserved.fresh q hq
    omega
  have hempty : verbs (w.stamp p).trace p.uid = [] := verbs_of_new hconserved.toPlaced hnew
  have hzero : (w.stamp p).account p.uid = .zero := hconserved.toPlaced.account_zero hnew
  have hsent : w'.sent = w.sent ++ [p] := hsend.sent
  intro q hq
  rw [hsent] at hq
  rcases List.mem_append.mp hq with hq | hq
  · have hne : p.uid ≠ q.uid := fun heq => hnew (List.mem_map.mpr ⟨q, hq, heq.symm⟩)
    rcases dispatch_lines hsend q.uid with ⟨-, haloft, hverbs⟩ | ⟨heq, -⟩
    · rw [haloft, hverbs]
      exact hw q hq
    · exact absurd heq hne
  · obtain rfl := List.mem_singleton.mp hq
    rcases dispatch_lines hsend q.uid with ⟨hne, -⟩ | ⟨-, hcases⟩
    · exact absurd rfl hne
    · rw [hempty, hzero] at hcases
      unfold Lined
      rcases hcases with ⟨haloft, hverbs⟩ | ⟨hkind, haloft, hverbs⟩ | ⟨hkind, haloft, hverbs⟩ |
        ⟨hkind, haloft, hverbs⟩ <;> rw [haloft, hverbs]
      · split
        · exact Casual.start _ (.inl rfl)
        · exact Steady.nil.noted (v := .send) (by decide)
      · rw [if_neg hkind]
        exact Steady.nil.noted (v := .hold) (by decide)
      · rw [if_pos hkind]
        exact Casual.start _ (.inr (.inl rfl))
      · rw [if_pos hkind]
        exact Casual.start _ (.inr (.inr rfl))

/-- A held packet is in one place. -/
theorem aloft_of_held (hconserved : w.Conserved) (hp : p ∈ w.held) :
    (w.account p.uid).aloft = 0 := by
  obtain ⟨hsent, hkind⟩ := hconserved.held p hp
  have hplaces := (hconserved.balanced p hsent).2
  rw [if_neg hkind] at hplaces
  have hparked : 0 < (w.account p.uid).parked :=
    List.countP_pos_iff.mpr ⟨p, hp, decide_eq_true rfl⟩
  omega

/-- A held packet that is handed over again. -/
theorem Matched.released (hw : Matched w) (hconserved : w.Conserved)
    (h : Traffic.Released w w') : Matched w' := by
  obtain ⟨time, p, rest, hheld, hsend⟩ := h
  have hp : p ∈ w.held := hheld ▸ List.mem_cons_self
  obtain ⟨hsent, hkind⟩ := hconserved.held p hp
  have hzero : (w.account p.uid).aloft = 0 := aloft_of_held hconserved hp
  have hsame : w'.sent = w.sent := hsend.sent
  intro q hq
  rw [hsame] at hq
  have hreleased := verbs_note ({ w with held := rest } : Traffic) time .release p q.uid
  rcases dispatch_lines hsend q.uid with ⟨hne, haloft, hverbs⟩ | ⟨heq, hcases⟩
  · rw [haloft, hverbs, hreleased, if_neg hne]
    exact hw q hq
  · obtain rfl := hconserved.toPlaced.eq_of_uid hsent hq heq
    have hline := hw p hq
    unfold Lined at hline ⊢
    rw [if_neg hkind] at hline ⊢
    rw [hreleased, if_pos rfl] at hcases
    have hwait : Steady (w.account p.uid).aloft (verbs w.trace p.uid ++ [.release]) :=
      hline.noted (v := .release) (by decide)
    rcases hcases with ⟨haloft, hverbs⟩ | ⟨-, haloft, hverbs⟩ | ⟨hdgram, -⟩ | ⟨hdgram, -⟩
    · rw [haloft, hverbs]
      exact hwait.noted (v := .send) (by decide)
    · have hheldBack := hwait.noted (v := .hold) (by decide)
      rw [hzero] at hheldBack
      rw [haloft, hverbs]
      change Steady (w.account p.uid).aloft _
      rw [hzero]
      exact hheldBack
    · exact absurd hdgram hkind
    · exact absurd hdgram hkind

theorem aloft_fire {i : Nat} {f : Flight} (hi : w.inFlight[i]? = some f) (uid : Nat) :
    ((w.fire i f.packet).account uid).aloft =
      if f.packet.uid = uid then (w.account uid).aloft - 1 else (w.account uid).aloft := by
  rw [Traffic.account_fire w uid hi]
  split <;> rfl

/-- One packet of those in flight is no longer, and its line changes. -/
theorem Matched.landed (hw : Matched w) (hconserved : w.Conserved) {i : Nat} {f : Flight}
    (hi : w.inFlight[i]? = some f) (hsent : w'.sent = w.sent)
    (haloft : ∀ uid, (w'.account uid).aloft = ((w.fire i f.packet).account uid).aloft)
    (hother : ∀ uid, f.packet.uid ≠ uid → verbs w'.trace uid = verbs w.trace uid)
    (hline : ∀ n, (w.account f.packet.uid).aloft = n + 1 →
      Lined f.packet.kind (n + 1) (verbs w.trace f.packet.uid) →
      Lined f.packet.kind n (verbs w'.trace f.packet.uid)) : Matched w' := by
  have hf : f.packet ∈ w.sent := hconserved.aloft f (List.mem_of_getElem? hi)
  intro q hq
  rw [hsent] at hq
  rw [haloft, aloft_fire hi]
  by_cases heq : f.packet.uid = q.uid
  · obtain rfl := hconserved.toPlaced.eq_of_uid hf hq heq
    obtain ⟨n, hn⟩ := Nat.exists_eq_succ_of_ne_zero (Nat.ne_of_gt (Traffic.aloft_pos w hi))
    have hold := hw _ hq
    rw [hn] at hold
    rw [if_pos rfl, hn]
    exact hline n hn hold
  · rw [if_neg heq, hother _ heq]
    exact hw q hq

/-- A packet that is in flight was not delivered, unless it is a datagram. -/
theorem undelivered (hconserved : w.Conserved) (hp : p ∈ w.sent) (hkind : p.kind ≠ .dgram)
    (haloft : 0 < (w.account p.uid).aloft) : Verb.deliver ∉ verbs w.trace p.uid := by
  intro hmem
  have hplaces := (hconserved.balanced p hp).2
  rw [if_neg hkind] at hplaces
  have hdelivers := delivers_of_mem hmem
  omega

theorem Matched.fired (hw : Matched w) (hconserved : w.Conserved) {down : HostName → Prop}
    {i : Nat} {f : Flight} (hi : w.inFlight[i]? = some f)
    (h : Traffic.Outcome down time f.packet (w.fire i f.packet) w') : Matched w' := by
  have hf : f.packet ∈ w.sent := hconserved.aloft f (List.mem_of_getElem? hi)
  have hnote := fun verb => verbs_note (w.fire i f.packet) time verb f.packet
  cases h with
  | lost _ =>
      refine hw.landed hconserved hi rfl (fun _ => rfl)
        (fun uid hne => (hnote .lost uid).trans (if_neg hne)) fun n _ hline => ?_
      rw [hnote, if_pos rfl]
      unfold Lined at hline ⊢
      split
      · rw [if_pos ‹_›] at hline
        exact hline.forgone (.inl rfl)
      · rw [if_neg ‹_›] at hline
        exact hline.noted (v := .lost) (by decide)
  | parked hkind =>
      refine hw.landed hconserved hi rfl (fun _ => rfl)
        (fun uid hne => (hnote .hold uid).trans (if_neg hne)) fun n _ hline => ?_
      have hverbs : verbs ((w.fire i f.packet).park time f.packet).trace f.packet.uid =
          verbs w.trace f.packet.uid ++ [.hold] := (hnote .hold _).trans (if_pos rfl)
      rw [hverbs]
      unfold Lined at hline ⊢
      rw [if_neg hkind] at hline ⊢
      exact hline.noted (v := .hold) (by decide)
  | dropped hkind =>
      refine hw.landed hconserved hi rfl (fun _ => rfl)
        (fun uid hne => (hnote .drop uid).trans (if_neg hne)) fun n _ hline => ?_
      rw [hnote, if_pos rfl]
      unfold Lined at hline ⊢
      rw [if_pos hkind] at hline ⊢
      exact hline.forgone (.inr rfl)
  | delivered =>
      refine hw.landed hconserved hi rfl (fun _ => rfl)
        (fun uid hne => (hnote .deliver uid).trans (if_neg hne)) fun n hn hline => ?_
      rw [hnote, if_pos rfl]
      unfold Lined at hline ⊢
      split
      · rw [if_pos ‹_›] at hline
        exact hline.arrived
      · rw [if_neg ‹_›] at hline
        exact hline.delivered (undelivered hconserved hf ‹_› (by omega))

/-- A datagram that reaches a port with nothing bound. -/
theorem Matched.missed (hw : Matched w) (hconserved : w.Conserved) {i : Nat} {f : Flight}
    (hi : w.inFlight[i]? = some f) (hkind : f.packet.kind = .dgram) :
    Matched (((w.fire i f.packet).note time .deliver f.packet).note time .lost f.packet) := by
  have hfirst := verbs_note (w.fire i f.packet) time .deliver f.packet
  have hsecond := verbs_note ((w.fire i f.packet).note time .deliver f.packet) time .lost f.packet
  refine hw.landed hconserved hi rfl (fun _ => rfl) (fun uid hne => ?_) fun n _ hline => ?_
  · rw [hsecond, if_neg hne, hfirst, if_neg hne]
    rfl
  · rw [hsecond, if_pos rfl, hfirst, if_pos rfl]
    unfold Lined at hline ⊢
    rw [if_pos hkind] at hline ⊢
    exact hline.astray

theorem Matched.restarted (hw : Matched w) (time : ℚ) (name : HostName) :
    Matched (w.restart time name) := by
  intro q hq
  rw [Traffic.account_restart]
  have hverbs : verbs (w.restart time name).trace q.uid = verbs w.trace q.uid := by
    show verbs (w.trace ++ [_]) q.uid = _
    rw [verbs_concat]
    simp [NetLabel.verb]
  rw [hverbs]
  exact hw q hq

theorem verbs_losses (trace : List NetEvent) (time : ℚ) (lost : List Net.Packet) {uid : Nat}
    (hnone : ∀ p ∈ lost, p.uid ≠ uid) :
    verbs (trace ++ lost.map (Traffic.event time .lost)) uid = verbs trace uid := by
  have hfilter : (lost.map (Traffic.event time .lost)).filter (·.uid = uid) = [] := by
    refine List.filter_eq_nil_iff.mpr fun e he => ?_
    obtain ⟨p, hp, rfl⟩ := List.mem_map.mp he
    exact fun h => hnone p hp (of_decide_eq_true h)
  unfold verbs
  rw [List.filter_append, hfilter, List.append_nil]

/-- Losses change nothing for a stream packet that is not in flight. -/
theorem Steady.losses {trace : List NetEvent} {uid : Nat} (h : Steady 0 (verbs trace uid))
    (time : ℚ) (lost : List Net.Packet) :
    Steady 0 (verbs (trace ++ lost.map (Traffic.event time .lost)) uid) := by
  induction lost using List.reverseRecOn with
  | nil =>
      rw [List.map_nil, List.append_nil]
      exact h
  | append_singleton lost p ih =>
      rw [List.map_append, List.map_cons, List.map_nil, ← List.append_assoc, verbs_concat]
      show Steady 0 (_ ++ if p.uid = uid then [Verb.lost] else [])
      split
      · exact ih.noted (v := .lost) (by decide)
      · rw [List.append_nil]
        exact ih

theorem Matched.purged (hw : Matched w) (hconserved : w.Conserved) (time : ℚ) (name : HostName) :
    Matched (w.purge time name) := by
  intro q hq
  have hverbs : verbs (w.purge time name).trace q.uid = verbs (w.trace ++
      (w.held.filter (Traffic.endsAt name)).map (Traffic.event time .lost)) q.uid := by
    show verbs (w.trace ++ _ ++ [_]) q.uid = _
    rw [verbs_concat]
    simp [NetLabel.verb]
  have haloft : ((w.purge time name).account q.uid).aloft = (w.account q.uid).aloft := by
    rw [Traffic.account_purge]
  rw [hverbs, haloft]
  by_cases hheld : ∃ p ∈ w.held, p.uid = q.uid
  · obtain ⟨p, hp, heq⟩ := hheld
    obtain ⟨hsent, hkind⟩ := hconserved.held p hp
    obtain rfl := hconserved.toPlaced.eq_of_uid hsent hq heq
    have hline := hw p hq
    unfold Lined at hline ⊢
    rw [if_neg hkind, aloft_of_held hconserved hp] at hline ⊢
    exact hline.losses time _
  · rw [verbs_losses]
    · exact hw q hq
    · exact fun p hp heq => hheld ⟨p, (List.mem_filter.mp hp).1, heq⟩

/-! ## Every run -/

/-- What a move of a switchboard does to the packets. -/
inductive Pass (w : Traffic) : Traffic → Prop
  | still : Pass w w
  | posted {p : Net.Packet} {w' : Traffic} (h : Traffic.Posted p w w') : Pass w w'
  | released {w' : Traffic} (h : Traffic.Released w w') : Pass w w'
  | fired {time : ℚ} {i : Nat} {f : Flight} {w' : Traffic} (hi : w.inFlight[i]? = some f)
      (h : Traffic.Outcome (fun _ => True) time f.packet (w.fire i f.packet) w') : Pass w w'
  | missed (time : ℚ) {i : Nat} {f : Flight} (hi : w.inFlight[i]? = some f)
      (hkind : f.packet.kind = .dgram) :
      Pass w (((w.fire i f.packet).note time .deliver f.packet).note time .lost f.packet)
  | purged (time : ℚ) (name : HostName) : Pass w (w.purge time name)
  | restarted (time : ℚ) (name : HostName) : Pass w (w.restart time name)

theorem Pass.conserved (h : Pass w w') (hw : w.Conserved) : w'.Conserved := by
  cases h with
  | still => exact hw
  | posted h =>
      obtain ⟨huid, time, hsend⟩ := h
      exact hw.posted huid hsend
  | released h =>
      obtain ⟨time, p, rest, hheld, hsend⟩ := h
      exact hw.released hheld hsend
  | fired hi h => exact hw.fired hi h
  | @missed time i f hi hkind =>
      have hdelivered : Traffic.Outcome (fun _ => True) time f.packet (w.fire i f.packet) _ :=
        .delivered
      have harrived := hw.fired hi hdelivered
      exact harrived.missed time (l := ⟨f.packet, w.trace.length⟩)
        (List.mem_append_right _ List.mem_cons_self) hkind
  | purged time name => exact hw.purged time name
  | restarted time name => exact hw.restarted time name

theorem Pass.matched (h : Pass w w') (hconserved : w.Conserved) (hw : Matched w) : Matched w' := by
  cases h with
  | still => exact hw
  | posted h => exact hw.posted hconserved h
  | released h => exact hw.released hconserved h
  | fired hi h => exact hw.fired hconserved hi h
  | missed time hi hkind => exact hw.missed hconserved hi hkind
  | purged time name => exact hw.purged hconserved time name
  | restarted time name => exact hw.restarted time name

theorem pass_of_hand {t : Nat} {data : Bytes} {w w' : Switchboard}
    (h : Switchboard.Hand t data w w') : w'.traffic = w.traffic := by
  cases h <;> rfl

theorem pass_of_ending {t : Nat} {w w' : Switchboard} (h : Switchboard.Ending t w w') :
    w'.traffic = w.traffic := by
  cases h <;> rfl

theorem traffic_finish (w : Switchboard) (t : Nat) (T : StreamTransport) (exc : Option Exc) :
    (w.finish t T exc).traffic = w.traffic := by
  unfold Switchboard.finish
  cases T.protocol <;> rfl

theorem pass_of_dispatched {p : Net.Packet} {w w' : Switchboard}
    (h : Switchboard.Dispatched p w w') : Pass w.traffic w'.traffic := by
  have hsame : w'.traffic = w.traffic → Pass w.traffic w'.traffic := fun heq => heq ▸ .still
  cases h with
  | heard _ _ hpost => exact .posted hpost
  | unheard _ hpost => exact .posted hpost
  | data _ _ _ _ _ hhand =>
      have htraffic := pass_of_hand hhand
      exact hsame htraffic
  | fin _ _ hending => exact hsame (pass_of_ending hending)
  | rst _ _ _ _ exc => exact hsame (traffic_finish _ _ _ exc)
  | _ => exact .still

/-- A move of a switchboard makes at most one thing of the packets. -/
theorem pass_of_move {A : Occasion → Prop} {w w' : Switchboard} (h : Switchboard.Move A w w') :
    Pass w.traffic w'.traffic := by
  have hsame : w'.traffic = w.traffic → Pass w.traffic w'.traffic := fun heq => heq ▸ .still
  cases h with
  | datagram _ _ _ hpost => exact .posted hpost
  | sent _ _ _ _ hpost => exact .posted hpost
  | released hrelease => exact .released hrelease
  | lost time hi _ _ => exact .fired hi (.lost (.inl trivial))
  | parked time hi hkind _ => exact .fired hi (.parked hkind)
  | dropped time hi hkind _ => exact .fired hi (.dropped hkind)
  | landed time hi _ _ _ => exact @Pass.fired _ time _ _ _ hi .delivered
  | reached time hi _ _ _ => exact @Pass.fired _ time _ _ _ hi .delivered
  | missed time hi hkind _ _ => exact .missed time hi hkind
  | @purged time name _ => exact .purged time name
  | @restarted time name _ => exact .restarted time name
  | finished _ _ exc _ => exact hsame (traffic_finish _ _ _ exc)
  | next _ _ hdispatch =>
      have hpass := pass_of_dispatched hdispatch
      exact hpass
  | drained _ _ _ _ _ hhand =>
      have htraffic := pass_of_hand hhand
      exact hsame htraffic
  | ended _ _ _ _ _ _ hending =>
      have htraffic := pass_of_ending hending
      exact hsame htraffic
  | opened _ _ _ _ hpost => exact .posted hpost
  | _ => exact .still

variable {ρ : Type} {R : RandomSource ρ}

/-- In every reachable state the lines of all packets are in order. -/
theorem matched_of_run {seed : Int} {acts : List SimNetwork.Act} {s : SimNetwork ρ}
    (run : Run (SimNetwork.Step R) (SimNetwork.init R seed) acts s) :
    s.traffic.Conserved ∧ Matched s.traffic := by
  refine SimNetwork.board_of_run (I := fun w => w.traffic.Conserved ∧ Matched w.traffic)
    (fun A w w' hmove hw => ?_) run ⟨(SimNetwork.accounted_init R seed).conserved, ?_⟩
  · have hpass := pass_of_move hmove
    exact ⟨hpass.conserved hw.1, hpass.matched hw.1 hw.2⟩
  · exact fun _ h => absurd h List.not_mem_nil

/-- A delivery comes when no send waits only after a loss after a delivery. -/
theorem sendless_iff_echo (hconserved : w.Conserved) (hw : Matched w) (uid : Nat) :
    Sendless (verbs w.trace uid) ↔ Echo (verbs w.trace uid) := by
  by_cases hmem : uid ∈ w.sent.map Net.Packet.uid
  · obtain ⟨p, hp, rfl⟩ := List.mem_map.mp hmem
    have hline := hw p hp
    unfold Lined at hline
    split at hline
    · exact hline.sendless
    · exact iff_of_false hline.sent hline.not_echo
  · rw [verbs_of_new hconserved.toPlaced hmem]
    exact iff_of_false not_unasked_nil fun h => by cases h

/-- **A timeline of a network run draws every send exactly once** if and only if no uid was
delivered, lost and then delivered again. -/
theorem drawsOnce_iff_no_echo {seed : Int} {acts : List SimNetwork.Act} {s : SimNetwork ρ}
    (run : Run (SimNetwork.Step R) (SimNetwork.init R seed) acts s)
    {events : List Loop.TraceEvent}
    (hevents : events.filter (·.kind = .net) = s.trace.map NetEvent.recorded) :
    DrawsOnce events ↔ ∀ uid, ¬ Echo (verbs s.trace uid) := by
  obtain ⟨hconserved, hmatched⟩ := matched_of_run run
  have htrace : ∀ e ∈ s.trace, e.label.Named := (SimNetwork.named_of_run run).board.traffic.trace
  have hrecorded : ∀ e ∈ events, e.kind = .net → ∃ x ∈ s.trace, x.recorded = e := fun e he hkind =>
    List.mem_map.mp (hevents ▸ List.mem_filter.mpr ⟨he, decide_eq_true hkind⟩)
  have hdrawable : ∀ e ∈ events, Drawable e := by
    intro e he
    by_cases hkind : e.kind = .net
    · obtain ⟨x, hx, rfl⟩ := hrecorded e he hkind
      exact drawable_recorded (htrace x hx)
    · refine ⟨fun h => ?_, fun h => absurd (of_decide_eq_true h).1 hkind⟩
      exact (h.elim (fun h => hkind (of_decide_eq_true h).1)
        fun h => hkind (of_decide_eq_true h).1).elim
  have hiff : ∀ uid : Nat, Unasked (beats events uid) ↔ Echo (verbs s.trace uid) := fun uid => by
    rw [beats_of_net hevents htrace]
    exact sendless_iff_echo hconserved hmatched uid
  rw [drawsOnce_iff hdrawable]
  refine ⟨fun h uid => (hiff uid).not.mp (h uid), fun h uid => ?_⟩
  cases uid with
  | ofNat n => exact (hiff n).not.mpr (h n)
  | negSucc n =>
      -- no uid is negative
      have hnone : beats events (.negSucc n) = [] := by
        refine List.map_eq_nil_iff.mpr (List.filter_eq_nil_iff.mpr fun e he hboth => ?_)
        obtain ⟨htravels, huid⟩ := of_decide_eq_true hboth
        obtain ⟨x, -, rfl⟩ := hrecorded e he (of_decide_eq_true htravels).1
        cases huid
      rw [hnone]
      exact not_unasked_nil

/-- A datagram to a port with nothing bound is duplicated, and both copies arrive. -/
def astrayTwice : List SimNetwork.Act :=
  [.callback driver, .setDefaults none none (some 1), .tick, .openDatagramEndpoint none none,
    .ret {}, .tick, .ret {}, .tick, .sendto 0 [] (some (driver, 53)), .tick, .ret {}, .tick,
    .fire 0, .tick, .tick, .fire 0]

/-- What the trace says of it. -/
def astrayEvents : List NetEvent :=
  [.dup, .send, .send, .deliver, .lost, .deliver, .lost].map fun verb =>
    ⟨0, 0, .packet verb driver driver⟩

theorem trace_astrayTwice :
    (SimNetwork.performs .least (SimNetwork.init .least 0) astrayTwice).map (·.trace) =
      some astrayEvents := by
  decide +kernel

theorem drawsOnce_iff_no_echo_astrayTwice : ∃ s : SimNetwork Unit,
    SimNetwork.performs .least (SimNetwork.init .least 0) astrayTwice = some s ∧
      s.trace = astrayEvents ∧ (DrawsOnce (s.trace.map NetEvent.recorded) ↔
        ∀ uid, ¬ Echo (verbs s.trace uid)) := by
  obtain ⟨s, h, htrace⟩ := Option.map_eq_some_iff.mp trace_astrayTwice
  refine ⟨s, h, htrace, drawsOnce_iff_no_echo (SimNetwork.run_of_performs _ h) ?_⟩
  refine List.filter_eq_self.mpr fun e he => ?_
  obtain ⟨x, -, rfl⟩ := List.mem_map.mp he
  rfl

/-- Two sends, and three packets drawn. -/
theorem not_drawsOnce : ¬ ∀ (acts : List SimNetwork.Act) (s : SimNetwork Unit),
    Run (SimNetwork.Step .least) (SimNetwork.init .least 0) acts s →
      DrawsOnce (s.trace.map NetEvent.recorded) := by
  intro hall
  obtain ⟨s, h, htrace⟩ := Option.map_eq_some_iff.mp trace_astrayTwice
  have hdraws := hall _ s (SimNetwork.run_of_performs _ h)
  rw [htrace] at hdraws
  have hlength := hdraws.sends.length_eq
  rw [List.length_map, List.length_map] at hlength
  have hpackets : (packets (astrayEvents.map NetEvent.recorded)).1.length = 3 := by
    unfold packets
    rw [List.length_mergeSort]
    decide +kernel
  have hsends : ((astrayEvents.map NetEvent.recorded).filter isSend).length = 2 := by
    decide +kernel
  omega

end SimLoop.Timeline
