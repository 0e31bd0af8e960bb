/-
  Timeline/Drawing.lean --- what the loop of `_packets` makes of any events.

  The sends of every uid wait in line, as the beats of the uid say.  As long as no
  delivery comes when nobody waits, what was drawn and what still waits are the sends;
  one that does is drawn without a send.
-/
import SimLoop.Timeline.Timeline
import Mathlib.Data.List.Induction

set_option autoImplicit false

namespace SimLoop.Timeline

open SimLoop.Foundation SimLoop.Loop

/-! ## Beats of a uid -/

/-- What a verb does to the line of its uid. -/
def beat (verb : String) : Beat :=
  if verb = send then .ask
  else if verb = deliver then .answer
  else if verb ∈ fates then .forgo
  else .rest

/-- The event is about a packet between two hosts. -/
def travels (e : TraceEvent) : Bool := decide (e.kind = .net ∧ (ends e.label).2.2 ≠ "")

/-- What happened to the packets of a uid. -/
def beats (events : List TraceEvent) (uid : Int) : List Beat :=
  (events.filter fun e => travels e ∧ e.seq = uid).map fun e => beat (verbOf e)

/-- Sends and deliveries name two hosts, and no label leaves out where a packet comes from. -/
structure Drawable (e : TraceEvent) : Prop where
  named : isSend e ∨ isDeliver e → travels e
  src : travels e → (ends e.label).2.1 ≠ ""

theorem beats_concat (events : List TraceEvent) (e : TraceEvent) (uid : Int) :
    beats (events ++ [e]) uid =
      if travels e ∧ e.seq = uid then beats events uid ++ [beat (verbOf e)]
      else beats events uid := by
  unfold beats
  rw [List.filter_append, List.map_append]
  by_cases h : travels e ∧ e.seq = uid
  · rw [if_pos h, List.filter_cons_of_pos (by simpa using h)]
    rfl
  · rw [if_neg h, List.filter_cons_of_neg (by simpa using h)]
    simp only [List.filter_nil, List.map_nil, List.append_nil]

/-! ## Sends that are drawn or wait -/

namespace Drawing

/-- The send a packet is drawn for. -/
def origin (p : Packet) : Int × ℚ := (p.uid, p.start)

/-- The sends that wait. -/
def line (uid : Int) (queue : List Departure) : List (Int × ℚ) := queue.map fun x => (uid, x.1)

def lines (d : Drawing) : List (Int × ℚ) := d.queued.entries.flatMap fun e => line e.1 e.2

theorem lines_insert (d : Drawing) (uid : Int) (queue : List Departure) :
    (({ d with queued := d.queued.insert uid queue } : Drawing).lines ++
      line uid (d.queue uid)).Perm (d.lines ++ line uid queue) := by
  have hperm := flatMap_insert_perm d.queued uid queue line
  have hline : ((d.queued.get? uid).map (line uid)).getD [] = line uid (d.queue uid) := by
    unfold Drawing.queue
    cases d.queued.get? uid <;> rfl
  rwa [hline] at hperm

theorem queue_insert (d : Drawing) (uid : Int) (queue : List Departure) (other : Int) :
    ({ d with queued := d.queued.insert uid queue } : Drawing).queue other =
      if uid = other then queue else d.queue other := by
  unfold Drawing.queue
  rw [Dict.get?_insert]
  split <;> rfl

/-- What the loop carries after some events. -/
structure Tracks (events : List TraceEvent) (d : Drawing) : Prop where
  waits : ∀ uid, (d.queue uid).length = waiting (beats events uid)
  sends : ∃ extra, (d.packets.map origin ++ d.lines).Perm
      ((events.filter isSend).map (fun e => (e.seq, e.when_)) ++ extra) ∧
    (extra = [] ↔ ∀ uid, ¬ Unasked (beats events uid))
  deliveries : (d.packets.filter (·.fate = deliver)).length = (events.filter isDeliver).length
  others : ∃ ended marked : List TraceEvent, (ended ++ marked).Perm (events.filter isOther) ∧
    ((d.packets.filter fun p => p.fate ≠ deliver ∧ p.fate ≠ inflight).map
      fun p => (p.uid, p.end_, p.fate)).Perm (ended.map fun e => (e.seq, e.when_, verbOf e)) ∧
    d.marks.map (fun m => (m.verb, m.when_, m.label)) =
      marked.map fun e => (verbOf e, e.when_, e.label)

theorem Tracks.empty : Tracks [] .empty where
  waits _ := rfl
  sends := ⟨[], .refl _, fun _ _ => not_unasked_nil, fun _ => rfl⟩
  deliveries := rfl
  others := ⟨[], [], .refl _, .refl _, rfl⟩

variable {events : List TraceEvent} {d : Drawing} {e : TraceEvent}

theorem filter_concat {α : Type} (p : α → Bool) (l : List α) (x : α) :
    (l ++ [x]).filter p = if p x then l.filter p ++ [x] else l.filter p := by
  rw [List.filter_append]
  cases h : p x <;> simp [h]

/-! ### Events that are drawn nowhere, or as marks -/

/-- The event does nothing to a line; it is a mark, or it is not the network's. -/
theorem Tracks.marked (ht : Tracks events d) {d' : Drawing}
    (hsend : isSend e = false) (hdeliver : isDeliver e = false)
    (hbeats : ∀ uid, waiting (beats (events ++ [e]) uid) = waiting (beats events uid) ∧
      (Unasked (beats (events ++ [e]) uid) ↔ Unasked (beats events uid)))
    (hqueue : ∀ uid, d'.queue uid = d.queue uid) (hlines : d'.lines.Perm d.lines)
    (hpackets : d'.packets = d.packets)
    (hmarks : d'.marks.map (fun m => (m.verb, m.when_, m.label)) =
      d.marks.map (fun m => (m.verb, m.when_, m.label)) ++
        if isOther e then [(verbOf e, e.when_, e.label)] else []) :
    Tracks (events ++ [e]) d' where
  waits uid := by rw [hqueue, ht.waits, (hbeats uid).1]
  sends := by
    obtain ⟨extra, hperm, hextra⟩ := ht.sends
    refine ⟨extra, ?_, hextra.trans (forall_congr' fun uid => not_congr (hbeats uid).2.symm)⟩
    rw [filter_concat, hsend, hpackets]
    exact (hlines.append_left _).trans hperm
  deliveries := by
    rw [filter_concat, hdeliver, hpackets]
    exact ht.deliveries
  others := by
    obtain ⟨ended, marked, hperm, hended, hmarked⟩ := ht.others
    rw [filter_concat, hpackets, hmarks, hmarked]
    cases isOther e with
    | false => exact ⟨ended, marked, hperm, hended, by simp⟩
    | true =>
        refine ⟨ended, marked ++ [e], ?_, hended, ?_⟩
        · simp only [if_true]
          rw [← List.append_assoc]
          exact hperm.append_right _
        · simp only [if_true, List.map_append, List.map_cons, List.map_nil]

/-- An event that changes no line of any uid. -/
theorem beats_still (h : travels e = false) (uid : Int) :
    beats (events ++ [e]) uid = beats events uid := by
  rw [beats_concat, if_neg]
  rw [h]
  exact fun h => absurd h.1 Bool.false_ne_true

theorem Tracks.still (ht : Tracks events d) (hkind : e.kind ≠ .net) :
    Tracks (events ++ [e]) (d.draw e) := by
  have hdraw : d.draw e = d := if_pos hkind
  have hnone : ∀ P : Prop, ¬ (e.kind = .net ∧ P) := fun _ h => hkind h.1
  have htravels : travels e = false := decide_eq_false (hnone _)
  rw [hdraw]
  refine ht.marked (decide_eq_false (hnone _)) (decide_eq_false (hnone _)) (fun uid => ?_)
    (fun _ => rfl) (.refl _) rfl ?_
  · rw [beats_still htravels]
    exact ⟨rfl, Iff.rfl⟩
  · rw [show isOther e = false from decide_eq_false (hnone _)]
    simp

/-- The step for an event of the network. -/
theorem draw_net (hkind : e.kind = .net) : d.draw e =
    if (ends e.label).2.2 = "" then
      { d with marks := d.marks ++ [⟨(ends e.label).2.1, verbOf e, e.when_, e.label⟩] }
    else if verbOf e = send then
      { d with
        queued := d.queued.insert e.seq
          (d.queue e.seq ++ [(e.when_, (ends e.label).2.1, (ends e.label).2.2)]) }
    else if verbOf e = deliver then
      { d with
        queued := d.queued.insert e.seq (d.queue e.seq).tail
        packets := d.packets ++ [⟨e.seq, (ends e.label).2.1, (ends e.label).2.2,
          ((d.queue e.seq).head?.map (·.1)).getD e.when_, e.when_, deliver⟩] }
    else
      match decide (verbOf e ∈ fates), d.queue e.seq with
      | true, (start, _) :: rest =>
        { d with
          queued := d.queued.insert e.seq rest
          packets := d.packets ++
            [⟨e.seq, (ends e.label).2.1, (ends e.label).2.2, start, e.when_, verbOf e⟩] }
      | _, _ =>
        { d with
          queued := d.queued.insert e.seq (d.queue e.seq)
          marks := d.marks ++ [⟨if verbOf e ∈ arrivalFates then (ends e.label).2.2
            else (ends e.label).2.1, verbOf e, e.when_, e.label⟩] } := by
  unfold draw verbOf
  generalize ends e.label = parts
  exact if_neg (not_not.mpr hkind)

theorem Tracks.lane (ht : Tracks events d) (hdrawable : Drawable e) (hkind : e.kind = .net)
    (hdst : (ends e.label).2.2 = "") : Tracks (events ++ [e]) (d.draw e) := by
  have htravels : travels e = false := decide_eq_false fun h => h.2 hdst
  have hverbs : isSend e = false ∧ isDeliver e = false := by
    have hnamed := hdrawable.named
    rw [htravels] at hnamed
    exact ⟨Bool.eq_false_iff.mpr fun h => Bool.false_ne_true (hnamed (.inl h)),
      Bool.eq_false_iff.mpr fun h => Bool.false_ne_true (hnamed (.inr h))⟩
  have hdraw : d.draw e =
      { d with marks := d.marks ++ [⟨(ends e.label).2.1, verbOf e, e.when_, e.label⟩] } := by
    rw [draw_net hkind, if_pos hdst]
  have hother : isOther e = true := by
    refine decide_eq_true ⟨hkind, fun h => ?_, fun h => ?_⟩
    · exact of_decide_eq_false hverbs.1 ⟨hkind, h⟩
    · exact of_decide_eq_false hverbs.2 ⟨hkind, h⟩
  rw [hdraw]
  refine ht.marked hverbs.1 hverbs.2 (fun uid => ?_) (fun _ => rfl) (.refl _) rfl ?_
  · rw [beats_still htravels]
    exact ⟨rfl, Iff.rfl⟩
  · rw [hother]
    simp

/-! ### Events that are drawn as packets -/

theorem lines_keep (d : Drawing) (uid : Int) :
    ({ d with queued := d.queued.insert uid (d.queue uid) } : Drawing).lines.Perm d.lines :=
  (List.perm_append_right_iff _).mp (lines_insert d uid (d.queue uid))

theorem lines_join (d : Drawing) (uid : Int) (x : Departure) :
    ({ d with queued := d.queued.insert uid (d.queue uid ++ [x]) } : Drawing).lines.Perm
      (d.lines ++ [(uid, x.1)]) := by
  refine (List.perm_append_right_iff (line uid (d.queue uid))).mp ?_
  refine (lines_insert d uid (d.queue uid ++ [x])).trans ?_
  rw [List.append_assoc, line, List.map_append]
  exact List.perm_append_comm.append_left _

theorem lines_leave {uid : Int} {x : Departure} {rest : List Departure}
    (hqueue : d.queue uid = x :: rest) :
    ((uid, x.1) :: ({ d with queued := d.queued.insert uid rest } : Drawing).lines).Perm
      d.lines := by
  refine (List.perm_append_right_iff (line uid rest)).mp ?_
  have hperm := lines_insert d uid rest
  rw [hqueue] at hperm
  exact (List.perm_middle.symm).trans hperm

/-- The event takes its place in the line of its uid. -/
theorem waits_concat (ht : Tracks events d) (htravels : travels e = true)
    {queue : List Departure}
    (hqueue : queue.length = (beat (verbOf e)).after (d.queue e.seq).length) (uid : Int) :
    (({ d with queued := d.queued.insert e.seq queue } : Drawing).queue uid).length =
      waiting (beats (events ++ [e]) uid) := by
  rw [queue_insert, beats_concat]
  by_cases h : e.seq = uid
  · subst h
    rw [if_pos rfl, if_pos ⟨htravels, rfl⟩, waiting_concat, hqueue, ht.waits]
  · rw [if_neg h, if_neg fun hboth => h hboth.2]
    exact ht.waits uid

/-- The event is an answer that nobody waits for, or it changes nothing in that. -/
theorem unasked_iff (ht : Tracks events d) (htravels : travels e = true) (uid : Int) :
    Unasked (beats (events ++ [e]) uid) ↔ Unasked (beats events uid) ∨
      uid = e.seq ∧ beat (verbOf e) = .answer ∧ d.queue e.seq = [] := by
  rw [beats_concat]
  by_cases h : e.seq = uid
  · subst h
    rw [if_pos ⟨htravels, rfl⟩, unasked_concat, ← ht.waits, List.length_eq_zero_iff]
    simp only [true_and]
  · rw [if_neg fun hboth => h hboth.2]
    simp only [Ne.symm h, false_and, or_false]

theorem forall_not_unasked (ht : Tracks events d) (htravels : travels e = true)
    (hasked : ¬ (beat (verbOf e) = .answer ∧ d.queue e.seq = [])) :
    (∀ uid, ¬ Unasked (beats events uid)) ↔ ∀ uid, ¬ Unasked (beats (events ++ [e]) uid) := by
  refine forall_congr' fun uid => not_congr ?_
  rw [unasked_iff ht htravels]
  exact ⟨.inl, fun h => h.resolve_right fun h => hasked h.2⟩

variable (ht : Tracks events d) (hkind : e.kind = .net) (hdst : (ends e.label).2.2 ≠ "")

include ht hkind hdst

theorem Tracks.sent (hverb : verbOf e = send) : Tracks (events ++ [e]) (d.draw e) := by
  have htravels : travels e = true := decide_eq_true ⟨hkind, hdst⟩
  have hbeat : beat (verbOf e) = .ask := if_pos hverb
  have hdraw : d.draw e = { d with
      queued := d.queued.insert e.seq
        (d.queue e.seq ++ [(e.when_, (ends e.label).2.1, (ends e.label).2.2)]) } := by
    rw [draw_net hkind, if_neg hdst, if_pos hverb]
  have hsend : isSend e = true := decide_eq_true ⟨hkind, hverb⟩
  have hdeliver : isDeliver e = false := decide_eq_false fun h => by
    rw [hverb] at h
    exact absurd h.2 (by decide)
  have hother : isOther e = false := decide_eq_false fun h => h.2.1 hverb
  rw [hdraw]
  refine ⟨waits_concat ht htravels ?_, ?_, ?_, ?_⟩
  · rw [hbeat, List.length_append]
    rfl
  · obtain ⟨extra, hperm, hextra⟩ := ht.sends
    refine ⟨extra, ?_, hextra.trans (forall_not_unasked ht htravels fun h => ?_)⟩
    · rw [filter_concat, hsend, if_pos rfl, List.map_append, List.append_assoc]
      refine ((lines_join d _ _).append_left _).trans ?_
      rw [← List.append_assoc]
      refine (hperm.append_right _).trans ?_
      rw [List.append_assoc]
      exact List.perm_append_comm.append_left _
    · rw [hbeat] at h
      cases h.1
  · rw [filter_concat, hdeliver]
    exact ht.deliveries
  · rw [filter_concat, hother]
    exact ht.others

theorem Tracks.delivered (hverb : verbOf e = deliver) : Tracks (events ++ [e]) (d.draw e) := by
  have htravels : travels e = true := decide_eq_true ⟨hkind, hdst⟩
  have hnotSend : verbOf e ≠ send := fun h => absurd (hverb.symm.trans h) (by decide)
  have hbeat : beat (verbOf e) = .answer := (if_neg hnotSend).trans (if_pos hverb)
  have hdraw : d.draw e =
      { d with
        queued := d.queued.insert e.seq (d.queue e.seq).tail
        packets := d.packets ++ [⟨e.seq, (ends e.label).2.1, (ends e.label).2.2,
          ((d.queue e.seq).head?.map (·.1)).getD e.when_, e.when_, deliver⟩] } := by
    rw [draw_net hkind, if_neg hdst, if_neg hnotSend, if_pos hverb]
  have hsend : isSend e = false := decide_eq_false fun h => hnotSend h.2
  have hdeliver : isDeliver e = true := decide_eq_true ⟨hkind, hverb⟩
  have hother : isOther e = false := decide_eq_false fun h => h.2.2 hverb
  rw [hdraw]
  refine ⟨waits_concat ht htravels ?_, ?_, ?_, ?_⟩
  · rw [hbeat, List.length_tail]
    rfl
  · obtain ⟨extra, hperm, hextra⟩ := ht.sends
    rw [filter_concat, hsend, List.map_append]
    cases hqueue : d.queue e.seq with
    | nil =>
        -- a packet without a send
        refine ⟨extra ++ [(e.seq, e.when_)], ?_, ?_⟩
        · have hlines := lines_keep d e.seq
          rw [hqueue] at hlines
          rw [← List.append_assoc]
          refine ((hlines.append_left _).trans ?_).trans (hperm.append_right _)
          rw [List.append_assoc, List.append_assoc]
          exact List.perm_append_comm.append_left _
        · refine ⟨fun h => absurd h (by simp), fun h => ?_⟩
          exact absurd ((unasked_iff ht htravels e.seq).mpr (.inr ⟨rfl, hbeat, hqueue⟩)) (h e.seq)
    | cons x rest =>
        refine ⟨extra, ?_, hextra.trans (forall_not_unasked ht htravels fun h => ?_)⟩
        · refine (List.Perm.of_eq (List.append_assoc _ _ _)).trans ?_
          exact ((lines_leave hqueue).append_left _).trans hperm
        · rw [hqueue] at h
          cases h.2
  · rw [filter_concat, filter_concat, hdeliver]
    simp only [decide_true, if_true, List.length_append, List.length_singleton, ht.deliveries]
  · rw [filter_concat, filter_concat, hother]
    exact ht.others

theorem Tracks.fated (hfate : verbOf e ∈ fates) {x : Departure} {rest : List Departure}
    (hqueue : d.queue e.seq = x :: rest) : Tracks (events ++ [e]) (d.draw e) := by
  have htravels : travels e = true := decide_eq_true ⟨hkind, hdst⟩
  have hverb : verbOf e ≠ send ∧ verbOf e ≠ deliver ∧ verbOf e ≠ inflight := by
    refine ⟨?_, ?_, ?_⟩ <;> intro h <;> rw [h] at hfate <;> exact absurd hfate (by decide)
  have hbeat : beat (verbOf e) = .forgo :=
    (if_neg hverb.1).trans ((if_neg hverb.2.1).trans (if_pos hfate))
  have hdraw : d.draw e =
      { d with
        queued := d.queued.insert e.seq rest
        packets := d.packets ++ [⟨e.seq, (ends e.label).2.1, (ends e.label).2.2, x.1, e.when_,
          verbOf e⟩] } := by
    rw [draw_net hkind, if_neg hdst, if_neg hverb.1, if_neg hverb.2.1, hqueue, decide_eq_true hfate]
  have hsend : isSend e = false := decide_eq_false fun h => hverb.1 h.2
  have hdeliver : isDeliver e = false := decide_eq_false fun h => hverb.2.1 h.2
  have hother : isOther e = true := decide_eq_true ⟨hkind, hverb.1, hverb.2.1⟩
  rw [hdraw]
  refine ⟨waits_concat ht htravels ?_, ?_, ?_, ?_⟩
  · rw [hbeat, hqueue]
    rfl
  · obtain ⟨extra, hperm, hextra⟩ := ht.sends
    rw [filter_concat, hsend, List.map_append]
    refine ⟨extra, ?_, hextra.trans (forall_not_unasked ht htravels fun h => ?_)⟩
    · refine (List.Perm.of_eq (List.append_assoc _ _ _)).trans ?_
      exact ((lines_leave hqueue).append_left _).trans hperm
    · rw [hqueue] at h
      cases h.2
  · rw [filter_concat, filter_concat, hdeliver]
    simp only [hverb.2.1, decide_false, Bool.false_eq_true, if_false]
    exact ht.deliveries
  · obtain ⟨ended, marked, hperm, hended, hmarked⟩ := ht.others
    rw [filter_concat, filter_concat, hother]
    simp only [hverb, ne_eq, not_false_eq_true, and_self, decide_true, if_true, List.map_append]
    refine ⟨ended ++ [e], marked, ?_, ?_, hmarked⟩
    · rw [List.append_assoc, List.singleton_append]
      exact List.perm_middle.trans ((List.perm_append_singleton e _).symm.trans (hperm.append_right _))
    · rw [List.map_append]
      exact hended.append_right _

theorem Tracks.noted (hsend : verbOf e ≠ send) (hdeliver : verbOf e ≠ deliver)
    (hidle : verbOf e ∉ fates ∨ d.queue e.seq = []) : Tracks (events ++ [e]) (d.draw e) := by
  have htravels : travels e = true := decide_eq_true ⟨hkind, hdst⟩
  have hdraw : d.draw e =
      { d with
        queued := d.queued.insert e.seq (d.queue e.seq)
        marks := d.marks ++ [⟨if verbOf e ∈ arrivalFates then (ends e.label).2.2
          else (ends e.label).2.1, verbOf e, e.when_, e.label⟩] } := by
    rw [draw_net hkind, if_neg hdst, if_neg hsend, if_neg hdeliver]
    rcases hidle with hidle | hidle
    · rw [decide_eq_false hidle]
    · rw [hidle]
      cases decide (verbOf e ∈ fates) <;> rfl
  have hother : isOther e = true := decide_eq_true ⟨hkind, hsend, hdeliver⟩
  have hbeat : beat (verbOf e) ≠ .answer ∧
      (beat (verbOf e)).after (d.queue e.seq).length = (d.queue e.seq).length := by
    unfold beat
    rw [if_neg hsend, if_neg hdeliver]
    split
    · rename_i hfate
      rw [hidle.resolve_left (not_not.mpr hfate)]
      exact ⟨by decide, rfl⟩
    · exact ⟨by decide, rfl⟩
  have hqueue : ∀ uid, ({ d with queued := d.queued.insert e.seq (d.queue e.seq) } :
      Drawing).queue uid = d.queue uid := fun uid => by
    rw [queue_insert]
    split
    · rename_i h
      rw [h]
    · rfl
  rw [hdraw]
  refine ht.marked (decide_eq_false fun h => hsend h.2) (decide_eq_false fun h => hdeliver h.2)
    (fun uid => ⟨?_, ?_⟩) hqueue (lines_keep d e.seq) rfl ?_
  · rw [← waits_concat ht htravels hbeat.2.symm uid, hqueue uid]
    exact ht.waits uid
  · rw [unasked_iff ht htravels uid]
    exact ⟨fun h => h.resolve_right fun h => hbeat.1 h.2.1, .inl⟩
  · rw [hother]
    simp

omit ht hkind hdst

/-- **One step of the loop.** -/
theorem Tracks.draw (ht : Tracks events d) (hdrawable : Drawable e) :
    Tracks (events ++ [e]) (d.draw e) := by
  by_cases hkind : e.kind = .net
  · by_cases hdst : (ends e.label).2.2 = ""
    · exact ht.lane hdrawable hkind hdst
    · by_cases hsend : verbOf e = send
      · exact ht.sent hkind hdst hsend
      · by_cases hdeliver : verbOf e = deliver
        · exact ht.delivered hkind hdst hdeliver
        · by_cases hfate : verbOf e ∈ fates
          · cases hqueue : d.queue e.seq with
            | nil => exact ht.noted hkind hdst hsend hdeliver (.inr hqueue)
            | cons x rest => exact ht.fated hkind hdst hfate hqueue
          · exact ht.noted hkind hdst hsend hdeliver (.inl hfate)
  · exact ht.still hkind

/-- The whole loop. -/
theorem Tracks.foldl (hdrawable : ∀ e ∈ events, Drawable e) :
    Tracks events (events.foldl Drawing.draw .empty) := by
  induction events using List.reverseRecOn with
  | nil => exact .empty
  | append_singleton events e ih =>
      rw [List.foldl_append]
      exact (ih fun x hx => hdrawable x (List.mem_append_left _ hx)).draw
        (hdrawable e (List.mem_append_right _ List.mem_cons_self))

/-! ### Where marks come from -/

/-- The mark is on the lane of one of the hosts its event names. -/
def MarkedBy (events : List TraceEvent) (m : Mark) : Prop :=
  ∃ e ∈ events, e.kind = .net ∧
    (m.host = (ends e.label).2.1 ∧ ((ends e.label).2.2 = "" ∨ travels e) ∨
      m.host = (ends e.label).2.2 ∧ travels e)

theorem markedBy_draw (hd : ∀ m ∈ d.marks, MarkedBy events m) :
    ∀ m ∈ (d.draw e).marks, MarkedBy (events ++ [e]) m := by
  have hold : ∀ m ∈ d.marks, MarkedBy (events ++ [e]) m := by
    intro m hm
    obtain ⟨x, hx, hrest⟩ := hd m hm
    exact ⟨x, List.mem_append_left _ hx, hrest⟩
  have hlast : e ∈ events ++ [e] := List.mem_append_right _ List.mem_cons_self
  intro m hm
  by_cases hkind : e.kind ≠ .net
  · unfold draw at hm
    rw [if_pos hkind] at hm
    exact hold m hm
  · rw [not_not] at hkind
    rw [draw_net hkind] at hm
    split at hm
    · rename_i hdst
      rcases List.mem_append.mp hm with hm | hm
      · exact hold m hm
      · have hhost := congrArg Mark.host (List.mem_singleton.mp hm)
        dsimp only at hhost
        exact ⟨e, hlast, hkind, .inl ⟨hhost, .inl hdst⟩⟩
    · rename_i hdst
      have htravels : travels e = true := decide_eq_true ⟨hkind, hdst⟩
      split at hm
      · exact hold m hm
      · split at hm
        · exact hold m hm
        · split at hm
          · exact hold m hm
          · rcases List.mem_append.mp hm with hm | hm
            · exact hold m hm
            · rw [List.mem_singleton.mp hm]
              refine ⟨e, hlast, hkind, ?_⟩
              dsimp only
              split
              · exact .inr ⟨rfl, htravels⟩
              · exact .inl ⟨rfl, .inr htravels⟩

theorem markedBy_foldl : ∀ m ∈ (events.foldl Drawing.draw .empty).marks, MarkedBy events m := by
  induction events using List.reverseRecOn with
  | nil => exact fun m hm => absurd hm List.not_mem_nil
  | append_singleton events e ih =>
      rw [List.foldl_append]
      exact markedBy_draw ih

end Drawing

/-! ## Lanes -/

theorem mem_keys_foldl (names : List HostName) (order : Dict HostName Unit) (name : HostName) :
    name ∈ (names.foldl (fun order name => order.insert name ()) order).keys ↔
      name ∈ names ∨ name ∈ order.keys := by
  induction names generalizing order with
  | nil => simp
  | cons n names ih =>
      rw [List.foldl_cons, ih, Dict.mem_keys_iff, Dict.get?_insert, List.mem_cons]
      by_cases h : n = name
      · simp [h]
      · rw [if_neg h, ← Dict.mem_keys_iff]
        simp [Ne.symm h]

/-- The hosts that a label names. -/
def namedBy (e : TraceEvent) : List HostName :=
  [(ends e.label).2.1, (ends e.label).2.2].filter (· ≠ "")

theorem mention_other {found : Dict HostName Unit × Bool} {e : TraceEvent}
    (hkind : e.kind ≠ .net) :
    mention found e =
      if e.host ≠ "" then (found.1.insert e.host (), found.2) else (found.1, true) := by
  obtain ⟨order, hostless⟩ := found
  unfold mention
  dsimp only
  rw [if_neg hkind]

theorem mention_net {found : Dict HostName Unit × Bool} {e : TraceEvent} (hkind : e.kind = .net) :
    mention found e = ((namedBy e).foldl (fun order name => order.insert name ()) found.1,
      found.2 || (namedBy e).isEmpty) := by
  obtain ⟨order, hostless⟩ := found
  unfold mention namedBy
  dsimp only
  rw [if_pos hkind]

/-- A lane that was there stays. -/
theorem mention_mono (found : Dict HostName Unit × Bool) (e : TraceEvent) :
    (∀ name ∈ found.1.keys, name ∈ (mention found e).1.keys) ∧
      (found.2 = true → (mention found e).2 = true) := by
  by_cases hkind : e.kind = .net
  · rw [mention_net hkind]
    refine ⟨fun name h => ?_, fun h => ?_⟩
    · dsimp only
      rw [mem_keys_foldl]
      exact .inr h
    · dsimp only
      rw [h, Bool.true_or]
  · rw [mention_other hkind]
    split
    · refine ⟨fun name h => ?_, id⟩
      exact (mem_keys_foldl [e.host] found.1 name).mpr (.inr h)
    · exact ⟨fun _ h => h, fun _ => rfl⟩

/-- Every net event has the lanes of the hosts it names, or the lane without a host. -/
theorem lanes_of_net {events : List TraceEvent} {e : TraceEvent} (he : e ∈ events)
    (hkind : e.kind = .net) :
    (∀ name ∈ namedBy e, name ∈ laneHosts events) ∧ (namedBy e = [] → "" ∈ laneHosts events) := by
  have hfold : (∀ name ∈ namedBy e, name ∈ (events.foldl mention (Dict.empty, false)).1.keys) ∧
      (namedBy e = [] → (events.foldl mention (Dict.empty, false)).2 = true) := by
    induction events using List.reverseRecOn with
    | nil => cases he
    | append_singleton events x ih =>
        rw [List.foldl_append, List.foldl_cons, List.foldl_nil]
        rcases List.mem_append.mp he with he | he
        · obtain ⟨hnames, hnone⟩ := ih he
          have hmono := mention_mono (events.foldl mention (Dict.empty, false)) x
          exact ⟨fun name h => hmono.1 name (hnames name h), fun h => hmono.2 (hnone h)⟩
        · rw [← List.mem_singleton.mp he, mention_net hkind]
          refine ⟨fun name h => ?_, fun h => ?_⟩
          · dsimp only
            rw [mem_keys_foldl]
            exact .inl h
          · dsimp only
            rw [h, List.isEmpty_nil, Bool.or_true]
  unfold laneHosts
  dsimp only
  split
  · rename_i hhostless
    exact ⟨fun name h => List.mem_append_left _ (hfold.1 name h), fun _ => by simp⟩
  · rename_i hhostless
    exact ⟨hfold.1, fun h => absurd (hfold.2 h) hhostless⟩

theorem lane_of_mark {events : List TraceEvent} {m : Mark} (hm : Drawing.MarkedBy events m)
    (hdrawable : ∀ e ∈ events, Drawable e) : m.host ∈ laneHosts events := by
  obtain ⟨e, he, hkind, hhost⟩ := hm
  obtain ⟨hnames, hnone⟩ := lanes_of_net he hkind
  have hnamed : ∀ {name : HostName}, name ≠ "" →
      name ∈ [(ends e.label).2.1, (ends e.label).2.2] → name ∈ laneHosts events :=
    fun hne h => hnames _ (List.mem_filter.mpr ⟨h, decide_eq_true hne⟩)
  rcases hhost with ⟨hhost, hdst | htravels⟩ | ⟨hhost, htravels⟩
  · rw [hhost]
    by_cases hsrc : (ends e.label).2.1 = ""
    · rw [hsrc]
      refine hnone ?_
      unfold namedBy
      rw [hsrc, hdst]
      rfl
    · exact hnamed hsrc (by simp)
  · rw [hhost]
    exact hnamed ((hdrawable e he).src htravels) (by simp)
  · rw [hhost]
    exact hnamed (of_decide_eq_true htravels).2 (by simp)

/-! ## Every send drawn once -/

/-- **Every send is drawn exactly once** as long as no delivery comes when no send of its
uid waits, and only then; the rest of the timeline is right anyway. -/
theorem drawsOnce_iff {events : List TraceEvent} (hdrawable : ∀ e ∈ events, Drawable e) :
    DrawsOnce events ↔ ∀ uid, ¬ Unasked (beats events uid) := by
  have ht := Drawing.Tracks.foldl hdrawable
  obtain ⟨extra, hperm, hextra⟩ := ht.sends
  set d := events.foldl Drawing.draw .empty with hd
  -- the packets are what was drawn and what waits in the end, in another order
  have hpackets : (packets events).1.Perm
      (d.packets ++ d.queued.entries.flatMap fun e => Drawing.stubs e.1 e.2) :=
    List.mergeSort_perm _ _
  have hstubs : ∀ p ∈ d.queued.entries.flatMap (fun e => Drawing.stubs e.1 e.2),
      p.fate = inflight := by
    intro p hp
    obtain ⟨e, -, hp⟩ := List.mem_flatMap.mp hp
    obtain ⟨x, -, rfl⟩ := List.mem_map.mp hp
    rfl
  have hfilter : ∀ keep : Packet → Bool, (∀ p, p.fate = inflight → keep p = false) →
      ((packets events).1.filter keep).Perm (d.packets.filter keep) := by
    intro keep hkeep
    refine (hpackets.filter keep).trans (.of_eq ?_)
    have hnone : (d.queued.entries.flatMap fun e => Drawing.stubs e.1 e.2).filter keep = [] :=
      List.filter_eq_nil_iff.mpr fun p hp => Bool.eq_false_iff.mp (hkeep p (hstubs p hp))
    rw [List.filter_append, hnone, List.append_nil]
  have horigins : ((packets events).1.map Drawing.origin).Perm
      ((events.filter isSend).map (fun e => (e.seq, e.when_)) ++ extra) := by
    refine (hpackets.map _).trans (.trans (.of_eq ?_) hperm)
    rw [List.map_append, List.map_flatMap]
    congr 1
    refine List.flatMap_congr fun e _ => ?_
    unfold Drawing.stubs Drawing.line
    rw [List.map_map]
    rfl
  rw [← hextra]
  constructor
  · intro h
    have hlength := (h.sends.symm.trans horigins).length_eq
    rw [List.length_append] at hlength
    exact List.length_eq_zero_iff.mp (by omega)
  · rintro rfl
    obtain ⟨ended, marked, hsplit, hended, hmarked⟩ := ht.others
    refine ⟨?_, ?_, ⟨ended, marked, hsplit, ?_, hmarked⟩, ?_⟩
    · rw [List.append_nil] at horigins
      exact horigins
    · refine (hfilter _ fun p hp => ?_).length_eq.trans ht.deliveries
      rw [hp]
      decide
    · refine ((hfilter _ fun p hp => ?_).map _).trans hended
      rw [hp]
      decide
    · exact fun m hm => lane_of_mark (Drawing.markedBy_foldl m hm) hdrawable

end SimLoop.Timeline
