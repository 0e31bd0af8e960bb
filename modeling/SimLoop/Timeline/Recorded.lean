/-
  Timeline/Recorded.lean --- the events a network records, as a timeline reads them.

  The label of a net event is read back as it was written, because no host has a name
  with the separator in it.
-/
import SimLoop.Net.Conservation
import SimLoop.Net.Names
import SimLoop.Timeline.Drawing

set_option autoImplicit false

namespace SimLoop.Net

/-! ## Labels -/

/-- A verb as `_trace` writes it. -/
def Verb.text : Verb → String
  | .send => "send"
  | .drop => "drop"
  | .dup => "dup"
  | .hold => "hold"
  | .release => "release"
  | .lost => "lost"
  | .deliver => "deliver"

/-- A label as it is written. -/
def NetLabel.text : NetLabel → String
  | .packet verb src dst => verb.text ++ " " ++ src ++ ">" ++ dst
  | .crash name => "crash" ++ " " ++ name
  | .restart name => "restart" ++ " " ++ name

/-- A net event as the recorder of the loop keeps it. -/
def NetEvent.recorded (e : NetEvent) : Loop.TraceEvent := ⟨.net, e.when_, e.uid, e.label.text, ""⟩

end SimLoop.Net

namespace SimLoop.Timeline

open SimLoop.Foundation SimLoop.Net

/-! ## Labels are read back -/

theorem partition_append {sep : Char} {before : String} (h : sep ∉ before.toList) (after : String) :
    partition sep (before ++ String.singleton sep ++ after) =
      (before, String.singleton sep, after) := by
  have hlist : (before ++ String.singleton sep ++ after).toList =
      before.toList ++ sep :: after.toList := by
    rw [String.toList_append, String.toList_append, List.append_assoc, String.toList_singleton]
    rfl
  unfold partition
  rw [hlist, readField_append h]
  simp only [String.ofList_toList]

theorem partition_none {sep : Char} {text : String} (h : sep ∉ text.toList) :
    partition sep text = (text, "", "") := by
  have hnone : ∀ l : List Char, sep ∉ l → readField sep l = none := by
    intro l
    induction l with
    | nil => exact fun _ => rfl
    | cons x l ih =>
        intro hl
        obtain ⟨hx, hl⟩ := List.ne_and_not_mem_of_not_mem_cons hl
        rw [readField, if_neg hx.symm, ih hl]
        rfl
  unfold partition
  rw [hnone _ h]

/-- No name has the separator in it. -/
theorem separated_of_nameable {name : HostName} (h : Nameable name) : '>' ∉ name.toList :=
  fun hmem => h.2 _ hmem (by decide)

theorem ends_packet (verb : Verb) {src : HostName} (hsrc : Nameable src) (dst : HostName) :
    ends (NetLabel.packet verb src dst).text = (verb.text, src, dst) := by
  have hverb : ' ' ∉ verb.text.toList := by
    cases verb <;> decide
  have hfirst : partition ' ' (NetLabel.packet verb src dst).text =
      (verb.text, " ", src ++ ">" ++ dst) := by
    have h := partition_append hverb (src ++ ">" ++ dst)
    refine Eq.trans (congrArg (partition ' ') ?_) h
    simp only [NetLabel.text, String.append_assoc]
    rfl
  have hsecond := partition_append (separated_of_nameable hsrc) dst
  unfold ends
  rw [hfirst]
  dsimp only
  rw [show src ++ ">" ++ dst = src ++ String.singleton '>' ++ dst from rfl, hsecond]
  rfl

/-- A label that names one machine. -/
theorem ends_machine {verb name : String} (hverb : ' ' ∉ verb.toList) (hname : Nameable name) :
    ends (verb ++ " " ++ name) = (verb, name, "") := by
  have hfirst := partition_append hverb name
  unfold ends
  rw [show verb ++ " " ++ name = verb ++ String.singleton ' ' ++ name from rfl, hfirst]
  dsimp only
  rw [partition_none (separated_of_nameable hname)]
  rfl

/-! ## Net events in a timeline -/

/-- What a verb does to the line of its uid. -/
def verbBeat : Verb → Beat
  | .send => .ask
  | .deliver => .answer
  | .drop => .forgo
  | .lost => .forgo
  | .hold => .forgo
  | .dup => .rest
  | .release => .rest

theorem beat_text (verb : Verb) : beat verb.text = verbBeat verb := by
  cases verb <;> decide

/-- What the trace says of a uid, in order. -/
def verbs (trace : List NetEvent) (uid : Nat) : List Verb :=
  (trace.filter (·.uid = uid)).filterMap (·.label.verb)

theorem verbs_concat (trace : List NetEvent) (e : NetEvent) (uid : Nat) :
    verbs (trace ++ [e]) uid =
      verbs trace uid ++ if e.uid = uid then e.label.verb.toList else [] := by
  unfold verbs
  rw [List.filter_append, List.filterMap_append]
  by_cases h : e.uid = uid
  · cases hverb : e.label.verb <;> simp [h, hverb]
  · simp [h]

/-- What a label is read as. -/
theorem ends_text {label : NetLabel} (h : label.Named) :
    (∃ verb src dst, label = .packet verb src dst ∧ src ≠ "" ∧ dst ≠ "" ∧
      ends label.text = (verb.text, src, dst)) ∨
    label.verb = none ∧ ∃ verb name, verb ≠ send ∧ verb ≠ deliver ∧
      ends label.text = (verb, name, "") := by
  cases label with
  | packet verb src dst => exact .inl ⟨verb, src, dst, rfl, h.1.1, h.2.1, ends_packet verb h.1 dst⟩
  | crash name =>
      exact .inr ⟨rfl, "crash", name, by decide, by decide, ends_machine (by decide) h⟩
  | restart name =>
      exact .inr ⟨rfl, "restart", name, by decide, by decide, ends_machine (by decide) h⟩

theorem drawable_recorded {e : NetEvent} (he : e.label.Named) : Drawable e.recorded := by
  rcases ends_text he with ⟨verb, src, dst, -, hsrc, hdst, hends⟩ |
    ⟨-, verb, name, hsend, hdeliver, hends⟩
  · have hends' : ends e.recorded.label = (verb.text, src, dst) := hends
    refine ⟨fun _ => decide_eq_true ⟨rfl, ?_⟩, fun _ => ?_⟩ <;> rw [hends']
    · exact hdst
    · exact hsrc
  · have hends' : ends e.recorded.label = (verb, name, "") := hends
    refine ⟨fun h => ?_, fun h => ?_⟩
    · have hverb : verbOf e.recorded = verb := congrArg Prod.fst hends'
      rcases h with h | h
      · exact absurd (hverb ▸ (of_decide_eq_true h).2) hsend
      · exact absurd (hverb ▸ (of_decide_eq_true h).2) hdeliver
    · exact absurd (congrArg (·.2.2) hends') (of_decide_eq_true h).2

/-- The beats of a uid are what the trace says of it. -/
theorem beats_recorded {trace : List NetEvent} (htrace : ∀ e ∈ trace, e.label.Named) (uid : Nat) :
    beats (trace.map NetEvent.recorded) uid = (verbs trace uid).map verbBeat := by
  induction trace using List.reverseRecOn with
  | nil => rfl
  | append_singleton trace e ih =>
      have ih := ih fun x hx => htrace x (List.mem_append_left _ hx)
      have huid : e.recorded.seq = (uid : Int) ↔ e.uid = uid := by
        show ((e.uid : Nat) : Int) = uid ↔ _
        exact Int.ofNat_inj
      rw [List.map_append, List.map_cons, List.map_nil, beats_concat, ih, verbs_concat]
      rcases ends_text (htrace e (List.mem_append_right _ List.mem_cons_self)) with
        ⟨verb, src, dst, hlabel, -, hdst, hends⟩ | ⟨hlabel, verb, name, -, -, hends⟩
      · have hends' : ends e.recorded.label = (verb.text, src, dst) := hends
        have htravels : travels e.recorded = true := decide_eq_true ⟨rfl, by rw [hends']; exact hdst⟩
        have hverb : beat (verbOf e.recorded) = verbBeat verb := by
          rw [verbOf, hends', ← beat_text]
        by_cases h : e.uid = uid
        · rw [if_pos ⟨htravels, huid.mpr h⟩, hverb]
          simp [h, hlabel, NetLabel.verb]
        · rw [if_neg fun hboth => h (huid.mp hboth.2)]
          simp [h]
      · have hends' : ends e.recorded.label = (verb, name, "") := hends
        have htravels : travels e.recorded = false :=
          decide_eq_false fun h => h.2 (by rw [hends'])
        rw [if_neg (by rw [htravels]; exact fun h => Bool.false_ne_true h.1)]
        simp [hlabel]

/-- The same for a timeline that shows the events of the loop as well. -/
theorem beats_of_net {events : List Loop.TraceEvent} {trace : List NetEvent}
    (hevents : events.filter (·.kind = .net) = trace.map NetEvent.recorded)
    (htrace : ∀ e ∈ trace, e.label.Named) (uid : Nat) :
    beats events uid = (verbs trace uid).map verbBeat := by
  have hfilter : beats (events.filter (·.kind = .net)) uid = beats events uid := by
    unfold beats
    rw [List.filter_filter]
    refine congrArg (List.map _) (List.filter_congr fun e _ => ?_)
    by_cases hkind : e.kind = .net <;> simp [travels, hkind]
  rw [← hfilter, hevents]
  exact beats_recorded htrace uid

end SimLoop.Timeline
