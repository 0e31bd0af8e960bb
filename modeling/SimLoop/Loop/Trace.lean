/-
  Loop/Trace.lean --- host names, the trace recorder, and what its hash reads
  (`_trace.py`).

  Times are exact numbers.  `TraceRecorder.hash` feeds SHA-256 one line an event: its
  kind, time, sequence number, host and label, with `|` between them and a newline at
  the end.  The label comes last, so a `|` in it does no harm; the other four fields
  never hold one.
-/
import SimLoop.Foundation.Fields
import Mathlib.Algebra.Order.Field.Rat
import Mathlib.Data.Rat.Encodable

set_option autoImplicit false

/-! ## Host names -/

namespace SimLoop

/-- A registered host's name. -/
abbrev HostName := String

/-- `DRIVER`: the implicit host of code that runs outside every machine. -/
def driver : HostName := "driver"

/-- `WIRE`: what runs under no machine at all. -/
def wire : HostName := ""

end SimLoop

namespace SimLoop.Loop

open SimLoop.Foundation

/-! ## The recorder -/

/-- `EventKind`. -/
inductive EventKind where
  | schedule
  | run
  | advance
  | cancel
  | net
  deriving DecidableEq, Repr

/-- `TraceEvent`. -/
structure TraceEvent where
  kind : EventKind
  when_ : ℚ
  seq : Int
  label : String
  host : HostName := ""
  deriving DecidableEq

/-- `TraceRecorder`: the events so far, oldest first. -/
structure TraceRecorder where
  events : List TraceEvent
  deriving DecidableEq

/-- `TraceRecorder.record`. -/
def TraceRecorder.record (r : TraceRecorder) (e : TraceEvent) : TraceRecorder :=
  ⟨r.events ++ [e]⟩

@[simp] theorem TraceRecorder.events_record (r : TraceRecorder) (e : TraceEvent) :
    (r.record e).events = r.events ++ [e] := rfl

/-! ## The byte stream -/

/-- `str(kind)`: the five literals of `EventKind`. -/
def EventKind.text : EventKind → String
  | .schedule => "schedule"
  | .run => "run"
  | .advance => "advance"
  | .cancel => "cancel"
  | .net => "net"

/-- `repr` of a time: no two times look the same, and none holds a delimiter. -/
structure FloatRepr where
  repr : ℚ → String
  injective : Function.Injective repr
  plain : ∀ x, '|' ∉ (repr x).toList

namespace TraceEvent

/-- The line of one event. -/
def line (F : FloatRepr) (e : TraceEvent) : String :=
  s!"{e.kind.text}|{F.repr e.when_}|{e.seq}|{e.host}|{e.label}\n"

/-- The fields of a line. -/
def fields (F : FloatRepr) (e : TraceEvent) : List String :=
  [e.kind.text, F.repr e.when_, toString e.seq, e.host, e.label]

/-- What the recorder's callers owe it: host fields without delimiters, labels of one line. -/
structure Delimited (e : TraceEvent) : Prop where
  host_bar : '|' ∉ e.host.toList
  host_newline : '\n' ∉ e.host.toList
  label_newline : '\n' ∉ e.label.toList

end TraceEvent

namespace TraceRecorder

/-- The bytes the digest has been updated with. -/
def hashInput (F : FloatRepr) (r : TraceRecorder) : ByteArray :=
  r.events.foldl (fun digest e => digest ++ (e.line F).toUTF8) ByteArray.empty

/-- `TraceRecorder.hash`, over the digest function. -/
def hash (sha256 : ByteArray → String) (F : FloatRepr) (r : TraceRecorder) : String :=
  sha256 (r.hashInput F)

end TraceRecorder

/-! ## Reading it back -/

/-- The separators of a line, one behind each field. -/
def separators : List Char := ['|', '|', '|', '|', '\n']

/-- The fields of every line of a byte stream. -/
def decodeLines (bytes : ByteArray) : Option (List (List String)) :=
  (String.fromUTF8? bytes).bind fun text =>
    (decodeRecords separators text.toList).map fun records =>
      records.map fun fields => fields.map String.ofList

/-! ## Lines are records -/

theorem EventKind.text_injective : Function.Injective EventKind.text := by
  intro a b h
  cases a <;> cases b <;> first | rfl | exact absurd h (by decide)

theorem EventKind.bar_not_mem_text (k : EventKind) : '|' ∉ k.text.toList := by
  cases k <;> decide

/-- A decimal numeral holds digits only. -/
theorem not_mem_repr {c : Char} (hc : c.isDigit = false) (n : Nat) : c ∉ n.repr.toList := by
  intro h
  rw [Nat.toList_repr] at h
  rw [Nat.isDigit_of_mem_toDigits (by omega) (by omega) h] at hc
  cases hc

theorem toList_toString_negSucc (m : Nat) :
    (toString (Int.negSucc m)).toList = '-' :: (m + 1).repr.toList :=
  String.toList_append

/-- A numeral of a sequence number holds no delimiter. -/
theorem bar_not_mem_toString (n : Int) : '|' ∉ (toString n).toList := by
  intro h
  cases n with
  | ofNat m => exact not_mem_repr rfl m h
  | negSucc m =>
    rw [toList_toString_negSucc] at h
    rcases List.mem_cons.mp h with hminus | hdigit
    · exact absurd hminus (by decide)
    · exact not_mem_repr rfl _ hdigit

/-- Reading the digits back gives the number. -/
theorem repr_toList_injective {m n : Nat} (h : m.repr.toList = n.repr.toList) : m = n := by
  rw [Nat.toList_repr, Nat.toList_repr] at h
  have hread := congrArg (fun digits => Nat.ofDigitChars 10 digits 0) h
  simpa only [Nat.ofDigitChars_ten_toDigits] using hread

/-- A numeral says which number it is. -/
theorem toString_injective {m n : Int} (h : toString m = toString n) : m = n := by
  have hlist : (toString m).toList = (toString n).toList := congrArg String.toList h
  have hsign : ∀ i j : Nat, i.repr.toList ≠ '-' :: (j + 1).repr.toList := by
    intro i j heq
    exact not_mem_repr (c := '-') rfl i (heq ▸ List.mem_cons_self)
  cases m with
  | ofNat i =>
    cases n with
    | ofNat j => exact congrArg Int.ofNat (repr_toList_injective hlist)
    | negSucc j => exact absurd (hlist.trans (toList_toString_negSucc j)) (hsign i j)
  | negSucc i =>
    rw [toList_toString_negSucc] at hlist
    cases n with
    | ofNat j => exact absurd hlist.symm (hsign j i)
    | negSucc j =>
      rw [toList_toString_negSucc] at hlist
      have hsucc := repr_toList_injective (List.cons.inj hlist).2
      exact congrArg Int.negSucc (Nat.succ.inj hsucc)

namespace TraceEvent

variable (F : FloatRepr)

theorem toList_line (e : TraceEvent) :
    (e.line F).toList = writeRecord separators ((e.fields F).map String.toList) := by
  have htext : ∀ text : String, toString text = text := fun _ => rfl
  simp [line, fields, separators, writeRecord, String.toList_append, htext]

theorem separated_fields {e : TraceEvent} (h : e.Delimited) :
    Separated separators ((e.fields F).map String.toList) := by
  refine .cons e.kind.bar_not_mem_text (.cons (F.plain e.when_) (.cons ?_ (.cons ?_ (.cons ?_ .nil))))
  · exact bar_not_mem_toString e.seq
  · exact h.host_bar
  · exact h.label_newline

/-- The fields say which event it was. -/
theorem fields_injective : Function.Injective (fields F) := by
  intro a b h
  simp only [fields, List.cons.injEq, and_true] at h
  obtain ⟨hkind, hwhen, hseq, hhost, hlabel⟩ := h
  obtain ⟨_, _, _, _, _⟩ := a
  obtain ⟨_, _, _, _, _⟩ := b
  simp only [TraceEvent.mk.injEq]
  exact ⟨EventKind.text_injective hkind, F.injective hwhen, toString_injective hseq, hlabel, hhost⟩

end TraceEvent

namespace TraceRecorder

variable (F : FloatRepr)

/-- The byte stream is the UTF-8 encoding of the lines. -/
theorem hashInput_eq (r : TraceRecorder) :
    r.hashInput F =
      (String.ofList (writeRecords separators
        (r.events.map fun e => (e.fields F).map String.toList))).toUTF8 := by
  have hfold : ∀ (events : List TraceEvent) (digest : String),
      events.foldl (fun digest e => digest ++ (e.line F).toUTF8) digest.toUTF8 =
        (digest ++ String.ofList (writeRecords separators
          (events.map fun e => (e.fields F).map String.toList))).toUTF8 := by
    intro events
    induction events with
    | nil => intro digest; simp [writeRecords]
    | cons e events ih =>
      intro digest
      rw [List.foldl_cons, String.toUTF8_eq_toByteArray, String.toUTF8_eq_toByteArray,
        ← String.toByteArray_append, ← String.toUTF8_eq_toByteArray, ih]
      congr 1
      apply String.toList_injective
      simp [String.toList_append, writeRecords, TraceEvent.toList_line]
  have h := hfold r.events ""
  rwa [String.empty_append] at h

/-- The decoder recovers the fields of every event, in order. -/
theorem decodeLines_hashInput {r : TraceRecorder} (h : ∀ e ∈ r.events, e.Delimited) :
    decodeLines (r.hashInput F) = some (r.events.map (TraceEvent.fields F)) := by
  have hsep : ∀ fields ∈ r.events.map (fun e => (e.fields F).map String.toList),
      Separated separators fields := by
    intro fields hmem
    obtain ⟨e, he, rfl⟩ := List.mem_map.mp hmem
    exact TraceEvent.separated_fields F (h e he)
  unfold decodeLines
  rw [hashInput_eq]
  have hutf : ∀ text : String, String.fromUTF8? text.toUTF8 = some text := by
    intro text
    have hvalid : text.toByteArray.IsValidUTF8 := text.isValidUTF8
    simp only [String.fromUTF8?, String.toUTF8_eq_toByteArray, dif_pos hvalid]
    rfl
  rw [hutf, Option.bind_some, String.toList_ofList, separators, decodeRecords_write hsep]
  simp [Function.comp_def]

/-- Two recorders feed the same bytes exactly when they hold the same events, and the events'
fields can be read off the bytes. -/
theorem hashInput_injective {a b : TraceRecorder} (ha : ∀ e ∈ a.events, e.Delimited)
    (hb : ∀ e ∈ b.events, e.Delimited) :
    (a.hashInput F = b.hashInput F ↔ a.events = b.events) ∧
      decodeLines (a.hashInput F) = some (a.events.map (TraceEvent.fields F)) := by
  refine ⟨⟨fun heq => ?_, fun heq => ?_⟩, decodeLines_hashInput F ha⟩
  · have hdecode : some (a.events.map (TraceEvent.fields F)) =
        some (b.events.map (TraceEvent.fields F)) := by
      rw [← decodeLines_hashInput F ha, heq, decodeLines_hashInput F hb]
    exact List.map_injective_iff.mpr (TraceEvent.fields_injective F) (Option.some.inj hdecode)
  · unfold hashInput
    rw [heq]

end TraceRecorder

/-! ## A label with a bar in it -/

/-- Zero as Python writes it; the other times get a unary numeral each. -/
def zeroRepr : FloatRepr where
  repr x := if x = 0 then "0.0" else String.ofList (List.replicate (Encodable.encode x) '1')
  injective := by
    have hones : ∀ n : Nat, "0.0" ≠ String.ofList (List.replicate n '1') := by
      intro n h
      have hdot : '.' ∈ (String.ofList (List.replicate n '1')).toList := by
        rw [← h]
        decide
      rw [String.toList_ofList] at hdot
      exact absurd (List.eq_of_mem_replicate hdot) (by decide)
    intro x y h
    dsimp only at h
    by_cases hx : x = 0 <;> by_cases hy : y = 0
    · rw [hx, hy]
    · rw [if_pos hx, if_neg hy] at h
      exact absurd h (hones _)
    · rw [if_neg hx, if_pos hy] at h
      exact absurd h.symm (hones _)
    · rw [if_neg hx, if_neg hy] at h
      have hlen := congrArg String.length h
      simp only [String.length_ofList, List.length_replicate] at hlen
      exact Encodable.encode_injective hlen
  plain x := by
    split
    · decide
    · rw [String.toList_ofList]
      intro h
      exact absurd (List.eq_of_mem_replicate h) (by decide)

/-- A callback on `web` whose label holds a bar, and one whose label does not. -/
def barred : TraceRecorder := ⟨[⟨.run, 0, 3, "poll|read", "web"⟩]⟩

def unbarred : TraceRecorder := ⟨[⟨.run, 0, 3, "poll", "web"⟩, ⟨.advance, 0, -1, "", ""⟩]⟩

theorem hashInput_injective_barred :
    (barred.hashInput zeroRepr = unbarred.hashInput zeroRepr ↔ barred.events = unbarred.events) ∧
      decodeLines (barred.hashInput zeroRepr) =
        some (barred.events.map (TraceEvent.fields zeroRepr)) :=
  TraceRecorder.hashInput_injective zeroRepr
    (by intro e he; rw [List.mem_singleton.mp he]; exact ⟨by decide, by decide, by decide⟩)
    (by
      intro e he
      rcases List.mem_cons.mp he with rfl | he
      · exact ⟨by decide, by decide, by decide⟩
      · rw [List.mem_singleton.mp he]
        exact ⟨by decide, by decide, by decide⟩)

end SimLoop.Loop
