/-
  Explore/Divergence.lean --- where two traces part ways (`_diff_traces` of
  `_explore.py`).
-/
import SimLoop.Loop.Trace

set_option autoImplicit false

namespace SimLoop.Explore

open SimLoop.Loop

/-- `_CONTEXT`: events of context shown either side of the split point. -/
def contextSize : Nat := 5

/-- `_MIN_PREFIX`: below this much agreement the split point carries no context. -/
def minPrefix : Nat := 5

/-- `_ANCHOR_KINDS`: landmarks to align on instead, with the words a report uses
for them. -/
def anchorKinds : List (EventKind × String) :=
  [(.net, "first net event"), (.advance, "first advance event")]

/-- `Divergence`. -/
structure Divergence where
  prefixLen : Nat
  anchor : Option String
  passingNext : Option TraceEvent
  failingNext : Option TraceEvent
  passingContext : List TraceEvent
  failingContext : List TraceEvent
  deriving DecidableEq

/-- The leading events two runs agree on, compared by kind and label only. -/
def splitPoint : List TraceEvent → List TraceEvent → Nat
  | left :: passing, right :: failing =>
      if (left.kind, left.label) = (right.kind, right.label) then
        splitPoint passing failing + 1
      else 0
  | _, _ => 0

/-- `_window`. -/
def window (events : List TraceEvent) (at_ context : Nat) : List TraceEvent :=
  (events.take (at_ + context)).drop (at_ - context)

/-- `_first_of_kind`. -/
def firstOfKind (events : List TraceEvent) (kind : EventKind) : Option Nat :=
  events.findIdx? (fun e => e.kind = kind)

/-- `_anchor`: the first landmark both runs reached, unless it heads both. -/
def anchorOf (passing failing : List TraceEvent) : Option (String × Nat × Nat) :=
  anchorKinds.findSome? fun (kind, text) =>
    match firstOfKind passing kind, firstOfKind failing kind with
    | some atPassing, some atFailing =>
        if atPassing = 0 ∧ atFailing = 0 then none else some (text, atPassing, atFailing)
    | _, _ => none

/-- `_diff_traces`. -/
def diffTraces (passing failing : List TraceEvent) : Option Divergence :=
  if passing.isEmpty || failing.isEmpty then none
  else
    let split := splitPoint passing failing
    if split = passing.length ∧ passing.length = failing.length then none
    else if minPrefix ≤ split then
      some
        { prefixLen := split, anchor := none
          passingNext := passing[split]?, failingNext := failing[split]?
          passingContext := window passing split contextSize
          failingContext := window failing split contextSize }
    else
      match anchorOf passing failing with
      | none =>
          some
            { prefixLen := split, anchor := none
              passingNext := passing[split]?, failingNext := failing[split]?
              passingContext := [], failingContext := [] }
      | some (text, atPassing, atFailing) =>
          some
            { prefixLen := split, anchor := some text
              passingNext := passing[split]?, failingNext := failing[split]?
              passingContext := window passing atPassing contextSize
              failingContext := window failing atFailing contextSize }

end SimLoop.Explore
