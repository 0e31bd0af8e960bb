/-
  Net/Stack.lean --- what can be on the stack of a network.

  A delivery is at the bottom of the stack, with at most one loop of `_InOrder.push` right
  above it, and whatever the program and the network do during a delivery comes on top.
-/
import SimLoop.Net.Switching

set_option autoImplicit false

namespace SimLoop.Net

/-- The frames of a delivery step. -/
def Frame.Delivers : Frame → Prop
  | .deliver => True
  | .push _ => True
  | _ => False

/-- Frames that are no part of a delivery step. -/
def Free (l : List Frame) : Prop := ∀ f ∈ l, ¬ f.Delivers

theorem Free.nil : Free [] := fun _ h => absurd h List.not_mem_nil

theorem Free.cons {f : Frame} {l : List Frame} (hf : ¬ f.Delivers) (hl : Free l) :
    Free (f :: l) := by
  intro g hg
  rcases List.mem_cons.mp hg with rfl | hg
  · exact hf
  · exact hl g hg

theorem Free.append {l m : List Frame} (hl : Free l) (hm : Free m) : Free (l ++ m) :=
  fun f hf => (List.mem_append.mp hf).elim (hl f) (hm f)

theorem Free.tail {f : Frame} {l : List Frame} (h : Free (f :: l)) : Free l :=
  fun g hg => h g (List.mem_cons_of_mem _ hg)

theorem Free.of_aside {l : List Frame} (h : ∀ f ∈ l, f.Aside) : Free l := by
  intro f hf hdelivers
  have haside := h f hf
  cases f <;> first | exact haside | exact hdelivers

/-- The stacks that can be. -/
inductive Stacked : List Frame → Prop
  | free {l : List Frame} (hl : Free l) : Stacked l
  | delivering {l : List Frame} (hl : Free l) : Stacked (l ++ [.deliver])
  | pushing {l : List Frame} (hl : Free l) (k : Key) : Stacked (l ++ [.push k, .deliver])

namespace Stacked

theorem push {l r : List Frame} (hr : Stacked r) (hl : Free l) : Stacked (l ++ r) := by
  cases hr with
  | free hr => exact .free (hl.append hr)
  | delivering hr =>
      rw [← List.append_assoc]
      exact .delivering (hl.append hr)
  | pushing hr k =>
      rw [← List.append_assoc]
      exact .pushing (hl.append hr) k

theorem pop {f : Frame} {r : List Frame} (h : Stacked (f :: r)) : Stacked r := by
  generalize hs : f :: r = s at h
  cases h with
  | free hl =>
      rw [← hs] at hl
      exact .free hl.tail
  | @delivering l hl =>
      cases l with
      | nil =>
          obtain ⟨-, rfl⟩ := List.cons.inj hs
          exact .free .nil
      | cons g l =>
          obtain ⟨-, rfl⟩ := List.cons.inj hs
          exact .delivering hl.tail
  | @pushing l hl k =>
      cases l with
      | nil =>
          obtain ⟨-, rfl⟩ := List.cons.inj hs
          exact .delivering .nil
      | cons g l =>
          obtain ⟨-, rfl⟩ := List.cons.inj hs
          exact .pushing hl.tail k

/-- A delivery is at the bottom. -/
theorem eq_nil_of_deliver {r : List Frame} (h : Stacked (.deliver :: r)) : r = [] := by
  generalize hs : Frame.deliver :: r = s at h
  cases h with
  | free hl =>
      rw [← hs] at hl
      exact absurd trivial (hl _ List.mem_cons_self)
  | @delivering l hl =>
      cases l with
      | nil => exact (List.cons.inj hs).2
      | cons g l =>
          obtain ⟨rfl, -⟩ := List.cons.inj hs
          exact absurd trivial (hl _ List.mem_cons_self)
  | @pushing l hl k =>
      cases l with
      | nil => cases hs
      | cons g l =>
          obtain ⟨rfl, -⟩ := List.cons.inj hs
          exact absurd trivial (hl _ List.mem_cons_self)

/-- The loop of `_InOrder.push` is right above the delivery. -/
theorem eq_deliver_of_push {k : Key} {r : List Frame} (h : Stacked (.push k :: r)) :
    r = [.deliver] := by
  generalize hs : Frame.push k :: r = s at h
  cases h with
  | free hl =>
      rw [← hs] at hl
      exact absurd trivial (hl _ List.mem_cons_self)
  | @delivering l hl =>
      cases l with
      | nil => cases hs
      | cons g l =>
          obtain ⟨rfl, -⟩ := List.cons.inj hs
          exact absurd trivial (hl _ List.mem_cons_self)
  | @pushing l hl j =>
      cases l with
      | nil => exact (List.cons.inj hs).2
      | cons g l =>
          obtain ⟨rfl, -⟩ := List.cons.inj hs
          exact absurd trivial (hl _ List.mem_cons_self)

end Stacked

namespace Switchboard

variable {A : Occasion → Prop} {w w' : Switchboard}

/-- Frames that are no part of a delivery step come on top. -/
def Grows (w w' : Switchboard) : Prop := ∃ l, Free l ∧ w'.stack = l ++ w.stack

theorem Grows.of_eq (h : w'.stack = w.stack) : Grows w w' := ⟨[], .nil, h⟩

theorem Grows.stacked (h : Grows w w') (hw : Stacked w.stack) : Stacked w'.stack := by
  obtain ⟨l, hl, heq⟩ := h
  rw [heq]
  exact hw.push hl

theorem Grows.trans {v : Switchboard} (h : Grows w v) (h' : Grows v w') : Grows w w' := by
  obtain ⟨l, hl, heq⟩ := h
  obtain ⟨m, hm, heq'⟩ := h'
  refine ⟨m ++ l, hm.append hl, ?_⟩
  rw [heq', heq, List.append_assoc]

theorem finish_grows (w : Switchboard) (t : Nat) (T : StreamTransport) (exc : Option Exc) :
    Grows w (w.finish t T exc) := by
  unfold finish
  cases T.protocol with
  | none => exact .of_eq rfl
  | some _ => exact ⟨[.code], .cons id .nil, rfl⟩

theorem Hand.grows {t : Nat} {data : Bytes} (h : Hand t data w w') : Grows w w' := by
  cases h with
  | unknown _ => exact .of_eq rfl
  | refused _ _ => exact .of_eq rfl
  | whole _ _ _ => exact ⟨[.code], .cons id .nil, rfl⟩
  | parts _ _ => exact ⟨[.bufferUpdated t data], .cons id .nil, rfl⟩

theorem Ending.grows {t : Nat} (h : Ending t w w') : Grows w w' := by
  cases h with
  | told _ _ _ _ => exact ⟨[.code, .eofReceived t], .cons id (.cons id .nil), rfl⟩
  | _ => exact .of_eq rfl

theorem Dispatched.grows {p : Packet} (h : Dispatched p w w') : Grows w w' := by
  cases h with
  | heard _ _ _ =>
      exact ⟨[.code, .synFactory w.transports.length], .cons id (.cons id .nil), rfl⟩
  | accepted _ _ _ _ _ =>
      exact ⟨[.code, .acceptFactory p.conn w.transports.length], .cons id (.cons id .nil), rfl⟩
  | @data t _ _ _ _ _ _ _ hhand =>
      refine Grows.trans ⟨[.consumed t p.payload.length], .cons id .nil, rfl⟩ hhand.grows
  | fin _ _ hending => exact hending.grows
  | @rst t T _ _ _ _ exc => exact finish_grows (w.modify t .peerGone) t T exc
  | _ => exact .of_eq rfl

/-- Every move leads from a stack that can be to one that can be. -/
theorem Move.stacked (h : Move A w w') (hw : Stacked w.stack) : Stacked w'.stack := by
  have hpop : ∀ {f rest}, w.stack = f :: rest → Stacked rest := fun hstack => by
    rw [hstack] at hw
    exact hw.pop
  have hgrows : Grows w w' → Stacked w'.stack := fun h => h.stacked hw
  cases h with
  | @landed _ _ f _ _ hstack _ =>
      show Stacked ([.push f.packet.key, .deliver] ++ w.stack)
      rw [hstack]
      exact .pushing (l := []) .nil f.packet.key
  | reached _ _ _ hstack _ =>
      show Stacked ([.deliver] ++ w.stack)
      rw [hstack]
      exact .delivering (l := []) .nil
  | missed _ _ _ hstack _ =>
      show Stacked ([.deliver] ++ w.stack)
      rw [hstack]
      exact .delivering (l := []) .nil
  | started _ _ => exact .free (.cons id .nil)
  | popped hstack _ => exact hpop hstack
  | unwound hstack _ => exact hpop hstack
  | starved hstack _ => exact hpop hstack
  | left hstack _ => exact hpop hstack
  | @called x frames _ hframes =>
      exact hgrows ⟨.code :: frames, .cons id (.of_aside hframes), rfl⟩
  | flowed _ _ => exact hgrows ⟨[.code, .flowCall], .cons id (.cons id .nil), rfl⟩
  | @pushed f hf =>
      refine hgrows ⟨[f], .of_aside fun g hg => ?_, rfl⟩
      rw [List.mem_singleton.mp hg]
      exact hf
  | @crashing name keys _ => exact hgrows ⟨[.crash name keys], .cons id .nil, rfl⟩
  | @finished t T _ _ exc _ => exact hgrows (finish_grows w t T exc)
  | @resumed t _ _ _ _ => exact hgrows ⟨[.drain t], .cons id .nil, rfl⟩
  | next _ _ hdispatch => exact hgrows hdispatch.grows
  | @drained t _ _ chunk _ _ _ _ _ _ _ hhand =>
      exact hgrows (Grows.trans ⟨[.consumed t chunk.length], .cons id .nil, rfl⟩ hhand.grows)
  | ended hstack _ _ _ _ _ hending => exact hending.grows.stacked (hpop hstack)
  | @fed t view _ hstack _ =>
      exact (hpop hstack).push (l := [.code, .getBuffer t view]) (.cons id (.cons id .nil))
  | @roomed t view _ taken hstack =>
      exact (hpop hstack).push (l := [.code, .bufferUpdated t (view.drop taken)])
        (.cons id (.cons id .nil))
  | @begunClient conn t _ _ hstack =>
      exact (hpop hstack).push (l := [.code, .acceptMade conn t]) (.cons id (.cons id .nil))
  | begunServer _ hstack => exact (hpop hstack).push (l := [.code]) (.cons id .nil)
  | _ => exact hw

end Switchboard

end SimLoop.Net
