/-
  Foundation/Probing.lean --- searches that learn by asking yes-or-no questions.

  A `Probing` is a search written out as a tree: it is over, or it asks about one
  candidate and goes on with the answer.  Being a tree it ends whatever it is told,
  consistent or not.  `answer` and `asked` follow one fixed oracle; `run` asks a
  procedure that keeps a state and may refuse.

  The file names nothing of the simulator.
-/
import Mathlib.Data.List.Basic

set_option autoImplicit false

namespace SimLoop.Foundation

/-- A search for an `α` that asks about candidates of type `κ`. -/
inductive Probing (κ α : Type) where
  | done (a : α)
  | ask (c : κ) (next : Bool → Probing κ α)

namespace Probing

variable {κ α β σ ε : Type}

/-! ## Building searches -/

/-- One search after another. -/
def bind : Probing κ α → (α → Probing κ β) → Probing κ β
  | .done a, f => f a
  | .ask c next, f => .ask c fun b => (next b).bind f

/-- The same search, with its result changed. -/
def map (f : α → β) (t : Probing κ α) : Probing κ β := t.bind fun a => .done (f a)

/-- Ask about the candidates made from the items of a list, in order, up to the first yes. -/
def firstAccepted (f : β → κ) : (l : List β) → Probing κ (Option { x // x ∈ l })
  | [] => .done none
  | x :: rest =>
    .ask (f x) fun b =>
      if b then .done (some ⟨x, List.mem_cons_self⟩)
      else (firstAccepted f rest).map
        (Option.map fun y => ⟨y.1, List.mem_cons_of_mem _ y.2⟩)

/-! ## Following an oracle -/

/-- The result under a fixed oracle. -/
def answer (oracle : κ → Bool) : Probing κ α → α
  | .done a => a
  | .ask c next => (next (oracle c)).answer oracle

/-- The candidates asked about under a fixed oracle, in order. -/
def asked (oracle : κ → Bool) : Probing κ α → List κ
  | .done _ => []
  | .ask c next => c :: (next (oracle c)).asked oracle

@[simp] theorem answer_done (oracle : κ → Bool) (a : α) :
    (done a : Probing κ α).answer oracle = a := rfl

@[simp] theorem answer_ask (oracle : κ → Bool) (c : κ) (next : Bool → Probing κ α) :
    (ask c next).answer oracle = (next (oracle c)).answer oracle := rfl

@[simp] theorem asked_done (oracle : κ → Bool) (a : α) :
    (done a : Probing κ α).asked oracle = [] := rfl

@[simp] theorem asked_ask (oracle : κ → Bool) (c : κ) (next : Bool → Probing κ α) :
    (ask c next).asked oracle = c :: (next (oracle c)).asked oracle := rfl

@[simp] theorem asked_bind (oracle : κ → Bool) (t : Probing κ α) (f : α → Probing κ β) :
    (t.bind f).asked oracle = t.asked oracle ++ (f (t.answer oracle)).asked oracle := by
  induction t with
  | done a => rfl
  | ask c next ih => exact congrArg (c :: ·) (ih _)

@[simp] theorem asked_map (oracle : κ → Bool) (f : α → β) (t : Probing κ α) :
    (t.map f).asked oracle = t.asked oracle := by
  unfold map
  rw [asked_bind]
  exact List.append_nil _

/-- However the questions are answered, the candidates asked about satisfy `P` and the result
satisfies `Q`. -/
def Spec (P : κ → Prop) (Q : α → Prop) : Probing κ α → Prop
  | .done a => Q a
  | .ask c next => P c ∧ ∀ b, (next b).Spec P Q

theorem Spec.mono {P P' : κ → Prop} {Q Q' : α → Prop} {t : Probing κ α} (h : t.Spec P Q)
    (hP : ∀ c, P c → P' c) (hQ : ∀ a, Q a → Q' a) : t.Spec P' Q' := by
  induction t with
  | done a => exact hQ a h
  | ask c next ih => exact ⟨hP c h.1, fun b => ih b (h.2 b)⟩

theorem Spec.bind {P : κ → Prop} {Q : α → Prop} {Q' : β → Prop} {t : Probing κ α}
    {f : α → Probing κ β} (h : t.Spec P Q) (hf : ∀ a, Q a → (f a).Spec P Q') :
    (t.bind f).Spec P Q' := by
  induction t with
  | done a => exact hf a h
  | ask c next ih => exact ⟨h.1, fun b => ih b (h.2 b)⟩

theorem Spec.map {P : κ → Prop} {Q : α → Prop} {Q' : β → Prop} {t : Probing κ α} {f : α → β}
    (h : t.Spec P Q) (hf : ∀ a, Q a → Q' (f a)) : (t.map f).Spec P Q' :=
  h.bind hf

theorem Spec.answer {P : κ → Prop} {Q : α → Prop} {t : Probing κ α} (h : t.Spec P Q)
    (oracle : κ → Bool) : Q (t.answer oracle) := by
  induction t with
  | done a => exact h
  | ask c next ih => exact ih _ (h.2 _)

theorem spec_firstAccepted {P : κ → Prop} (f : β → κ) {l : List β} (h : ∀ x ∈ l, P (f x)) :
    (firstAccepted f l).Spec P fun _ => True := by
  induction l with
  | nil => trivial
  | cons x rest ih =>
    refine ⟨h x List.mem_cons_self, fun b => ?_⟩
    cases b with
    | true => trivial
    | false => exact (ih fun y hy => h y (List.mem_cons_of_mem _ hy)).map fun _ _ => trivial

/-! ## Transcripts -/

/-- The search, answered in some way or other, asked these questions, got these answers and
ended with this result. -/
inductive Transcript : Probing κ α → List (κ × Bool) → α → Prop
  | done (a : α) : Transcript (.done a) [] a
  | ask {c : κ} {next : Bool → Probing κ α} {b : Bool} {answers : List (κ × Bool)} {a : α}
      (h : Transcript (next b) answers a) : Transcript (.ask c next) ((c, b) :: answers) a

/-- A transcript of one search after another falls into a transcript of each. -/
theorem Transcript.of_bind {t : Probing κ α} {f : α → Probing κ β} {answers : List (κ × Bool)}
    {b : β} (h : (t.bind f).Transcript answers b) :
    ∃ a first second, answers = first ++ second ∧ t.Transcript first a ∧
      (f a).Transcript second b := by
  induction t generalizing answers with
  | done a => exact ⟨a, [], answers, rfl, .done a, h⟩
  | ask c next ih =>
    cases h with
    | ask h =>
      obtain ⟨a, first, second, rfl, hfirst, hsecond⟩ := ih _ h
      exact ⟨a, _, second, rfl, .ask hfirst, hsecond⟩

/-- What holds however the questions are answered holds of every transcript. -/
theorem Transcript.spec {P : κ → Prop} {Q : α → Prop} {t : Probing κ α}
    {answers : List (κ × Bool)} {a : α} (h : t.Transcript answers a) (ht : t.Spec P Q) :
    (∀ c b, (c, b) ∈ answers → P c) ∧ Q a := by
  induction h with
  | done a => exact ⟨fun c b hmem => absurd hmem List.not_mem_nil, ht⟩
  | @ask c next b answers a h ih =>
    obtain ⟨hasked, hresult⟩ := ih (ht.2 b)
    refine ⟨fun c' b' hmem => ?_, hresult⟩
    rcases List.mem_cons.mp hmem with heq | hmem
    · cases heq
      exact ht.1
    · exact hasked c' b' hmem

/-- The first accepted item is one whose candidate got a yes. -/
theorem Transcript.accepted {f : β → κ} {l : List β} {answers : List (κ × Bool)}
    {x : { x // x ∈ l }} (h : (firstAccepted f l).Transcript answers (some x)) :
    (f x.1, true) ∈ answers := by
  induction l generalizing answers with
  | nil => cases h
  | cons y rest ih =>
    unfold firstAccepted at h
    cases h with
    | @ask _ _ b answers _ h =>
      cases b with
      | true =>
        cases h
        exact List.mem_cons_self
      | false =>
        obtain ⟨z, first, second, rfl, hfirst, hsecond⟩ := Transcript.of_bind h
        cases z with
        | none => cases hsecond
        | some z =>
          cases hsecond
          rw [List.append_nil]
          exact List.mem_cons_of_mem _ (ih hfirst)

theorem bind_assoc {γ : Type} (t : Probing κ α) (f : α → Probing κ β) (g : β → Probing κ γ) :
    (t.bind f).bind g = t.bind fun a => (f a).bind g := by
  induction t with
  | done a => rfl
  | ask c next ih => exact congrArg (ask c) (funext fun b => ih b)

/-! ## Narrowing down -/

/-- Under the oracle the search always stands on the last candidate it had accepted, `here` at
first, never accepts one that is neither where it stands nor `better`, and ends with a result
that names the place. -/
def Narrows (oracle : κ → Bool) (better : κ → κ → Prop) (place : α → κ) :
    κ → Probing κ α → Prop
  | here, .done a => place a = here
  | here, .ask c next =>
    (oracle c = true → (c = here ∨ better c here) ∧ Narrows oracle better place c (next true)) ∧
      (oracle c = false → Narrows oracle better place here (next false))

theorem Narrows.bind {oracle : κ → Bool} {better : κ → κ → Prop} {place : α → κ}
    {place' : β → κ} {here : κ} {t : Probing κ α} {f : α → Probing κ β}
    (h : t.Narrows oracle better place here)
    (hf : ∀ a, t.answer oracle = a → (f a).Narrows oracle better place' (place a)) :
    (t.bind f).Narrows oracle better place' here := by
  induction t generalizing here with
  | done a =>
    have hplace : place a = here := h
    exact hplace ▸ hf a rfl
  | ask c next ih =>
    refine ⟨fun hyes => ⟨(h.1 hyes).1, ih true (h.1 hyes).2 fun a ha => hf a ?_⟩,
      fun hno => ih false (h.2 hno) fun a ha => hf a ?_⟩
    · rwa [answer, hyes]
    · rwa [answer, hno]

/-- A search that stands on an accepted candidate ends on one. -/
theorem Narrows.accepted {oracle : κ → Bool} {better : κ → κ → Prop} {place : α → κ} {here : κ}
    {t : Probing κ α} (h : t.Narrows oracle better place here) (hhere : oracle here = true) :
    oracle (place (t.answer oracle)) = true := by
  induction t generalizing here with
  | done a =>
    have hplace : place a = here := h
    rwa [answer, hplace]
  | ask c next ih =>
    unfold answer
    cases hc : oracle c with
    | true => exact ih true (h.1 hc).2 hc
    | false => exact ih false (h.2 hc) hhere

theorem Narrows.map {oracle : κ → Bool} {better : κ → κ → Prop} {place : α → κ} {place' : β → κ}
    {here : κ} {t : Probing κ α} {f : α → β} (h : t.Narrows oracle better place here)
    (hf : ∀ a, place' (f a) = place a) : (t.map f).Narrows oracle better place' here :=
  h.bind fun a _ => hf a

/-- The search with its questions put to a procedure that keeps a state and may raise. -/
def run (probe : κ → σ → Except ε Bool × σ) : Probing κ α → σ → Except ε α × σ
  | .done a, s => (.ok a, s)
  | .ask c next, s =>
    match probe c s with
    | (.error e, s) => (.error e, s)
    | (.ok b, s) => (next b).run probe s

end Probing

end SimLoop.Foundation
