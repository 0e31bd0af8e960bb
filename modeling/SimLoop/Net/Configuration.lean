/-
  Net/Configuration.lean --- the calls that configure a network, and what is left of one
  that raises (`_net.py`).

  `set_defaults` and `set_link` check and store one argument after the other, so that a
  call whose later argument is rejected has stored the earlier ones.  The other calls
  check all they are given before they store any of it.  What `set_flow_control` raises
  after it has stored the switch comes out of a `resume_writing` that it calls, and
  whatever that one has changed stays changed.
-/
import SimLoop.Disk.SimDisk
import SimLoop.Net.Machine
import Mathlib.Data.Fintype.EquivFin

set_option autoImplicit false

namespace SimLoop.Net

open SimLoop.Foundation SimLoop.Disk

variable {κ ν ρ : Type}

/-! ## Clocks and disks -/

/-- A `SimNetwork` with the clock offsets and the disks it keeps. -/
structure Configured (κ ν ρ : Type) where
  net : SimNetwork ρ
  clockOffsets : Dict HostName ℚ
  disks : Dict HostName (SimDisk κ ν)

/-- What program code can do to a network, its clocks and the modes of its disks. -/
inductive ConfigAct where
  | net (a : SimNetwork.Act)
  /-- `set_clock`, with what `float(offset)` comes to. -/
  | setClock (name : HostName) (offset : Except Exc ℚ)
  | setDisk (name : HostName) (buffered torn : Bool)

/-- The calls that configure. -/
def ConfigAct.configures : ConfigAct → Bool
  | .net (.setDefaults ..) | .net (.setLink ..) | .net (.setFlowControl ..)
  | .net (.partition ..) | .setClock .. | .setDisk .. => true
  | .net _ => false

namespace Configured

/-- What the configuration says is the same. -/
structure Unchanged (s t : Configured κ ν ρ) : Prop where
  links : ∀ src dst, t.net.resolved src dst = s.net.resolved src dst
  clocks : t.clockOffsets = s.clockOffsets
  disks : t.disks = s.disks
  flowControl : t.net.flowControl = s.net.flowControl
  flowDefaults : t.net.flowDefaults = s.net.flowDefaults
  cuts : t.net.cuts = s.net.cuts

theorem Unchanged.refl (s : Configured κ ν ρ) : Unchanged s s :=
  ⟨fun _ _ => rfl, rfl, rfl, rfl, rfl, rfl⟩

/-- An argument that is absent or passes its check. -/
def accepted {α : Type} (check : α → Except Exc α) (value : Option α) : Bool :=
  value.all fun x => (check x).isOk

/-- An argument that is absent or says what is in force. -/
def restates {α : Type} [DecidableEq α] (value : Option α) (current : α) : Bool :=
  value.all fun x => x = current

/-- Whatever is given before the first argument that is rejected says what is in force. -/
def keepsLink (latency : Option (ℚ × ℚ)) (drop duplicate : Option ℚ)
    (current : (ℚ × ℚ) × ℚ × ℚ) : Bool :=
  !accepted SimNetwork.checkLatency latency ||
    if accepted (SimNetwork.checkProbability "drop") drop then
      accepted (SimNetwork.checkProbability "duplicate") duplicate ||
        restates latency current.1 && restates drop current.2.1
    else restates latency current.1

/-- The writer of a transport is paused and would be told when it is released. -/
def writerPaused (s : SimNetwork ρ) (t : Nat) : Bool :=
  s.transports[t]?.any fun T => T.protocolPaused && T.protocol.isSome

/-- `set_flow_control` rejects the limits it is given. -/
def limitsRejected (high low : Option Int) : Bool :=
  (high.isSome || low.isSome) && !(SimNetwork.checkLimits high low).isOk

/-- The condition on a call and the state before it. -/
def harmless (s : Configured κ ν ρ) : ConfigAct → Bool
  | .net (.setDefaults latency drop duplicate) =>
    keepsLink latency drop duplicate
      (s.net.defaultLatency, s.net.defaultDrop, s.net.defaultDuplicate)
  | .net (.setLink src dst latency drop duplicate) =>
    !(s.net.alive.contains src && s.net.alive.contains dst) ||
      keepsLink latency drop duplicate (s.net.resolved src dst)
  | .net (.setFlowControl enabled high low) =>
    enabled || limitsRejected high low ||
      (s.net.streams.entries.map (·.2)).all fun t => !writerPaused s.net t
  | _ => true

/-! ## Calls -/

section

variable [DecidableEq κ]

/-- `set_clock`. -/
def setClock (s : Configured κ ν ρ) (name : HostName) (offset : Except Exc ℚ) :
    Except Exc Unit × Configured κ ν ρ :=
  match s.net.requireHost name with
  | .error e => (.error e, s)
  | .ok name =>
    match offset with
    | .error e => (.error e, s)
    | .ok x => (.ok (), { s with clockOffsets := s.clockOffsets.insert name x })

/-- `set_disk`. -/
def setDisk (s : Configured κ ν ρ) (name : HostName) (buffered torn : Bool) :
    Except Exc Unit × Configured κ ν ρ :=
  match s.net.requireHost name with
  | .error e => (.error e, s)
  | .ok name =>
    if torn && !buffered then
      (.error (.error .valueError
        "torn=True needs buffered=True: an unbuffered write is already durable"), s)
    else
      let disk := (s.disks.get? name).getD SimDisk.new
      (.ok (), { s with disks := s.disks.insert name (disk.configure buffered torn) })

/-- Code of the program is at work. -/
def InCode (s : Configured κ ν ρ) : Prop :=
  s.net.signal = .run ∧ s.net.stack.head? = some .code

instance (s : Configured κ ν ρ) : Decidable s.InCode := by
  unfold InCode
  infer_instance

/-- Back to the program with the outcome of a call that is over. -/
def answer (r : Except Exc Unit × Configured κ ν ρ) : Configured κ ν ρ :=
  { r.2 with net := SimNetwork.answer (r.1, r.2.net) }

variable (R : RandomSource ρ)

/-- One act, when it is that party's turn. -/
def perform (s : Configured κ ν ρ) : ConfigAct → Option (Configured κ ν ρ)
  | .net a => (s.net.perform R a).map fun net => { s with net := net }
  | .setClock name offset => if s.InCode then some (answer (s.setClock name offset)) else none
  | .setDisk name buffered torn =>
    if s.InCode then some (answer (s.setDisk name buffered torn)) else none

/-- The machine. -/
def Step (s : Configured κ ν ρ) (a : ConfigAct) (s' : Configured κ ν ρ) : Prop :=
  s.perform R a = some s'

/-- A call made in the state `s` raises `e` and leaves `t`: control comes back to the frame
that made it, whatever has run above that frame meanwhile. -/
def Raises (s : Configured κ ν ρ) (a : ConfigAct) (e : Exc) (t : Configured κ ν ρ) : Prop :=
  ∃ s' acts, Step R s a s' ∧
    Run (restrict (Step R) fun u _ => u.net.stack ≠ s.net.stack) s' acts t ∧
    t.net.stack = s.net.stack ∧ t.net.signal = .raised e

end

/-! ## One setting after another -/

section

variable {α : Type}

/-- An optional setting, stored when it is given. -/
def stored (value : Option α) (store : α → SimNetwork ρ → SimNetwork ρ) (s : SimNetwork ρ) :
    SimNetwork ρ :=
  match value with
  | none => s
  | some x => store x s

theorem setting_of_accepted {check : α → Except Exc α} (hcheck : ∀ x y, check x = .ok y → y = x)
    {value : Option α} (h : accepted check value = true)
    (store : α → SimNetwork ρ → SimNetwork ρ) (s : SimNetwork ρ) :
    SimNetwork.setting value check store s = (.ok (), stored value store s) := by
  cases value with
  | none => rfl
  | some x =>
    have hok : (check x).isOk = true := h
    cases hx : check x with
    | error e =>
      rw [hx] at hok
      cases hok
    | ok y =>
      obtain rfl := hcheck x y hx
      simp only [SimNetwork.setting, hx]
      rfl

theorem setting_of_rejected {check : α → Except Exc α} {value : Option α}
    (h : accepted check value = false) (store : α → SimNetwork ρ → SimNetwork ρ)
    (s : SimNetwork ρ) : ∃ e, SimNetwork.setting value check store s = (.error e, s) := by
  cases value with
  | none => cases h
  | some x =>
    have hok : (check x).isOk = false := h
    cases hx : check x with
    | error e => exact ⟨e, by simp only [SimNetwork.setting, hx]⟩
    | ok y =>
      rw [hx] at hok
      cases hok

end

theorem checkLatency_ok (x y : ℚ × ℚ) (h : SimNetwork.checkLatency x = .ok y) : y = x := by
  unfold SimNetwork.checkLatency at h
  split at h
  · cases h
  · exact (Except.ok.inj h).symm

theorem checkProbability_ok (name : String) (x y : ℚ)
    (h : SimNetwork.checkProbability name x = .ok y) : y = x := by
  unfold SimNetwork.checkProbability at h
  split at h
  · exact (Except.ok.inj h).symm
  · cases h

/-- The three settings of a link, checked and stored in the order of the source. -/
def threeSettings (latency : Option (ℚ × ℚ)) (drop duplicate : Option ℚ)
    (storeLatency : ℚ × ℚ → SimNetwork ρ → SimNetwork ρ)
    (storeDrop storeDuplicate : ℚ → SimNetwork ρ → SimNetwork ρ) (s : SimNetwork ρ) :
    Except Exc Unit × SimNetwork ρ :=
  let r := SimNetwork.setting latency SimNetwork.checkLatency storeLatency s
  let r := SimNetwork.andThen r
    (SimNetwork.setting drop (SimNetwork.checkProbability "drop") storeDrop)
  SimNetwork.andThen r
    (SimNetwork.setting duplicate (SimNetwork.checkProbability "duplicate") storeDuplicate)

/-- What the three settings come to: the first that is rejected raises, and leaves what was
stored before it. -/
theorem threeSettings_cases (latency : Option (ℚ × ℚ)) (drop duplicate : Option ℚ)
    (storeLatency : ℚ × ℚ → SimNetwork ρ → SimNetwork ρ)
    (storeDrop storeDuplicate : ℚ → SimNetwork ρ → SimNetwork ρ) (s : SimNetwork ρ) :
    let r := threeSettings latency drop duplicate storeLatency storeDrop storeDuplicate s
    if accepted SimNetwork.checkLatency latency then
      if accepted (SimNetwork.checkProbability "drop") drop then
        if accepted (SimNetwork.checkProbability "duplicate") duplicate then r.1 = .ok ()
        else ∃ e, r = (.error e, stored drop storeDrop (stored latency storeLatency s))
      else ∃ e, r = (.error e, stored latency storeLatency s)
    else ∃ e, r = (.error e, s) := by
  intro r
  split
  · rename_i hlatency
    have hfirst := setting_of_accepted checkLatency_ok hlatency storeLatency s
    split
    · rename_i hdrop
      have hsecond := setting_of_accepted (checkProbability_ok "drop") hdrop storeDrop
        (stored latency storeLatency s)
      split
      · rename_i hduplicate
        have hthird := setting_of_accepted (checkProbability_ok "duplicate") hduplicate
          storeDuplicate (stored drop storeDrop (stored latency storeLatency s))
        simp only [r, threeSettings, hfirst, SimNetwork.andThen, hsecond, hthird]
      · rename_i hduplicate
        obtain ⟨e, hthird⟩ := setting_of_rejected (Bool.of_not_eq_true hduplicate)
          storeDuplicate (stored drop storeDrop (stored latency storeLatency s))
        exact ⟨e, by simp only [r, threeSettings, hfirst, SimNetwork.andThen, hsecond, hthird]⟩
    · rename_i hdrop
      obtain ⟨e, hsecond⟩ := setting_of_rejected (Bool.of_not_eq_true hdrop) storeDrop
        (stored latency storeLatency s)
      exact ⟨e, by simp only [r, threeSettings, hfirst, SimNetwork.andThen, hsecond]⟩
  · rename_i hlatency
    obtain ⟨e, hfirst⟩ := setting_of_rejected (Bool.of_not_eq_true hlatency) storeLatency s
    exact ⟨e, by simp only [r, threeSettings, hfirst, SimNetwork.andThen]⟩

theorem stack_threeSettings (latency : Option (ℚ × ℚ)) (drop duplicate : Option ℚ)
    {storeLatency : ℚ × ℚ → SimNetwork ρ → SimNetwork ρ}
    {storeDrop storeDuplicate : ℚ → SimNetwork ρ → SimNetwork ρ}
    (hlatency : ∀ x s, (storeLatency x s).stack = s.stack)
    (hdrop : ∀ x s, (storeDrop x s).stack = s.stack)
    (hduplicate : ∀ x s, (storeDuplicate x s).stack = s.stack) (s : SimNetwork ρ) :
    (threeSettings latency drop duplicate storeLatency storeDrop storeDuplicate s).2.stack =
      s.stack := by
  unfold threeSettings
  apply SimNetwork.andThen_keeps
  · apply SimNetwork.andThen_keeps
    · exact SimNetwork.setting_keeps s latency _ hlatency
    · exact fun u => SimNetwork.setting_keeps u drop _ hdrop
  · exact fun u => SimNetwork.setting_keeps u duplicate _ hduplicate

/-! ## What the settings of a link change -/

/-- A pair of names no link has been set for. -/
theorem exists_unset (links : Dict (HostName × HostName) Link) :
    ∃ name : HostName, links.get? (name, name) = none := by
  obtain ⟨name, hname⟩ := Infinite.exists_notMem_finset (links.keys.map Prod.fst).toFinset
  refine ⟨name, Dict.get?_eq_none_iff.mpr fun hmem => hname ?_⟩
  exact List.mem_toFinset.mpr (List.mem_map.mpr ⟨_, hmem, rfl⟩)

/-- The defaults are what a link nobody has set resolves to. -/
theorem resolved_eq_iff_defaults {s t : SimNetwork ρ} (hlinks : t.links = s.links) :
    (∀ src dst, t.resolved src dst = s.resolved src dst) ↔
      t.defaultLatency = s.defaultLatency ∧ t.defaultDrop = s.defaultDrop ∧
        t.defaultDuplicate = s.defaultDuplicate := by
  constructor
  · intro h
    obtain ⟨name, hname⟩ := exists_unset s.links
    have hsame := h name name
    simp only [SimNetwork.resolved, hlinks, hname, Prod.mk.injEq] at hsame
    exact hsame
  · rintro ⟨hlatency, hdrop, hduplicate⟩ src dst
    simp only [SimNetwork.resolved, hlinks, hlatency, hdrop, hduplicate]

theorem resolved_eq (s : SimNetwork ρ) (src dst : HostName) :
    s.resolved src dst =
      (((s.links.get? (src, dst)).getD {}).latency.getD s.defaultLatency,
        ((s.links.get? (src, dst)).getD {}).drop.getD s.defaultDrop,
        ((s.links.get? (src, dst)).getD {}).duplicate.getD s.defaultDuplicate) := by
  unfold SimNetwork.resolved
  cases s.links.get? (src, dst) <;> rfl

/-- Setting fields of one link changes no other link. -/
theorem resolved_setLinkField_of_ne (s : SimNetwork ρ) {src dst a b : HostName} (f : Link → Link)
    (h : (src, dst) ≠ (a, b)) :
    (SimNetwork.setLinkField src dst f s).resolved a b = s.resolved a b := by
  rw [resolved_eq, resolved_eq, SimNetwork.setLinkField, Dict.get?_insert_of_ne _ _ h]

theorem get?_setLinkField (s : SimNetwork ρ) (src dst : HostName) (f : Link → Link) :
    (SimNetwork.setLinkField src dst f s).links.get? (src, dst) =
      some (f ((s.links.get? (src, dst)).getD {})) :=
  Dict.get?_insert_self _ _ _

theorem restates_iff {α : Type} [DecidableEq α] {value : Option α} {current : α} :
    restates value current = true ↔ value.getD current = current := by
  cases value <;> simp [restates]

/-- The stores of `set_defaults`. -/
theorem defaults_stored_iff (s : SimNetwork ρ) (latency : Option (ℚ × ℚ)) (drop : Option ℚ) :
    (∀ src dst, (stored drop (fun x s => { s with defaultDrop := x })
      (stored latency (fun x s => { s with defaultLatency := x }) s)).resolved src dst =
        s.resolved src dst) ↔
      restates latency s.defaultLatency = true ∧ restates drop s.defaultDrop = true := by
  rw [resolved_eq_iff_defaults (by cases latency <;> cases drop <;> rfl), restates_iff,
    restates_iff]
  cases latency <;> cases drop <;> simp [stored]

/-- The stores of `set_link`. -/
theorem link_stored_iff (s : SimNetwork ρ) (src dst : HostName) (latency : Option (ℚ × ℚ))
    (drop : Option ℚ) :
    (∀ a b,
      (stored drop (fun x => SimNetwork.setLinkField src dst fun l => { l with drop := some x })
        (stored latency
          (fun x => SimNetwork.setLinkField src dst fun l => { l with latency := some x })
          (SimNetwork.setLinkField src dst id s))).resolved a b = s.resolved a b) ↔
      restates latency (s.resolved src dst).1 = true ∧
        restates drop (s.resolved src dst).2.1 = true := by
  have hother : ∀ a b, (src, dst) ≠ (a, b) →
      (stored drop (fun x => SimNetwork.setLinkField src dst fun l => { l with drop := some x })
        (stored latency
          (fun x => SimNetwork.setLinkField src dst fun l => { l with latency := some x })
          (SimNetwork.setLinkField src dst id s))).resolved a b = s.resolved a b := by
    intro a b hab
    cases latency <;> cases drop <;> simp only [stored, resolved_setLinkField_of_ne _ _ hab]
  have hself :
      (stored drop (fun x => SimNetwork.setLinkField src dst fun l => { l with drop := some x })
        (stored latency
          (fun x => SimNetwork.setLinkField src dst fun l => { l with latency := some x })
          (SimNetwork.setLinkField src dst id s))).resolved src dst =
        (latency.getD (s.resolved src dst).1, drop.getD (s.resolved src dst).2.1,
          (s.resolved src dst).2.2) := by
    simp only [resolved_eq]
    cases latency <;> cases drop <;> simp only [stored, get?_setLinkField] <;> rfl
  constructor
  · intro h
    have hsame := h src dst
    rw [hself] at hsame
    rw [restates_iff, restates_iff]
    exact ⟨congrArg Prod.fst hsame, congrArg (fun r => r.2.1) hsame⟩
  · rintro ⟨hlatency, hdrop⟩ a b
    by_cases hab : (src, dst) = (a, b)
    · cases hab
      rw [hself, restates_iff.mp hlatency, restates_iff.mp hdrop]
    · exact hother a b hab

/-! ## Calls that are over at once -/

/-- What the program does while its code is on top. -/
theorem perform_of_inCode {R : RandomSource ρ} {s : Configured κ ν ρ} (h : s.InCode) :
    ∃ rest, s.net.stack = .code :: rest ∧ ∀ a, s.net.perform R a = SimNetwork.codeAct R rest s.net a := by
  obtain ⟨hsignal, hstack⟩ := h
  obtain ⟨rest, hrest⟩ := List.head?_eq_some_iff.mp hstack
  refine ⟨rest, hrest, fun a => ?_⟩
  unfold SimNetwork.perform
  rw [hsignal, hrest]

/-- A call that stores its settings one after the other. -/
theorem keeps_iff_of_threeSettings {s : Configured κ ν ρ} {latency : Option (ℚ × ℚ)} {drop duplicate : Option ℚ}
    {storeLatency : ℚ × ℚ → SimNetwork ρ → SimNetwork ρ}
    {storeDrop storeDuplicate : ℚ → SimNetwork ρ → SimNetwork ρ} {first : SimNetwork ρ}
    {current : (ℚ × ℚ) × ℚ × ℚ}
    (hstored : ∀ latency drop, Unchanged s
      { s with net := stored drop storeDrop (stored latency storeLatency first) } ↔
        restates latency current.1 = true ∧ restates drop current.2.1 = true) :
    (∀ e, (threeSettings latency drop duplicate storeLatency storeDrop storeDuplicate first).1 =
        .error e → Unchanged s { s with
          net := (threeSettings latency drop duplicate storeLatency storeDrop storeDuplicate
            first).2 }) ↔
      keepsLink latency drop duplicate current = true := by
  have hcases := threeSettings_cases latency drop duplicate storeLatency storeDrop storeDuplicate
    first
  have hone : ∀ latency, Unchanged s { s with net := stored latency storeLatency first } ↔
      restates latency current.1 = true := fun latency => by
    exact (hstored latency none).trans (and_iff_left rfl)
  have hnone : Unchanged s { s with net := first } := (hone none).mpr rfl
  unfold keepsLink
  split at hcases
  · rename_i hlatency
    split at hcases
    · rename_i hdrop
      split at hcases
      · rename_i hduplicate
        simp [hlatency, hdrop, hduplicate, hcases]
      · rename_i hduplicate
        obtain ⟨e, he⟩ := hcases
        simp [hlatency, hdrop, hduplicate, he, hstored]
    · rename_i hdrop
      obtain ⟨e, he⟩ := hcases
      simp [hlatency, hdrop, he, hone]
  · rename_i hlatency
    obtain ⟨e, he⟩ := hcases
    simp [hlatency, he, hnone]

section

variable [DecidableEq κ] {R : RandomSource ρ} {s s' t : Configured κ ν ρ} {a : ConfigAct} {e : Exc}

/-- A run that is over where it starts has no acts. -/
theorem eq_of_run_of_stopped {G : Configured κ ν ρ → ConfigAct → Prop} {acts : List ConfigAct}
    (run : Run (restrict (Step R) G) s acts t) (h : ∀ a, ¬ G s a) : t = s := by
  induction run with
  | nil => rfl
  | snoc _ hstep ih =>
    obtain rfl := ih
    exact absurd hstep.2 (h _)

theorem raises_iff_of_back (hstep : s.perform R a = some s')
    (hstack : s'.net.stack = s.net.stack) :
    Raises R s a e t ↔ t = s' ∧ s'.net.signal = .raised e := by
  constructor
  · rintro ⟨u, acts, hu, run, -, hsignal⟩
    obtain rfl : u = s' := Option.some.inj (hu.symm.trans hstep)
    obtain rfl := eq_of_run_of_stopped run fun _ hne => hne hstack
    exact ⟨rfl, hsignal⟩
  · rintro ⟨rfl, hsignal⟩
    exact ⟨t, [], hstep, .nil t, hstack, hsignal⟩

/-- A call that is over at once raises what it comes to. -/
theorem keeps_iff_of_answer {r : Except Exc Unit × Configured κ ν ρ}
    (hstep : s.perform R a = some (answer r)) (hstack : r.2.net.stack = s.net.stack) :
    (∀ e t, Raises R s a e t → Unchanged s t) ↔ ∀ e, r.1 = .error e → Unchanged s r.2 := by
  have hback : (answer r).net.stack = s.net.stack := by
    rw [← hstack]
    unfold answer SimNetwork.answer
    split <;> rfl
  have hsame : Unchanged s (answer r) ↔ Unchanged s r.2 := by
    unfold answer SimNetwork.answer
    split <;> exact ⟨fun h => ⟨h.1, h.2, h.3, h.4, h.5, h.6⟩, fun h => ⟨h.1, h.2, h.3, h.4, h.5, h.6⟩⟩
  have hsignal : ∀ e, (answer r).net.signal = .raised e ↔ r.1 = .error e := by
    intro e
    obtain ⟨result, u⟩ := r
    cases result with
    | ok => simp [answer, SimNetwork.answer, SimNetwork.back]
    | error e' => simp [answer, SimNetwork.answer, SimNetwork.throw]
  constructor
  · intro h e he
    exact hsame.mp (h e _ ((raises_iff_of_back hstep hback).mpr ⟨rfl, (hsignal e).mpr he⟩))
  · intro h e t hraises
    obtain ⟨rfl, he⟩ := (raises_iff_of_back hstep hback).mp hraises
    exact hsame.mpr (h e ((hsignal e).mp he))

/-! ## Releasing paused writers -/

/-- The loop of `set_flow_control` is about to turn to the transports `ts`. -/
def Releasing (base : List Frame) (ts : List Nat) (u : SimNetwork ρ) : Prop :=
  u.stack = .release ts :: base ∧ ∃ v, u.signal = .returned v

/-- The next transport let go of, with the rest of the loop on the stack. -/
def letGo (t : Nat) (rest : List Nat) (u : SimNetwork ρ) : SimNetwork ρ :=
  ({ u with stack := .release rest :: u.stack } : SimNetwork ρ).setTransport t fun T =>
    { T with writeBuffer := 0, protocolPaused := false }

theorem writerPaused_letGo {u : SimNetwork ρ} {t : Nat} {rest : List Nat} {i : Nat}
    (h : writerPaused u i = false) : writerPaused (letGo t rest u) i = false := by
  simp only [writerPaused, letGo, SimNetwork.setTransport, List.getElem?_modify] at *
  cases hi : u.transports[i]? with
  | none => rfl
  | some T =>
    rw [hi] at h
    by_cases hti : t = i
    · simp [hti]
    · simpa [hti] using h

theorem writerPaused_letGo_of_ne {u : SimNetwork ρ} {t : Nat} {rest : List Nat} {i : Nat}
    (h : i ≠ t) : writerPaused (letGo t rest u) i = writerPaused u i := by
  simp only [writerPaused, letGo, SimNetwork.setTransport, List.getElem?_modify,
    if_neg (Ne.symm h), Option.map_eq_map, Option.map_id']

/-- A turn of the loop tells the writer of the next transport if that is paused. -/
theorem releaseNext_cons (t : Nat) (rest : List Nat) (u : SimNetwork ρ) :
    SimNetwork.releaseNext (t :: rest) u =
      if writerPaused u t then (letGo t rest u).call (.resumeWriting t) [.flowCall]
      else (letGo t rest u).back := by
  unfold SimNetwork.releaseNext writerPaused
  dsimp only
  cases ht : u.transports[t]? with
  | none =>
    have hsame : letGo t rest u = { u with stack := .release rest :: u.stack } := by
      simp only [letGo, SimNetwork.setTransport, List.modify_eq_self (List.getElem?_eq_none_iff.mp ht)]
    rw [hsame]
    rfl
  | some T =>
    dsimp only [Option.any_some]
    by_cases hpaused : T.protocolPaused = true
    · by_cases hprotocol : T.protocol = none
      · rw [if_pos (Or.inr hprotocol), if_neg (by simp [hprotocol])]
        rfl
      · rw [if_neg (by simp [hpaused, hprotocol]), if_pos (by
          simp [hpaused, Option.isSome_iff_ne_none, hprotocol])]
        rfl
    · rw [if_pos (Or.inl (by simpa using hpaused)), if_neg (by simp [hpaused])]
      rfl

theorem turn_of_releasing {base : List Frame} {ts : List Nat} {u : SimNetwork ρ}
    (h : Releasing base ts u) :
    SimNetwork.turn R u = SimNetwork.releaseNext ts { u with stack := base } := by
  obtain ⟨hstack, v, hsignal⟩ := h
  unfold SimNetwork.turn
  rw [hsignal, hstack]
  rfl

/-- While a call waits, the machine goes on by ticks alone. -/
theorem tick_of_waiting (h : s.perform R a = some s') (hsignal : s.net.signal ≠ .run) :
    s' = { s with net := SimNetwork.turn R s.net } := by
  have hcode : ¬ s.InCode := fun hcode => hsignal hcode.1
  cases a with
  | net a =>
    obtain ⟨net, hnet, rfl⟩ := Option.map_eq_some_iff.mp h
    obtain ⟨hrun, -⟩ | ⟨_, hrun, -⟩ | ⟨-, -, rfl⟩ := SimNetwork.step_cases R hnet
    · exact absurd hrun hsignal
    · exact absurd hrun hsignal
    · rfl
  | setClock name offset =>
    rw [perform, if_neg hcode] at h
    cases h
  | setDisk name buffered torn =>
    rw [perform, if_neg hcode] at h
    cases h

/-- The loop goes on with transports that have no writer to tell, or it is over. -/
def Quiet (base : List Frame) (u : SimNetwork ρ) : Prop :=
  (∃ ts, Releasing base ts u ∧ ∀ i ∈ ts, writerPaused u i = false) ∨
    (u.stack = base ∧ ∃ v, u.signal = .returned v)

theorem quiet_releaseNext {ts : List Nat} {u : SimNetwork ρ}
    (hfree : ∀ i ∈ ts, writerPaused u i = false) :
    Quiet u.stack (SimNetwork.releaseNext ts u) := by
  cases ts with
  | nil => exact .inr ⟨rfl, _, rfl⟩
  | cons i rest =>
    rw [releaseNext_cons, if_neg (by rw [hfree i List.mem_cons_self]; exact Bool.false_ne_true)]
    refine .inl ⟨rest, ⟨rfl, _, rfl⟩, fun j hj => ?_⟩
    exact writerPaused_letGo (hfree j (List.mem_cons_of_mem _ hj))

/-- With no writer to tell, the loop ends without an exception. -/
theorem release_returns {base : List Frame} {u t : Configured κ ν ρ} {acts : List ConfigAct}
    (hu : Quiet base u.net)
    (run : Run (restrict (Step R) fun u _ => u.net.stack ≠ base) u acts t)
    (ht : t.net.stack = base) : ∃ v, t.net.signal = .returned v := by
  have hquiet : Quiet base t.net := by
    refine Run.invariant (I := fun t => Quiet base t.net) ?_ run hu
    rintro s a s' hs ⟨hstep, habove⟩
    rcases hs with ⟨ts, hreleasing, hfree⟩ | ⟨hbase, -⟩
    · obtain ⟨v, hsignal⟩ := hreleasing.2
      obtain rfl := tick_of_waiting hstep (by rw [hsignal]; exact fun h => by cases h)
      dsimp only
      rw [turn_of_releasing hreleasing]
      exact quiet_releaseNext (u := { s.net with stack := base }) hfree
    · exact absurd hbase habove
  rcases hquiet with ⟨ts, ⟨hstack, -⟩, -⟩ | ⟨-, hsignal⟩
  · rw [ht] at hstack
    exact absurd hstack.symm (List.cons_ne_self _ _)
  · exact hsignal

/-- The acts of a writer that, told to go on, sets the default drop rate and raises an exit
exception: it leaves the call and the loop. -/
def leaving (drop : ℚ) : List ConfigAct :=
  [.net (.setDefaults none (some drop) none), .net .tick, .net (.raise .exit), .net .tick,
    .net .tick]

theorem run_leaving {base : List Frame} {rest : List Nat} {u : Configured κ ν ρ}
    (hstack : u.net.stack = .code :: .flowCall :: .release rest :: base)
    (hsignal : u.net.signal = .run) {drop : ℚ} (hdrop : 0 ≤ drop ∧ drop ≤ 1) :
    Run (restrict (Step R) fun u _ => u.net.stack ≠ base) u (leaving drop)
      { u with net := { u.net with
          stack := base, signal := .raised .exit, defaultDrop := drop } } := by
  have habove : ∀ frames : List Frame, frames ≠ [] → frames ++ base ≠ base := fun frames hne h =>
    hne (List.append_left_eq_self.mp h)
  -- The states on the way differ in nothing but the rate, the signal and the stack.
  let v : Signal → List Frame → Configured κ ν ρ := fun signal stack =>
    { u with net := { u.net with defaultDrop := drop, signal := signal, stack := stack } }
  have hset : Step R u (.net (.setDefaults none (some drop) none))
      (v (.returned {}) (.code :: .flowCall :: .release rest :: base)) := by
    unfold Step perform SimNetwork.perform
    rw [hsignal, hstack]
    simp only [SimNetwork.codeAct, SimNetwork.setDefaults, SimNetwork.setting, SimNetwork.andThen,
      SimNetwork.checkProbability, if_pos hdrop, SimNetwork.answer, SimNetwork.back,
      Option.map_some, v, ← hstack]
  have hback : Step R (v (.returned {}) (.code :: .flowCall :: .release rest :: base)) (.net .tick)
      (v .run (.code :: .flowCall :: .release rest :: base)) := rfl
  have hraise : Step R (v .run (.code :: .flowCall :: .release rest :: base))
      (.net (.raise .exit)) (v (.raised .exit) (.flowCall :: .release rest :: base)) := rfl
  have hflow : Step R (v (.raised .exit) (.flowCall :: .release rest :: base)) (.net .tick)
      (v (.raised .exit) (.release rest :: base)) := rfl
  have hloop : Step R (v (.raised .exit) (.release rest :: base)) (.net .tick)
      (v (.raised .exit) base) := rfl
  have hthree := habove [.code, .flowCall, .release rest] (List.cons_ne_nil _ _)
  have hu : u.net.stack ≠ base := by
    rw [hstack]
    exact hthree
  exact .snoc (.snoc (.snoc (.snoc (.snoc (.nil u) ⟨hset, hu⟩) ⟨hback, hthree⟩)
    ⟨hraise, hthree⟩) ⟨hflow, habove [.flowCall, .release rest] (List.cons_ne_nil _ _)⟩)
    ⟨hloop, habove [.release rest] (List.cons_ne_nil _ _)⟩

/-- A writer that is told may configure the network and then raise an exit exception, which
comes out of the call. -/
theorem release_raises {ts : List Nat} {u : Configured κ ν ρ}
    (hpaused : ∃ i ∈ ts, writerPaused u.net i = true) {drop : ℚ} (hdrop : 0 ≤ drop ∧ drop ≤ 1) :
    ∃ acts t, Run (restrict (Step R) fun w _ => w.net.stack ≠ u.net.stack)
        { u with net := SimNetwork.releaseNext ts u.net } acts t ∧
      t.net.stack = u.net.stack ∧ t.net.signal = .raised .exit ∧ t.net.links = u.net.links ∧
      t.net.defaultDrop = drop := by
  induction ts generalizing u with
  | nil =>
    obtain ⟨i, hi, -⟩ := hpaused
    cases hi
  | cons i rest ih =>
    rw [releaseNext_cons]
    cases hi : writerPaused u.net i with
    | false =>
      rw [if_neg Bool.false_ne_true]
      obtain ⟨j, hj, hpausedj⟩ := hpaused
      have hji : j ≠ i := by
        rintro rfl
        exact Bool.false_ne_true (hi.symm.trans hpausedj)
      obtain ⟨acts, t, run, hrest⟩ := ih
        (u := { u with net := { (letGo i rest u.net).back with stack := u.net.stack } })
        ⟨j, List.mem_of_ne_of_mem hji hj, (writerPaused_letGo_of_ne hji).trans hpausedj⟩
      have htick : Step R { u with net := (letGo i rest u.net).back } (.net .tick)
          { u with
            net := SimNetwork.releaseNext rest
              { (letGo i rest u.net).back with stack := u.net.stack } } := rfl
      exact ⟨_, t, (Run.snoc (.nil _) ⟨htick, List.cons_ne_self _ _⟩).append run, hrest⟩
    | true =>
      rw [if_pos rfl]
      have htold : Run (restrict (Step R) fun w _ => w.net.stack ≠ u.net.stack)
          { u with net := (letGo i rest u.net).call (.resumeWriting i) [.flowCall] }
          (leaving drop) _ := run_leaving rfl rfl hdrop
      exact ⟨_, _, htold, rfl, rfl, rfl, rfl⟩

/-! ## Which calls change nothing when they raise -/

/-- Some rate is not in force. -/
theorem exists_other_rate (current : ℚ) : ∃ drop : ℚ, (0 ≤ drop ∧ drop ≤ 1) ∧ drop ≠ current := by
  by_cases h : current = 0
  · exact ⟨1, ⟨zero_le_one, le_refl 1⟩, by rw [h]; exact one_ne_zero⟩
  · exact ⟨0, ⟨le_refl 0, zero_le_one⟩, Ne.symm h⟩

/-- Turning the switch off, once the limits are accepted. -/
theorem keeps_iff_of_release {n : SimNetwork ρ} {ts : List Nat}
    (hstep : s.perform R a = some { s with net := SimNetwork.releaseNext ts n })
    (hstack : n.stack = s.net.stack) (hlinks : n.links = s.net.links) :
    (∀ e t, Raises R s a e t → Unchanged s t) ↔ ∀ i ∈ ts, writerPaused n i = false := by
  constructor
  · intro h i hi
    by_contra hpaused
    obtain ⟨drop, hdrop, hother⟩ := exists_other_rate s.net.defaultDrop
    obtain ⟨acts, t, run, hback, hsignal, hsame, hrate⟩ := release_raises (R := R)
      (u := { s with net := n }) ⟨i, hi, Bool.of_not_eq_false hpaused⟩ hdrop
    rw [show ({ s with net := n } : Configured κ ν ρ).net.stack = s.net.stack from hstack] at run
    have hunchanged := h .exit t ⟨_, acts, hstep, run, hback.trans hstack, hsignal⟩
    have hdefaults := (resolved_eq_iff_defaults (hsame.trans hlinks)).mp hunchanged.links
    exact hother (hrate.symm.trans hdefaults.2.1)
  · rintro hfree e t ⟨s', acts, hs', run, hback, hsignal⟩
    obtain rfl : s' = _ := Option.some.inj (hs'.symm.trans hstep)
    have hquiet : Quiet s.net.stack (SimNetwork.releaseNext ts n) :=
      hstack ▸ quiet_releaseNext hfree
    obtain ⟨v, hreturned⟩ := release_returns hquiet run hback
    rw [hreturned] at hsignal
    cases hsignal

theorem keeps_iff_of_setFlowControl (hcode : s.InCode) (enabled : Bool) (high low : Option Int) :
    (∀ e t, Raises R s (.net (.setFlowControl enabled high low)) e t → Unchanged s t) ↔
      harmless s (.net (.setFlowControl enabled high low)) = true := by
  obtain ⟨rest, hstack, hperform⟩ := perform_of_inCode (R := R) hcode
  have hstep : s.perform R (.net (.setFlowControl enabled high low)) =
      some { s with net := SimNetwork.setFlowControl enabled high low s.net } := by
    rw [perform, hperform]
    rfl
  unfold SimNetwork.setFlowControl at hstep
  dsimp only at hstep
  cases hlimits : (if high.isSome ∨ low.isSome then SimNetwork.checkLimits high low
      else .ok s.net.flowDefaults) with
  | error e' =>
    rw [hlimits] at hstep
    have hrejected : limitsRejected high low = true := by
      split at hlimits
      · simp only [limitsRejected, hlimits, Except.isOk, Except.toBool, Bool.not_false,
          Bool.and_true, Bool.or_eq_true]
        assumption
      · cases hlimits
    have hharmless : harmless s (.net (.setFlowControl enabled high low)) = true := by
      simp [harmless, hrejected]
    refine iff_of_true (fun e t hraises => ?_) hharmless
    obtain ⟨rfl, -⟩ := (raises_iff_of_back hstep rfl).mp hraises
    exact ⟨fun _ _ => rfl, rfl, rfl, rfl, rfl, rfl⟩
  | ok limits =>
    rw [hlimits] at hstep
    dsimp only at hstep
    cases enabled with
    | true =>
      refine iff_of_true (fun e t hraises => ?_) rfl
      obtain ⟨-, hsignal⟩ := (raises_iff_of_back hstep rfl).mp hraises
      cases hsignal
    | false =>
      rw [if_neg Bool.false_ne_true] at hstep
      have haccepted : limitsRejected high low = false := by
        split at hlimits
        · simp only [limitsRejected, hlimits, Except.isOk, Except.toBool, Bool.not_true,
            Bool.and_false]
        · simpa [limitsRejected] using fun h => absurd h ‹_›
      rw [keeps_iff_of_release hstep rfl rfl, harmless, haccepted, Bool.false_or, Bool.false_or,
        List.all_eq_true]
      simp only [Bool.not_eq_true']
      rfl

/-- A call that makes three settings changes nothing when it raises if it keeps the link. -/
theorem keeps_iff_of_stores {latency : Option (ℚ × ℚ)} {drop duplicate : Option ℚ}
    {storeLatency : ℚ × ℚ → SimNetwork ρ → SimNetwork ρ}
    {storeDrop storeDuplicate : ℚ → SimNetwork ρ → SimNetwork ρ} {first : SimNetwork ρ}
    {current : (ℚ × ℚ) × ℚ × ℚ}
    (hstep : s.perform R a = some (answer
      ((threeSettings latency drop duplicate storeLatency storeDrop storeDuplicate first).1,
        { s with net :=
            (threeSettings latency drop duplicate storeLatency storeDrop storeDuplicate first).2 })))
    (hfirst : first.stack = s.net.stack)
    (hstores : (∀ x s, (storeLatency x s).stack = s.stack) ∧
      (∀ x s, (storeDrop x s).stack = s.stack) ∧ ∀ x s, (storeDuplicate x s).stack = s.stack)
    (hstored : ∀ latency drop, Unchanged s
      { s with net := stored drop storeDrop (stored latency storeLatency first) } ↔
        restates latency current.1 = true ∧ restates drop current.2.1 = true) :
    (∀ e t, Raises R s a e t → Unchanged s t) ↔
      keepsLink latency drop duplicate current = true := by
  have hstack := stack_threeSettings latency drop duplicate hstores.1 hstores.2.1 hstores.2.2 first
  rw [keeps_iff_of_answer hstep (hstack.trans hfirst)]
  exact keeps_iff_of_threeSettings hstored

theorem keeps_iff_of_setDefaults (hcode : s.InCode) (latency : Option (ℚ × ℚ))
    (drop duplicate : Option ℚ) :
    (∀ e t, Raises R s (.net (.setDefaults latency drop duplicate)) e t → Unchanged s t) ↔
      harmless s (.net (.setDefaults latency drop duplicate)) = true := by
  obtain ⟨rest, -, hperform⟩ := perform_of_inCode (R := R) hcode
  have hstep : s.perform R (.net (.setDefaults latency drop duplicate)) =
      some (answer ((s.net.setDefaults latency drop duplicate).1,
        { s with net := (s.net.setDefaults latency drop duplicate).2 })) := by
    rw [perform, hperform]
    rfl
  refine keeps_iff_of_stores hstep rfl ⟨fun _ _ => rfl, fun _ _ => rfl, fun _ _ => rfl⟩
    fun latency drop => ?_
  rw [← defaults_stored_iff]
  constructor
  · exact fun h => h.links
  · intro h
    refine ⟨h, rfl, rfl, ?_, ?_, ?_⟩ <;> cases latency <;> cases drop <;> rfl

/-- A call that fails before it stores anything. -/
theorem keeps_of_error {e : Exc}
    (hstep : s.perform R a = some { s with net := s.net.throw e }) :
    ∀ e t, Raises R s a e t → Unchanged s t := by
  intro e' t hraises
  obtain ⟨rfl, -⟩ := (raises_iff_of_back hstep rfl).mp hraises
  exact ⟨fun _ _ => rfl, rfl, rfl, rfl, rfl, rfl⟩

theorem keeps_iff_of_setLink (hcode : s.InCode) (src dst : HostName) (latency : Option (ℚ × ℚ))
    (drop duplicate : Option ℚ) :
    (∀ e t, Raises R s (.net (.setLink src dst latency drop duplicate)) e t → Unchanged s t) ↔
      harmless s (.net (.setLink src dst latency drop duplicate)) = true := by
  obtain ⟨rest, -, hperform⟩ := perform_of_inCode (R := R) hcode
  have hstep : s.perform R (.net (.setLink src dst latency drop duplicate)) =
      some (answer ((s.net.setLink src dst latency drop duplicate).1,
        { s with net := (s.net.setLink src dst latency drop duplicate).2 })) := by
    rw [perform, hperform]
    rfl
  simp only [SimNetwork.setLink, SimNetwork.requireHost] at hstep
  by_cases hsrc : s.net.alive.contains src = true
  · by_cases hdst : s.net.alive.contains dst = true
    · rw [if_pos hsrc, if_pos hdst] at hstep
      rw [harmless, hsrc, hdst, Bool.and_true, Bool.not_true, Bool.false_or]
      refine keeps_iff_of_stores hstep rfl ⟨fun _ _ => rfl, fun _ _ => rfl, fun _ _ => rfl⟩
        fun latency drop => ?_
      rw [← link_stored_iff]
      constructor
      · exact fun h => h.links
      · intro h
        refine ⟨h, rfl, rfl, ?_, ?_, ?_⟩ <;> cases latency <;> cases drop <;> rfl
    · rw [if_pos hsrc, if_neg hdst] at hstep
      exact iff_of_true (keeps_of_error hstep) (by simp [harmless, hdst])
  · rw [if_neg hsrc] at hstep
    exact iff_of_true (keeps_of_error hstep) (by simp [harmless, hsrc])

/-- A call that stores nothing when it is rejected. -/
theorem keeps_of_answer {r : Except Exc Unit × Configured κ ν ρ}
    (hstep : s.perform R a = some (answer r)) (hstack : r.2.net.stack = s.net.stack)
    (h : ∀ e, r.1 = .error e → r.2 = s) : ∀ e t, Raises R s a e t → Unchanged s t :=
  (keeps_iff_of_answer hstep hstack).mpr fun e he => h e he ▸ Unchanged.refl s

omit [DecidableEq κ] in
theorem setClock_keeps (name : HostName) (offset : Except Exc ℚ) :
    (s.setClock name offset).2.net.stack = s.net.stack ∧
      ∀ e, (s.setClock name offset).1 = .error e → (s.setClock name offset).2 = s := by
  unfold setClock
  split
  · exact ⟨rfl, fun _ _ => rfl⟩
  · split
    · exact ⟨rfl, fun _ _ => rfl⟩
    · exact ⟨rfl, fun _ h => by cases h⟩

theorem setDisk_keeps (name : HostName) (buffered torn : Bool) :
    (s.setDisk name buffered torn).2.net.stack = s.net.stack ∧
      ∀ e, (s.setDisk name buffered torn).1 = .error e → (s.setDisk name buffered torn).2 = s := by
  unfold setDisk
  split
  · exact ⟨rfl, fun _ _ => rfl⟩
  · split
    · exact ⟨rfl, fun _ _ => rfl⟩
    · exact ⟨rfl, fun _ h => by cases h⟩

theorem partition_keeps (n : SimNetwork ρ) (groupA groupB : List HostName) :
    (n.partition groupA groupB).2.stack = n.stack ∧
      ∀ e, (n.partition groupA groupB).1 = .error e → (n.partition groupA groupB).2 = n := by
  unfold SimNetwork.partition
  split
  · exact ⟨rfl, fun _ _ => rfl⟩
  · split
    · exact ⟨rfl, fun _ _ => rfl⟩
    · split
      · exact ⟨rfl, fun _ _ => rfl⟩
      · split
        · exact ⟨rfl, fun _ _ => rfl⟩
        · exact ⟨rfl, fun _ h => by cases h⟩

/-- **Which rejected configurations change nothing.**  A call of `set_clock`, `set_disk` or
`partition` that raises leaves the configuration as it was; one of `set_defaults` or
`set_link` does so when what it is given before the first rejected argument is in force
already; one of `set_flow_control` when it tells no writer to go on.  A writer that is told
can itself change the defaults and then raise out of the call. -/
theorem rejected_unchanged_iff (R : RandomSource ρ) (s : Configured κ ν ρ) (hcode : s.InCode)
    (a : ConfigAct) (ha : a.configures = true) :
    (∀ e t, Raises R s a e t → Unchanged s t) ↔ harmless s a = true := by
  obtain ⟨rest, -, hperform⟩ := perform_of_inCode (R := R) hcode
  cases a with
  | setClock name offset =>
    have hstep : s.perform R (.setClock name offset) = some (answer (s.setClock name offset)) :=
      if_pos hcode
    obtain ⟨hstack, hkeeps⟩ := setClock_keeps (s := s) name offset
    exact iff_of_true (keeps_of_answer hstep hstack hkeeps) rfl
  | setDisk name buffered torn =>
    have hstep : s.perform R (.setDisk name buffered torn) =
        some (answer (s.setDisk name buffered torn)) := if_pos hcode
    obtain ⟨hstack, hkeeps⟩ := setDisk_keeps (s := s) name buffered torn
    exact iff_of_true (keeps_of_answer hstep hstack hkeeps) rfl
  | net a =>
    cases a with
    | setDefaults latency drop duplicate =>
      exact keeps_iff_of_setDefaults hcode latency drop duplicate
    | setLink src dst latency drop duplicate =>
      exact keeps_iff_of_setLink hcode src dst latency drop duplicate
    | setFlowControl enabled high low => exact keeps_iff_of_setFlowControl hcode enabled high low
    | partition groupA groupB =>
      have hstep : s.perform R (.net (.partition groupA groupB)) =
          some (answer ((s.net.partition groupA groupB).1,
            { s with net := (s.net.partition groupA groupB).2 })) := by
        rw [perform, hperform]
        rfl
      obtain ⟨hstack, hkeeps⟩ := partition_keeps s.net groupA groupB
      refine iff_of_true (keeps_of_answer hstep hstack fun e he => ?_) rfl
      rw [hkeeps e he]
    | _ => cases ha

end

/-- A callback of the driver on a new network. -/
def calling : Configured Unit Unit Unit :=
  ⟨{ SimNetwork.init .least 0 with stack := [.code] }, Dict.empty, Dict.empty⟩

/-- A latency that is accepted, and then a drop rate that is not. -/
def lateRejection : ConfigAct := .net (.setDefaults (some (1 / 10, 1 / 5)) (some (3 / 2)) none)

theorem not_rejected_unchanged :
    SimNetwork.performs .least (SimNetwork.init .least 0) [.callback driver] =
        some calling.net ∧
      ∃ e t, calling.Raises .least lateRejection e t ∧ ¬ calling.Unchanged t := by
  refine ⟨rfl, ?_⟩
  have hiff := keeps_iff_of_setDefaults (R := .least) (s := calling) ⟨rfl, rfl⟩
    (some (1 / 10, 1 / 5)) (some (3 / 2)) none
  have hharmless : harmless calling lateRejection = false := by decide +kernel
  have hnot := mt hiff.mp (ne_true_of_eq_false hharmless)
  push Not at hnot
  exact hnot

/-- The latency that is in force already, and then a drop rate that is rejected. -/
def restatedRejection : ConfigAct := .net (.setDefaults (some (0, 0)) (some (3 / 2)) none)

theorem rejected_unchanged_iff_restated :
    (∀ e t, calling.Raises .least restatedRejection e t → calling.Unchanged t) ∧
      (∃ e t, calling.Raises .least restatedRejection e t) ∧
      ∀ e t, calling.Raises .least (.net (.setFlowControl false (some 8) none)) e t →
        calling.Unchanged t := by
  have hkept : harmless calling restatedRejection = true := by decide +kernel
  have hquiet : harmless calling (.net (.setFlowControl false (some 8) none)) = true := by
    decide +kernel
  refine ⟨(rejected_unchanged_iff .least calling ⟨rfl, rfl⟩ restatedRejection rfl).mpr hkept, ?_,
    (rejected_unchanged_iff .least calling ⟨rfl, rfl⟩ _ rfl).mpr hquiet⟩
  have herror : (calling.net.setDefaults (some (0, 0)) (some (3 / 2)) none).1.isOk = false := by
    decide +kernel
  cases hr : (calling.net.setDefaults (some (0, 0)) (some (3 / 2)) none).1 with
  | ok _ =>
      rw [hr] at herror
      cases herror
  | error e =>
      refine ⟨e, _, _, [], rfl, .nil _, ?_, ?_⟩
      · simp only [SimNetwork.answer, hr]
        exact SimNetwork.setDefaults_keeps (g := SimNetwork.stack) calling.net
          (fun _ _ _ _ => rfl) _ _ _
      · simp only [SimNetwork.answer, hr]
        rfl

end Configured

end SimLoop.Net
