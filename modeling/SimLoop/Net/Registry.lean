/-
  Net/Registry.lean --- the registries of a network point at open endpoints.

  Streams, datagram endpoints and listeners are registered under an address each.  In
  every reachable state whoever is registered under an address is an open endpoint of
  that address, and nobody is registered under two.
-/
import SimLoop.Net.Bookkeeping

set_option autoImplicit false

namespace SimLoop.Net

open SimLoop.Foundation Ledger

namespace Ledger

/-- Whoever is registered is an open endpoint of the address it is registered under. -/
structure Registered (g : Ledger) : Prop where
  streams : g.streams.Sound
  datagrams : g.datagrams.Sound
  listeners : g.listeners.Sound

theorem Registered.move {A : Change → Prop} {g h : Ledger} (hg : g.Registered)
    (hmove : Move A g h) : h.Registered := by
  have hdatagrams : h.datagrams.Sound := by
    rcases hmove.datagrams with heq | hroll
    · exact heq ▸ hg.datagrams
    · exact hg.datagrams.move hroll
  cases hmove with
  | streams hmove => exact ⟨hg.streams.move hmove, hg.datagrams, hg.listeners⟩
  | listeners hmove => exact ⟨hg.streams, hg.datagrams, hg.listeners.move hmove⟩
  | _ => exact ⟨hg.streams, hdatagrams, hg.listeners⟩

end Ledger

variable {ρ : Type}

namespace SimNetwork

theorem registered_init (R : RandomSource ρ) (seed : Int) :
    (init R seed).ledger.Registered := by
  refine Moves.invariant (A := fun _ => False) (fun g h hmove hg => hg.move hmove)
    (host_moves _ driver) ?_
  exact ⟨.empty, .empty, .empty⟩

theorem Step.registered {R : RandomSource ρ} {s s' : SimNetwork ρ} {a : Act}
    (hstep : Step R s a s') (hs : s.ledger.Registered) : s'.ledger.Registered := by
  rcases step_moves R s hstep with hmoves | ⟨name, -, hrestart⟩
  · exact hmoves.invariant (fun g h hmove hg => hg.move hmove) hs
  · rw [hrestart]
    exact ⟨hs.streams, hs.datagrams, hs.listeners⟩

/-- Datagram endpoints that are registered nowhere stay so. -/
theorem Step.gone {R : RandomSource ρ} {s s' : SimNetwork ρ} {a : Act} {l : List Nat}
    (hstep : Step R s a s') (hs : s.datagramRoll.Gone l) : s'.datagramRoll.Gone l := by
  rcases step_moves R s hstep with hmoves | ⟨name, -, hrestart⟩
  · refine hmoves.invariant (I := fun g => g.datagrams.Gone l) (fun g h hmove hg => ?_) hs
    rcases hmove.datagrams with heq | hroll
    · exact heq ▸ hg
    · exact hg.move hroll
  · have hroll : s'.datagramRoll = s.datagramRoll := congrArg Ledger.datagrams hrestart
    exact hroll ▸ hs

/-- In every reachable state the registries point at open endpoints. -/
theorem registered_of_run {R : RandomSource ρ} {seed : Int} {acts : List Act} {s : SimNetwork ρ}
    (run : Run (Step R) (init R seed) acts s) : s.ledger.Registered :=
  run.invariant (fun _ _ _ hs hstep => Step.registered hstep hs) (registered_init R seed)

variable {s : SimNetwork ρ}

/-- A registered stream transport is open, and it is registered under its own key. -/
theorem stream_of_registered (hs : s.ledger.Registered) {k : Key} {t : Nat}
    (ht : s.streams.get? k = some t) :
    ∃ T, s.transports[t]? = some T ∧ T.key = k ∧ T.closed = false := by
  obtain ⟨e, he, haddr, hopen⟩ := hs.streams k t ht
  obtain ⟨T, hT, rfl⟩ : ∃ T, s.transports[t]? = some T ∧ T.entry = e := by
    simpa only [ledger, streamRoll, List.getElem?_map, Option.map_eq_some_iff] using he
  exact ⟨T, hT, haddr, hopen⟩

/-- A registered datagram endpoint is open, and it is registered under its own address. -/
theorem datagram_of_registered (hs : s.ledger.Registered) {a : Addr} {d : Nat}
    (hd : s.datagrams.get? a = some d) :
    ∃ D, s.datagramTransports[d]? = some D ∧ D.loc = a ∧ D.closing = false := by
  obtain ⟨e, he, haddr, hopen⟩ := hs.datagrams a d hd
  obtain ⟨D, hD, rfl⟩ : ∃ D, s.datagramTransports[d]? = some D ∧ D.entry = e := by
    simpa only [ledger, datagramRoll, List.getElem?_map, Option.map_eq_some_iff] using he
  exact ⟨D, hD, haddr, hopen⟩

/-- A registered server is open, and it listens where it is registered. -/
theorem server_of_registered (hs : s.ledger.Registered) {a : Addr} {v : Nat}
    (hv : s.listeners.get? a = some v) :
    ∃ V, s.servers[v]? = some V ∧ (V.host, V.port) = a ∧ V.closed = false := by
  obtain ⟨e, he, haddr, hopen⟩ := hs.listeners a v hv
  obtain ⟨V, hV, rfl⟩ : ∃ V, s.servers[v]? = some V ∧ V.entry = e := by
    simpa only [ledger, listenerRoll, List.getElem?_map, Option.map_eq_some_iff] using he
  exact ⟨V, hV, haddr, hopen⟩

end SimNetwork

end SimLoop.Net
