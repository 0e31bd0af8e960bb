/-
  Net/Ledger.lean --- the records of a network.

  A ledger is what a network keeps of its packets, of its tasks and of its endpoints:
  where every packet is and what the trace says about it, which task is registered with
  which host, which endpoint holds which address, and which port comes next.  What the
  endpoints and the program are doing with it is left out.  Its moves are elementary;
  that every step of the network is a sequence of them is shown in Net/Bookkeeping.
-/
import SimLoop.Foundation.Roll
import SimLoop.Net.State
import Mathlib.Logic.Relation

set_option autoImplicit false

namespace SimLoop.Net

open SimLoop.Foundation

/-! ## Packets -/

/-- The packets that were made, where they are, and what was recorded of them. -/
structure Traffic where
  trace : List NetEvent
  inFlight : List Flight
  held : List Packet
  sent : List Packet
  landed : List Landing
  nextUid : Nat

namespace Traffic

/-- The event that says `verb` of a packet. -/
def event (time : ℚ) (verb : Verb) (p : Packet) : NetEvent :=
  ⟨time, p.uid, .packet verb p.src p.dst⟩

/-- Record that `verb` happened to a packet. -/
def note (w : Traffic) (time : ℚ) (verb : Verb) (p : Packet) : Traffic :=
  { w with trace := w.trace ++ [event time verb p] }

/-- Put a packet on its way. -/
def launch (w : Traffic) (time due : ℚ) (p : Packet) : Traffic :=
  { w.note time .send p with inFlight := w.inFlight ++ [⟨p, due⟩] }

/-- Hold a packet back. -/
def park (w : Traffic) (time : ℚ) (p : Packet) : Traffic :=
  { w.note time .hold p with held := w.held ++ [p] }

/-- What can become of a packet that is handed over to be sent. -/
inductive Dispatch (time : ℚ) (p : Packet) (w : Traffic) : Traffic → Prop
  | launched (due : ℚ) : Dispatch time p w (w.launch time due p)
  | parked (hkind : p.kind ≠ .dgram) : Dispatch time p w (w.park time p)
  | dropped (hkind : p.kind = .dgram) : Dispatch time p w (w.note time .drop p)
  | doubled (hkind : p.kind = .dgram) (due due' : ℚ) :
      Dispatch time p w (((w.note time .dup p).launch time due p).launch time due' p)

/-- What a delivery step records first; `down` says which hosts were crashed. -/
inductive Outcome (down : HostName → Prop) (time : ℚ) (p : Packet) (w : Traffic) :
    Traffic → Prop
  | lost (hdown : down p.src ∨ down p.dst) : Outcome down time p w (w.note time .lost p)
  | parked (hkind : p.kind ≠ .dgram) : Outcome down time p w (w.park time p)
  | dropped (hkind : p.kind = .dgram) : Outcome down time p w (w.note time .drop p)
  | delivered : Outcome down time p w (w.note time .deliver p)

/-- More packets in the front of the held ones make no difference. -/
theorem Dispatch.prepend {time : ℚ} {p : Packet} {w w' : Traffic} (h : Dispatch time p w w')
    (l : List Packet) :
    Dispatch time p { w with held := l ++ w.held } { w' with held := l ++ w'.held } := by
  cases h with
  | launched due => exact .launched due
  | parked hkind =>
      have heq : ({ w.park time p with held := l ++ (w.park time p).held } : Traffic) =
          ({ w with held := l ++ w.held } : Traffic).park time p := by
        simp only [park, note, List.append_assoc]
      rw [heq]
      exact .parked hkind
  | dropped hkind => exact .dropped hkind
  | doubled hkind due due' => exact .doubled hkind due due'

/-- A new packet takes the next uid. -/
def stamp (w : Traffic) (p : Packet) : Traffic :=
  { w with sent := w.sent ++ [p], nextUid := w.nextUid + 1 }

/-- A timer fires: its packet is no longer on its way. -/
def fire (w : Traffic) (i : Nat) (p : Packet) : Traffic :=
  { w with inFlight := w.inFlight.eraseIdx i, landed := w.landed ++ [⟨p, w.trace.length⟩] }

/-- A packet has this end. -/
def endsAt (name : HostName) (p : Packet) : Bool := decide (name = p.src ∨ name = p.dst)

/-- The held packets of a host are lost, and its crash is recorded. -/
def purge (w : Traffic) (time : ℚ) (name : HostName) : Traffic :=
  { w with
    held := w.held.filter fun p => !endsAt name p
    trace := w.trace ++ (w.held.filter (endsAt name)).map (event time .lost) ++
      [⟨time, w.nextUid, .crash name⟩]
    nextUid := w.nextUid + 1 }

/-- A restart is recorded. -/
def restart (w : Traffic) (time : ℚ) (name : HostName) : Traffic :=
  { w with
    trace := w.trace ++ [⟨time, w.nextUid, .restart name⟩]
    nextUid := w.nextUid + 1 }

/-- The elementary changes. -/
inductive Move (down : HostName → Prop) : Traffic → Traffic → Prop
  | posted {w w' : Traffic} (time : ℚ) {p : Packet} (huid : p.uid = w.nextUid)
      (hsend : Dispatch time p (w.stamp p) w') : Move down w w'
  | released {w w' : Traffic} (time : ℚ) {p : Packet} {rest : List Packet}
      (hheld : w.held = p :: rest)
      (hsend : Dispatch time p (({ w with held := rest } : Traffic).note time .release p) w') :
      Move down w w'
  | landed {w w' : Traffic} (time : ℚ) {i : Nat} {f : Flight} (hi : w.inFlight[i]? = some f)
      (hland : Outcome down time f.packet (w.fire i f.packet) w') : Move down w w'
  | missed {w : Traffic} (time : ℚ) {l : Landing} (hl : l ∈ w.landed)
      (hkind : l.packet.kind = .dgram) : Move down w (w.note time .lost l.packet)
  | purged (w : Traffic) (time : ℚ) (name : HostName) : Move down w (w.purge time name)
  | restarted (w : Traffic) (time : ℚ) (name : HostName) : Move down w (w.restart time name)

end Traffic

/-! ## Tasks -/

/-- The hosts that are alive and the tasks registered with them. -/
structure Roster where
  alive : Dict HostName Bool
  tasks : List Task
  roster : Dict HostName (List Nat)

namespace Roster

/-- A host that was crashed and is not back. -/
def down (r : Roster) (name : HostName) : Prop := r.alive.get? name = some false

/-- One more request to cancel, unless the task is done. -/
def ask (T : Task) : Task := if T.done then T else { T with asked := T.asked + 1 }

/-- The elementary changes, but for those of a crash and a restart; `P` says which tasks
may be made. -/
inductive Move (P : Task → Prop) : Roster → Roster → Prop
  | enlisted (r : Roster) {name : HostName} (hnew : r.alive.contains name = false) :
      Move P r { r with alive := r.alive.insert name true, roster := r.roster.insert name [] }
  | made (r : Roster) {T : Task} (hP : P T) (hT : T.done = false) {owner : List Nat}
      (howner : r.roster.get? T.registered = some owner) :
      Move P r { r with
        tasks := r.tasks ++ [T]
        roster := r.roster.insert T.registered (owner ++ [r.tasks.length]) }
  | asked (r : Roster) (i : Nat) : Move P r { r with tasks := r.tasks.modify i ask }
  | settled (r : Roster) (i : Nat) :
      Move P r { r with tasks := r.tasks.modify i fun T => { T with done := true } }
  | forgotten (r : Roster) {i : Nat} {T : Task} (hT : r.tasks[i]? = some T)
      (hdone : T.done = true) :
      Move P r { r with
        roster := r.roster.insert T.registered (((r.roster.get? T.registered).getD []).erase i) }

end Roster

/-! ## Ledgers -/

/-- The records of a network. -/
structure Ledger where
  traffic : Traffic
  hosts : Roster
  incarnation : HostName → Nat
  streams : Roll Key
  datagrams : Roll Addr
  listeners : Roll Addr
  nextPort : Nat

/-- What an act has to answer for: a task that is made, an address that a datagram endpoint
gets while the port counter stands at `next`, and an address that is given up. -/
inductive Change where
  | made (T : Task)
  | bound (a : Addr) (next : Nat)
  | freed (a : Addr)

namespace Ledger

/-- The elementary changes; a restart is not among them, and `A` says which of those that
have to be answered for may be made. -/
inductive Move (A : Change → Prop) : Ledger → Ledger → Prop
  | traffic (g : Ledger) {w : Traffic} (h : Traffic.Move g.hosts.down g.traffic w) :
      Move A g { g with traffic := w }
  | hosts (g : Ledger) {r : Roster} (h : Roster.Move (fun T => A (.made T)) g.hosts r) :
      Move A g { g with hosts := r }
  | downed (g : Ledger) {name : HostName} (hname : g.hosts.alive.contains name = true) :
      Move A g { g with hosts := { g.hosts with alive := g.hosts.alive.insert name false } }
  | streams (g : Ledger) {r : Roll Key}
      (h : Roll.Move (fun k => g.incarnation k.2.1) g.streams r) : Move A g { g with streams := r }
  | bound (g : Ledger) {e : Entry Addr} (hopen : e.closed = false)
      (hborn : e.born = g.incarnation e.addr.1) (hfree : g.datagrams.table.get? e.addr = none)
      (hA : A (.bound e.addr g.nextPort)) :
      Move A g { g with datagrams := g.datagrams.enroll e }
  | closed (g : Ledger) {d : Nat} {e : Entry Addr} (he : g.datagrams.entries[d]? = some e)
      (hA : A (.freed e.addr)) : Move A g { g with datagrams := g.datagrams.retire d }
  | freed (g : Ledger) {a : Addr} (hA : A (.freed a)) :
      Move A g { g with datagrams := g.datagrams.remove a }
  | listeners (g : Ledger) {r : Roll Addr}
      (h : Roll.Move (fun a => g.incarnation a.1) g.listeners r) :
      Move A g { g with listeners := r }
  | drew (g : Ledger) : Move A g { g with nextPort := g.nextPort + 1 }

/-- A restart: the host is alive again, in its next incarnation. -/
def restart (g : Ledger) (time : ℚ) (name : HostName) : Ledger :=
  { g with
    traffic := g.traffic.restart time name
    hosts := { g.hosts with alive := g.hosts.alive.insert name true }
    incarnation := fun h => if h = name then g.incarnation h + 1 else g.incarnation h }

/-- What a move does to the datagram endpoints. -/
theorem Move.datagrams {A : Change → Prop} {g h : Ledger} (hmove : Move A g h) :
    h.datagrams = g.datagrams ∨
      Roll.Move (fun a => g.incarnation a.1) g.datagrams h.datagrams := by
  cases hmove with
  | bound hopen hborn _ _ => exact .inr (.enrolled _ hopen hborn)
  | @closed d _ _ _ => exact .inr (.retired _ d)
  | @freed a _ => exact .inr (.removed _ a)
  | _ => exact .inl rfl

/-- Any number of moves. -/
def Moves (A : Change → Prop) : Ledger → Ledger → Prop := Relation.ReflTransGen (Move A)

variable {A : Change → Prop}

theorem Moves.refl (g : Ledger) : Moves A g g := Relation.ReflTransGen.refl

theorem Moves.of_eq {g h : Ledger} (heq : h = g) : Moves A g h := by
  rw [heq]
  exact .refl g

theorem Move.moves {g h : Ledger} (hmove : Move A g h) : Moves A g h :=
  Relation.ReflTransGen.single hmove

theorem Moves.trans {g h i : Ledger} (hgh : Moves A g h) (hhi : Moves A h i) : Moves A g i :=
  Relation.ReflTransGen.trans hgh hhi

/-- What every move keeps, the moves keep. -/
theorem Moves.invariant {I : Ledger → Prop} (hmove : ∀ g h, Move A g h → I g → I h)
    {g h : Ledger} (hmoves : Moves A g h) (hg : I g) : I h := by
  induction hmoves with
  | refl => exact hg
  | tail _ hlast ih => exact hmove _ _ hlast ih

end Ledger

/-! ## The ledger of a network -/

variable {ρ : Type}

def StreamTransport.entry (T : StreamTransport) : Entry Key := ⟨T.key, T.born, T.closed⟩

def DatagramTransport.entry (D : DatagramTransport) : Entry Addr := ⟨D.loc, D.born, D.closing⟩

def Server.entry (V : Server) : Entry Addr := ⟨(V.host, V.port), V.born, V.closed⟩

namespace SimNetwork

def traffic (s : SimNetwork ρ) : Traffic :=
  ⟨s.trace, s.inFlight, s.held, s.sent, s.landed, s.nextUid⟩

def hosts (s : SimNetwork ρ) : Roster := ⟨s.alive, s.tasks, s.roster⟩

def streamRoll (s : SimNetwork ρ) : Roll Key :=
  ⟨s.transports.map StreamTransport.entry, s.streams⟩

def datagramRoll (s : SimNetwork ρ) : Roll Addr :=
  ⟨s.datagramTransports.map DatagramTransport.entry, s.datagrams⟩

def listenerRoll (s : SimNetwork ρ) : Roll Addr :=
  ⟨s.servers.map Server.entry, s.listeners⟩

/-- The ledger of a network. -/
def ledger (s : SimNetwork ρ) : Ledger :=
  ⟨s.traffic, s.hosts, s.incarnation, s.streamRoll, s.datagramRoll, s.listenerRoll, s.nextPort⟩

end SimNetwork

end SimLoop.Net
