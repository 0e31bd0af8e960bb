/-
  Timeline/Timeline.lean --- what a timeline draws (`_timeline.py`).

  Only the pure functions from events to what gets drawn; the page they are put on is
  left out.
-/
import SimLoop.Foundation.Fields
import SimLoop.Foundation.Pairing
import SimLoop.Loop.Trace

set_option autoImplicit false

namespace SimLoop.Timeline

open SimLoop.Foundation SimLoop.Loop

/-! ## Verbs -/

/-- `_SEND`. -/
def send : String := "send"

/-- `_DELIVER`. -/
def deliver : String := "deliver"

/-- The fate of a packet that nothing ever answered. -/
def inflight : String := "inflight"

/-- `_FATES`. -/
def fates : List String := ["drop", "lost", "hold"]

/-- `_ARRIVAL_FATES`. -/
def arrivalFates : List String := ["lost"]

/-! ## Labels -/

/-- `str.partition`, at a separator of one character. -/
def partition (sep : Char) (text : String) : String × String × String :=
  match readField sep text.toList with
  | some (before, after) => (String.ofList before, String.singleton sep, String.ofList after)
  | none => (text, "", "")

/-- `_ends`. -/
def ends (label : String) : String × String × String :=
  let (verb, _, rest) := partition ' ' label
  let (src, link, dst) := partition '>' rest
  (verb, src, if link = "" then "" else dst)

/-! ## Lanes -/

/-- One step of the loop of `_lane_hosts`: the names so far, and whether there was
hostless work. -/
def mention (found : Dict HostName Unit × Bool) (event : TraceEvent) : Dict HostName Unit × Bool :=
  let (order, hostless) := found
  if event.kind = .net then
    let (_, src, dst) := ends event.label
    let named := [src, dst].filter (· ≠ "")
    (named.foldl (fun order name => order.insert name ()) order, hostless || named.isEmpty)
  else if event.host ≠ "" then (order.insert event.host (), hostless)
  else (order, true)

/-- `_lane_hosts`. -/
def laneHosts (events : List TraceEvent) : List HostName :=
  let (order, hostless) := events.foldl mention (Dict.empty, false)
  if hostless then order.keys ++ [""] else order.keys

/-! ## Packets -/

/-- `_Packet`. -/
structure Packet where
  uid : Int
  src : HostName
  dst : HostName
  start : ℚ
  end_ : ℚ
  fate : String
  deriving DecidableEq

/-- `_Mark`. -/
structure Mark where
  host : HostName
  verb : String
  when_ : ℚ
  label : String
  deriving DecidableEq

/-- A send that waits for its answer. -/
abbrev Departure := ℚ × HostName × HostName

/-- What the loop of `_packets` carries. -/
structure Drawing where
  queued : Dict Int (List Departure)
  packets : List Packet
  marks : List Mark

namespace Drawing

def empty : Drawing := ⟨Dict.empty, [], []⟩

/-- The sends of a uid that wait. -/
def queue (d : Drawing) (uid : Int) : List Departure := (d.queued.get? uid).getD []

/-- One step of the loop of `_packets`. -/
def draw (d : Drawing) (event : TraceEvent) : Drawing :=
  if event.kind ≠ .net then d
  else
    let (verb, src, dst) := ends event.label
    if dst = "" then { d with marks := d.marks ++ [⟨src, verb, event.when_, event.label⟩] }
    else
      let queue := d.queue event.seq
      if verb = send then
        { d with queued := d.queued.insert event.seq (queue ++ [(event.when_, src, dst)]) }
      else if verb = deliver then
        let start := (queue.head?.map (·.1)).getD event.when_
        { d with
          queued := d.queued.insert event.seq queue.tail
          packets := d.packets ++ [⟨event.seq, src, dst, start, event.when_, deliver⟩] }
      else
        match decide (verb ∈ fates), queue with
        | true, (start, _) :: rest =>
          { d with
            queued := d.queued.insert event.seq rest
            packets := d.packets ++ [⟨event.seq, src, dst, start, event.when_, verb⟩] }
        | _, _ =>
          let host := if verb ∈ arrivalFates then dst else src
          { d with
            queued := d.queued.insert event.seq queue
            marks := d.marks ++ [⟨host, verb, event.when_, event.label⟩] }

/-- The sends of one uid that nothing answered. -/
def stubs (uid : Int) (queue : List Departure) : List Packet :=
  queue.map fun (start, src, dst) => ⟨uid, src, dst, start, start, inflight⟩

end Drawing

/-- The order packets are drawn in. -/
def before (p q : Packet) : Bool :=
  decide (p.start < q.start ∨ p.start = q.start ∧
    (p.end_ < q.end_ ∨ p.end_ = q.end_ ∧ p.uid ≤ q.uid))

/-- `_packets`. -/
def packets (events : List TraceEvent) : List Packet × List Mark :=
  let d := events.foldl Drawing.draw .empty
  let inflight := d.queued.entries.flatMap fun (uid, queue) => Drawing.stubs uid queue
  ((d.packets ++ inflight).mergeSort before, d.marks)

/-! ## Every send drawn once -/

/-- What a net event says happened. -/
def verbOf (e : TraceEvent) : String := (ends e.label).1

def isSend (e : TraceEvent) : Bool := decide (e.kind = .net ∧ verbOf e = send)

def isDeliver (e : TraceEvent) : Bool := decide (e.kind = .net ∧ verbOf e = deliver)

/-- A net event that is neither a send nor a delivery. -/
def isOther (e : TraceEvent) : Bool :=
  decide (e.kind = .net ∧ verbOf e ≠ send ∧ verbOf e ≠ deliver)

/-- Every send is one packet, which starts with it, and no packet is without a send; every
delivery is one of the packets that were delivered; and every other event either ended a
packet or is one mark, on a lane. -/
structure DrawsOnce (events : List TraceEvent) : Prop where
  sends : ((packets events).1.map fun p => (p.uid, p.start)).Perm
    ((events.filter isSend).map fun e => (e.seq, e.when_))
  deliveries : ((packets events).1.filter (·.fate = deliver)).length =
    (events.filter isDeliver).length
  others : ∃ ended marked : List TraceEvent, (ended ++ marked).Perm (events.filter isOther) ∧
    (((packets events).1.filter fun p => p.fate ≠ deliver ∧ p.fate ≠ inflight).map
      fun p => (p.uid, p.end_, p.fate)).Perm (ended.map fun e => (e.seq, e.when_, verbOf e)) ∧
    (packets events).2.map (fun m => (m.verb, m.when_, m.label)) =
      marked.map fun e => (verbOf e, e.when_, e.label)
  lanes : ∀ m ∈ (packets events).2, m.host ∈ laneHosts events

end SimLoop.Timeline
