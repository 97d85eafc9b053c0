import JammVpn.Lib.Machine
import JammVpn.Lib.Maps
import JammVpn.Net.Tuic

-- The associations of a connection, and the loop that hands what it receives to their flows.
namespace JammVpn.TuicUdp

def flowQueue : Nat := 64

-- The queue of a flow. Sending to it fails once its receiver is dropped.
structure Channel where
  queue : List (List UInt8)
  alive : Bool

def Channel.new : Channel where
  queue := []
  alive := true

def Channel.dropped : Channel where
  queue := []
  alive := false

-- Where the loop has got to. It does not hold the lock on the flows at any of these places.
inductive Loop
  | idle
  | received (id : UInt16) (payload : List UInt8)
  | sending (id : UInt16) (tx : Nat) (payload : List UInt8)
  | failed (id : UInt16) (tx : Nat)
  | closed

-- A sender is the number of its channel.
structure State where
  nextAssoc : UInt16
  flows     : PartialMap UInt16 Nat
  channels  : List Channel
  reasm     : Tuic.Pending
  loop      : Loop

def State.start : State where
  nextAssoc := 1
  flows := .empty
  channels := []
  reasm := .empty
  loop := .idle

-- Every try of the search takes a value of the counter, which wraps.
def freeId (flows : PartialMap UInt16 Nat) : Nat → UInt16 → Option UInt16 × UInt16
  | 0,     next => (none, next)
  | n + 1, next =>
    if next ≠ 0 ∧ flows.get next = none then (some next, next + 1)
    else freeId flows n (next + 1)

-- The id that the next registration is given, if any of them is free.
def State.nextId (s : State) : Option UInt16 :=
  (freeId s.flows 65536 s.nextAssoc).1

def State.register (s : State) : State :=
  match freeId s.flows 65536 s.nextAssoc with
  | (none, next)    => { s with nextAssoc := next }
  | (some id, next) => { s with
      nextAssoc := next
      flows := s.flows.insert id s.channels.length
      channels := s.channels ++ [.new]
    }

def State.dissociate (s : State) (id : UInt16) : State :=
  { s with flows := s.flows.erase id }

def State.setChannel (s : State) (tx : Nat) (c : Channel) : State :=
  { s with channels := s.channels.set tx c }

inductive Event
  | register
  | dissociate (id : UInt16)
  | drop (rx : Nat)
  | recv (rx : Nat)
  | datagram (now tie : Nat) (dg : List UInt8)
  | lookup
  | send
  | remove
  | close

-- The events that are steps of the loop.
def Event.ofLoop : Event → Bool
  | .register | .dissociate _ | .drop _ | .recv _           => false
  | .datagram _ _ _ | .lookup | .send | .remove | .close => true

def State.drop (s : State) (rx : Nat) : Option State := do
  let c ← s.channels[rx]?
  if c.alive then some (s.setChannel rx .dropped)
  else none

def State.recv (s : State) (rx : Nat) : Option State := do
  let c ← s.channels[rx]?
  match c.alive, c.queue with
  | true, _ :: queue => some (s.setChannel rx { c with queue })
  | _, _             => none

-- Reads a datagram, up to the point where the loop takes the lock.
def State.datagram (s : State) (now tie : Nat) (dg : List UInt8) : Option State :=
  match s.loop with
  | .idle =>
    match Tuic.receive now tie dg s.reasm with
    | (none, reasm)               => some { s with reasm }
    | (some (id, payload), reasm) => some { s with reasm, loop := .received id payload }
  | _     => none

-- Clones the sender of a flow, under the lock.
def State.lookup (s : State) : Option State :=
  match s.loop with
  | .received id payload =>
    match s.flows.get id with
    | none    => some { s with loop := .idle }
    | some tx => some { s with loop := .sending id tx payload }
  | _                    => none

-- Sending waits while the queue is full.
def State.send (s : State) : Option State :=
  match s.loop with
  | .sending id tx payload => do
    let c ← s.channels[tx]?
    if !c.alive then some { s with loop := .failed id tx }
    else if c.queue.length < flowQueue then
      some { s.setChannel tx { c with queue := c.queue ++ [payload] } with loop := .idle }
    else none
  | _                      => none

-- Takes the lock again, to remove the id of the failed flow.
def State.remove (s : State) : Option State :=
  match s.loop with
  | .failed id _ => some { s with flows := s.flows.erase id, loop := .idle }
  | _            => none

-- The connection has closed: all senders are dropped, so that the flows come to their end.
def State.close (s : State) : Option State :=
  match s.loop with
  | .idle => some { s with flows := .empty, loop := .closed }
  | _     => none

def step (s : State) : Event → Option State
  | .register            => some s.register
  | .dissociate id       => some (s.dissociate id)
  | .drop rx             => s.drop rx
  | .recv rx             => s.recv rx
  | .datagram now tie dg => s.datagram now tie dg
  | .lookup              => s.lookup
  | .send                => s.send
  | .remove              => s.remove
  | .close               => s.close

def State.Alive (s : State) (tx : Nat) : Prop :=
  ∃ c, s.channels[tx]? = some c ∧ c.alive = true

-- The id is registered for a flow that still has its receiver.
def State.Live (s : State) (id : UInt16) (tx : Nat) : Prop :=
  s.flows.get id = some tx ∧ s.Alive tx

-- The sender that the loop has cloned, with the id it is registered for.
def Loop.sender : Loop → Option (UInt16 × Nat)
  | .sending id tx _ | .failed id tx => some (id, tx)
  | _                                => none

def Loop.serving (l : Loop) : Option UInt16 :=
  l.sender.map (·.1)

end JammVpn.TuicUdp
