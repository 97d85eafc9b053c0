import JammVpn.Net.Netstack

-- The tasks that relay the UDP flows of the stack, with their timers. Times are in milliseconds.
namespace JammVpn.UdpRelay

open Netstack

def udpIdle : Nat :=
  60000

abbrev Payload := List UInt8

-- One of the two loops of a task: not polled yet, in its `select!` since a time (the signal of `cancel`
-- has come or not), at work on a datagram, or ended. At work it has no future for the signal.
inductive Loop
  | fresh
  | select (since : Nat) (cancelled : Bool)
  | busy (data : Payload)
  | ended
  deriving DecidableEq

-- `cancel.notify_waiters` reaches a loop that is in its `select!`.
def Loop.cancel : Loop → Loop
  | select since _ => select since true
  | l              => l

inductive Phase
  | connecting
  | relaying
  | closing
  deriving DecidableEq

-- `rx` has what the socket of the flow, which is bound to `dst`, has accepted, and `inbox` what the session
-- has for the client: replies, or its error. `forwarded` and `sent` have gone to the session and to the
-- client.
structure Flow where
  client    : IpEndpoint
  dst       : IpEndpoint
  phase     : Phase := .connecting
  egress    : Loop := .fresh
  ingress   : Loop := .fresh
  rx        : List Payload := []
  inbox     : List (Option Payload) := []
  forwarded : List Payload := []
  sent      : List (Payload × IpEndpoint) := []
  up        : Nat := 0
  down      : Nat := 0
  deriving DecidableEq

-- `received` and `sent` are rounds of the egress, `replied` and `delivered` of the ingress. What `udp_recv`
-- reads always fits into its buffer. `udp_send` waits for room, and drops what cannot be addressed.
inductive Action
  | answered (r : Option Payload)
  | opened (ok : Bool)
  | egressStarts
  | received
  | sent (ok : Bool)
  | egressIdle
  | egressCancelled
  | ingressStarts
  | replied
  | delivered (ok : Bool)
  | ingressIdle
  | ingressCancelled
  | killed
  | joined
  deriving DecidableEq

namespace Flow

variable (f : Flow) (now : Nat)

def relayed (g : Option Flow) : Option Flow :=
  if f.phase = .relaying then g else none

def expired (since : Nat) : Prop :=
  since + udpIdle ≤ now

instance (since : Nat) : Decidable (expired now since) :=
  inferInstanceAs (Decidable (_ ≤ _))

-- A `select!` polls its branches in any order, and a timeout polls what it limits first.
def act : Action → Option Flow
  | .answered r        => f.relayed (some { f with inbox := f.inbox ++ [r] })
  | .opened ok         =>
    if f.phase = .connecting then
      if ok then some { f with phase := .relaying, egress := .fresh, ingress := .fresh }
      else some { f with phase := .closing }
    else none
  | .egressStarts      =>
    f.relayed (if f.egress = .fresh then some { f with egress := .select now false } else none)
  | .received          =>
    f.relayed <| match f.egress, f.rx with
      | .select _ _, data :: rx => some { f with egress := .busy data, rx, up := f.up + data.length }
      | _, _                    => none
  | .sent ok           =>
    f.relayed <| match f.egress with
      | .busy data =>
        if ok then some { f with egress := .select now false, forwarded := f.forwarded ++ [data] }
        else some { f with egress := .ended, ingress := f.ingress.cancel }
      | _          => none
  | .egressIdle        =>
    f.relayed <| match f.egress, f.rx with
      | .select since _, [] => if expired now since then some { f with egress := .ended } else none
      | _, _                => none
  | .egressCancelled   =>
    f.relayed <| match f.egress with
      | .select _ true => some { f with egress := .ended }
      | _              => none
  | .ingressStarts     =>
    f.relayed (if f.ingress = .fresh then some { f with ingress := .select now false } else none)
  | .replied           =>
    f.relayed <| match f.ingress, f.inbox with
      | .select _ _, some data :: inbox =>
        some { f with ingress := .busy data, inbox, down := f.down + data.length }
      | .select _ _, none :: inbox      =>
        some { f with ingress := .ended, inbox, egress := f.egress.cancel }
      | _, _                            => none
  | .delivered ok      =>
    f.relayed <| match f.ingress with
      | .busy data =>
        some { f with
          ingress := .select now false
          sent := if ok then f.sent ++ [(data, f.client)] else f.sent }
      | _          => none
  | .ingressIdle       =>
    f.relayed <| match f.ingress, f.inbox with
      | .select since _, [] => if expired now since then some { f with ingress := .ended } else none
      | _, _                => none
  | .ingressCancelled  =>
    f.relayed <| match f.ingress with
      | .select _ true => some { f with ingress := .ended }
      | _              => none
  | .killed            => f.relayed (some { f with phase := .closing })
  | .joined            =>
    f.relayed (if f.egress = .ended ∧ f.ingress = .ended then some { f with phase := .closing } else none)

end Flow

-- `rx` has the datagrams that the driver has not yet handed to a socket.
structure State where
  now   : Nat := 0
  rx    : List Datagram := []
  flows : PartialMap Key Flow := .empty

-- `taker` is the flow whose socket accepts the next datagram, if one does.
inductive Event
  | tick (ms : Nat)
  | inject (d : Datagram)
  | ingress (taker : Option Key)
  | act (key : Key) (a : Action)
  | teardown (key : Key)

namespace State

variable (s : State)

def set (key : Key) (f : Flow) : State :=
  { s with flows := s.flows.insert key f }

-- A socket cannot be bound to port 0.
def demuxAndEnqueue (d : Datagram) : State :=
  let s :=
    if s.flows.get d.key = none ∧ d.dst.port ≠ 0 then s.set d.key { client := d.src, dst := d.dst } else s
  { s with rx := s.rx ++ [d] }

-- Sockets do not look at the sender of a datagram.
def socketIngress : Option Key → Option State
  | none     => if s.rx = [] then none else some { s with rx := s.rx.tail }
  | some key =>
    match s.rx, s.flows.get key with
    | d :: rx, some f =>
      if d.dst = f.dst then some ({ s with rx }.set key { f with rx := f.rx ++ [d.payload] }) else none
    | _, _            => none

end State

def step (s : State) : Event → Option State
  | .tick ms       => some { s with now := s.now + ms }
  | .inject d      => some (s.demuxAndEnqueue d)
  | .ingress taker => s.socketIngress taker
  | .act key a     => ((s.flows.get key).bind (·.act s.now a)).map (s.set key)
  | .teardown key  =>
    if (s.flows.get key).any (·.phase = .closing) then some { s with flows := s.flows.erase key } else none

end JammVpn.UdpRelay
