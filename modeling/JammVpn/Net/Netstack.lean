import JammVpn.Lib.Ip
import JammVpn.Lib.Machine
import JammVpn.Lib.Maps
import JammVpn.Lib.Slots

namespace JammVpn.Netstack

open Ip

structure IpEndpoint where
  addr : IpAddr
  port : Nat
  deriving DecidableEq

def epToSockaddr (ep : IpEndpoint) : SocketAddr :=
  .new ep.addr ep.port

structure Datagram where
  src     : IpEndpoint
  dst     : IpEndpoint
  payload : List UInt8
  deriving DecidableEq

-- The source and the destination of a flow.
abbrev Key := SocketAddr × SocketAddr

def Datagram.key (d : Datagram) : Key :=
  (epToSockaddr d.src, epToSockaddr d.dst)

-- An IP packet by what `parse_flow` finds in it; `syn` tells a SYN without ACK.
inductive Packet
  | udp (d : Datagram)
  | tcp (src dst : IpEndpoint) (syn : Bool)
  | other
  deriving DecidableEq

-- The state of a TCP socket is not part of the model. What a UDP socket has to send is marked with the
-- flow whose session has replied.
inductive Socket
  | tcp
  | udp (endpoint : IpEndpoint) (rx : List Datagram) (tx : List (Key × IpEndpoint × List UInt8))

namespace Socket

-- The sender of a datagram is not asked for.
def accepts (d : Datagram) : Socket → Bool
  | .tcp              => false
  | .udp endpoint _ _ => endpoint = d.dst

def process (d : Datagram) : Socket → Socket
  | .tcp                => .tcp
  | .udp endpoint rx tx => .udp endpoint (rx ++ [d]) tx

def recvSlice : Socket → Socket
  | .tcp                => .tcp
  | .udp endpoint rx tx => .udp endpoint rx.tail tx

def sendSlice (key : Key) (client : IpEndpoint) (data : List UInt8) : Socket → Socket
  | .tcp                => .tcp
  | .udp endpoint rx tx => .udp endpoint rx (tx ++ [(key, client, data)])

def dispatched : Socket → List (Key × Datagram)
  | .tcp              => []
  | .udp endpoint _ tx => tx.map fun (key, client, data) => (key, ⟨endpoint, client, data⟩)

def flush : Socket → Socket
  | .tcp               => .tcp
  | .udp endpoint rx _ => .udp endpoint rx []

def waiting : Socket → List Datagram
  | .tcp        => []
  | .udp _ rx _ => rx

end Socket

-- The task that relays a flow: `session` tells that it has connected, `egress` and `ingress` that its
-- loops are running.
structure Relay where
  handle  : Nat
  client  : IpEndpoint
  session : Bool := false
  egress  : Bool := true
  ingress : Bool := true

-- For as long as a flow is in its table, its task runs. `handed` has what the sessions have been given,
-- `emitted` what has left the stack.
structure State where
  rx        : List Packet := []
  sockets   : Slots Socket := {}
  tcpSeen   : PartialMap Key Nat := .empty
  udpFlows  : PartialMap Key Relay := .empty
  abandoned : List Nat := []
  handed    : List (Key × Datagram) := []
  emitted   : List (Key × Datagram) := []

namespace State

variable (s : State)

def listenTcp (key : Key) : State :=
  { s with sockets := s.sockets.add .tcp, tcpSeen := s.tcpSeen.insert key s.sockets.free }

def bindUdp (d : Datagram) : State :=
  { s with
    sockets := s.sockets.add (.udp d.dst [] [])
    udpFlows := s.udpFlows.insert d.key { handle := s.sockets.free, client := d.src } }

-- Neither socket can be bound to port 0.
def demux : Packet → State
  | .udp d           => if s.udpFlows.get d.key = none ∧ d.dst.port ≠ 0 then s.bindUdp d else s
  | .tcp src dst syn =>
    let key := (epToSockaddr src, epToSockaddr dst)
    if syn ∧ s.tcpSeen.get key = none ∧ dst.port ≠ 0 then s.listenTcp key else s
  | .other           => s

def demuxAndEnqueue (p : Packet) : State :=
  let s := s.demux p
  { s with rx := s.rx ++ [p] }

def setRelay (key : Key) (r : Relay) : State :=
  { s with udpFlows := s.udpFlows.insert key r }

-- The end of `relay_udp`.
def finish (key : Key) (r : Relay) : State :=
  { s with udpFlows := s.udpFlows.erase key, sockets := s.sockets.remove r.handle }

-- The end of `relay_tcp`.
def finishTcp (key : Key) (handle : Nat) (closed : Bool) : State :=
  let s := { s with tcpSeen := s.tcpSeen.erase key }
  if closed then { s with sockets := s.sockets.remove handle }
  else { s with abandoned := s.abandoned ++ [handle] }

end State

-- A datagram goes to the first socket that accepts it, if there is room for it.
def deliver (sockets : Slots Socket) (takes : Bool) : Packet → Slots Socket
  | .udp d =>
    match sockets.first (Socket.accepts d) with
    | some handle => if takes then sockets.update handle (Socket.process d) else sockets
    | none        => sockets
  | _      => sockets

def socketIngress (takes : Nat → Bool) (rx : List Packet) (sockets : Slots Socket) : Slots Socket :=
  rx.zipIdx.foldl (fun sockets (p, i) => deliver sockets (takes i) p) sockets

-- One round of the driver. Whether the stack takes a datagram, `takes`, and which TCP sockets are
-- closed is up to smoltcp, and so is the order in which different sockets send.
def poll (s : State) (takes : Nat → Bool) (closed : Nat → Bool) : State :=
  let sockets := socketIngress takes s.rx s.sockets
  { s with
    rx := []
    emitted := sockets.values.flatMap Socket.dispatched ++ s.emitted
    sockets := (s.abandoned.filter closed).foldl Slots.remove (sockets.mapAll Socket.flush)
    abandoned := s.abandoned.filter (!closed ·) }

-- `opened` tells whether a flow has been given a session. `recv` and `reply` are rounds of the two
-- loops of its task; `ok` tells whether the session takes the datagram, and whether the socket takes
-- the reply.
inductive Event
  | inject (p : Packet)
  | poll (takes closed : Nat → Bool)
  | opened (key : Key) (ok : Bool)
  | recv (key : Key) (ok : Bool)
  | reply (key : Key) (data : List UInt8) (ok : Bool)
  | egressEnds (key : Key)
  | ingressEnds (key : Key)
  | finished (key : Key)
  | tcpFinished (key : Key) (closed : Bool)

-- The flow of a key once it has a session.
def State.relaying (s : State) (key : Key) : Option Relay :=
  (s.udpFlows.get key).filter (·.session)

def step (s : State) : Event → Option State
  | .inject p               => some (s.demuxAndEnqueue p)
  | .poll takes closed      => some (poll s takes closed)
  | .opened key ok          =>
    match s.udpFlows.get key with
    | some r =>
      if r.session then none
      else if ok then some (s.setRelay key { r with session := true }) else some (s.finish key r)
    | none => none
  | .recv key ok            =>
    match s.relaying key with
    | some r =>
      match r.egress, (s.sockets.get r.handle).map Socket.waiting with
      | true, some (d :: _) =>
        let s := s.setRelay key { r with egress := ok }
        some { s with
          sockets := s.sockets.update r.handle Socket.recvSlice
          handed := (key, d) :: s.handed }
      | _, _                => none
    | none => none
  | .reply key data ok      =>
    match s.relaying key with
    | some r =>
      if r.ingress then
        if ok then
          some { s with sockets := s.sockets.update r.handle (Socket.sendSlice key r.client data) }
        else some s
      else none
    | none => none
  | .egressEnds key         => (s.relaying key).map fun r => s.setRelay key { r with egress := false }
  | .ingressEnds key        => (s.relaying key).map fun r => s.setRelay key { r with ingress := false }
  | .finished key           => (s.relaying key).map (s.finish key)
  | .tcpFinished key closed => (s.tcpSeen.get key).map (s.finishTcp key · closed)

end JammVpn.Netstack
