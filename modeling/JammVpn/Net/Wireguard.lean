import Mathlib.Algebra.Group.Nat.Defs
import JammVpn.Lib.Machine
import JammVpn.Lib.Slots

-- The sockets of a WireGuard tunnel.
namespace JammVpn.Wireguard

inductive TcpState
  | closed
  | listen
  | synSent
  | synReceived
  | established
  | finWait1
  | finWait2
  | closeWait
  | closing
  | lastAck
  | timeWait
  deriving DecidableEq

-- `close` of a TCP socket of smoltcp.
def TcpState.close : TcpState → TcpState
  | listen | synSent          => closed
  | synReceived | established => finWait1
  | closeWait                 => lastAck
  | s                         => s

-- A socket has the number of the allocation that its port comes from; a UDP socket has no state.
structure Socket where
  tcp       : Option TcpState
  localPort : Nat
  serial    : Nat
  deriving DecidableEq

namespace Socket

def isTcp (a : Socket) : Bool :=
  a.tcp.isSome

-- A TCP socket that is closed is not bound.
def bound (a : Socket) : Bool :=
  a.tcp != some .closed

def close (a : Socket) : Socket :=
  { a with tcp := a.tcp.map TcpState.close }

-- What becomes of the state of a TCP socket is up to smoltcp and to the other end, but a closed socket
-- stays closed.
def poll (next : TcpState) (a : Socket) : Socket :=
  { a with tcp := a.tcp.map fun state => if state = .closed then .closed else next }

end Socket

def portBase : Nat :=
  49152

def portSpan : Nat :=
  65535 - portBase + 1

-- The counter `next_port` is `allocs` in 32 bits. Handles of sockets belong to calls of `connect` that
-- wait for their connection, to streams and to UDP sessions.
structure WgTunnel where
  sockets    : Slots Socket := {}
  abandoned  : List Nat := []
  allocs     : Nat := 0
  connecting : List Nat := []
  streams    : List Nat := []
  sessions   : List Nat := []

namespace WgTunnel

variable (t : WgTunnel)

def nextPort : Nat :=
  t.allocs % 2 ^ 32

-- `alloc_port` takes this port and counts on.
def port : Nat :=
  portBase + t.nextPort % portSpan

def addSocket (tcp : Option TcpState) : WgTunnel :=
  { t with
    sockets := t.sockets.add { tcp, localPort := t.port, serial := t.allocs }
    allocs := t.allocs + 1 }

def removeSocket (handle : Nat) : WgTunnel :=
  { t with sockets := t.sockets.remove handle }

def abandonSocket (handle : Nat) : WgTunnel :=
  { t with
    sockets := t.sockets.update handle Socket.close
    abandoned := t.abandoned ++ [handle] }

def isClosed (handle : Nat) : Bool :=
  (t.sockets.get handle).any (·.tcp == some .closed)

-- One round of the driver: smoltcp polls the sockets, and abandoned ones go when they are closed.
def drive (next : Nat → TcpState) : WgTunnel :=
  let t := { t with sockets := t.sockets.mapIdx fun i => Socket.poll (next i) }
  { t with
    sockets := (t.abandoned.filter t.isClosed).foldl Slots.remove t.sockets
    abandoned := t.abandoned.filter (!t.isClosed ·) }

end WgTunnel

-- `accepted` tells whether smoltcp takes the address of the target; if not, the port is lost. `connect`
-- ends with a stream once its socket is established, or with an error, or its caller drops it.
inductive Event
  | connect (accepted : Bool)
  | connected (handle : Nat)
  | connectFailed (handle : Nat)
  | connectDropped (handle : Nat)
  | shutdown (handle : Nat)
  | dropStream (handle : Nat)
  | connectUdp
  | dropUdp (handle : Nat)
  | drive (next : Nat → TcpState)

def step (t : WgTunnel) : Event → Option WgTunnel
  | .connect accepted      =>
    if accepted then
      some { t.addSocket (some .synSent) with connecting := t.sockets.free :: t.connecting }
    else some { t with allocs := t.allocs + 1 }
  | .connected handle      =>
    if handle ∈ t.connecting ∧ (t.sockets.get handle).any (·.tcp == some .established) then
      some { t with connecting := t.connecting.erase handle, streams := handle :: t.streams }
    else none
  | .connectFailed handle  =>
    if handle ∈ t.connecting then
      some { t.removeSocket handle with connecting := t.connecting.erase handle }
    else none
  | .connectDropped handle =>
    if handle ∈ t.connecting then some { t with connecting := t.connecting.erase handle } else none
  | .shutdown handle       =>
    if handle ∈ t.streams then some { t with sockets := t.sockets.update handle Socket.close } else none
  | .dropStream handle     =>
    if handle ∈ t.streams then some { t.abandonSocket handle with streams := t.streams.erase handle }
    else none
  | .connectUdp            =>
    some { t.addSocket none with sessions := t.sockets.free :: t.sessions }
  | .dropUdp handle        =>
    if handle ∈ t.sessions then
      some { t.removeSocket handle with sessions := t.sessions.erase handle }
    else none
  | .drive next            => some (t.drive next)

end JammVpn.Wireguard
