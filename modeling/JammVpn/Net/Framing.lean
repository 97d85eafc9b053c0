import JammVpn.Lib.Incremental
import JammVpn.Lib.Machine
import JammVpn.Net.Trojan
import JammVpn.Net.Udp

namespace JammVpn.Framing

open Bytes Incremental Udp

-- How UDP packets are put onto a stream by a server, and read from it by `UdpSession::recv`.
structure Protocol where
  Packet  : Type
  encode  : Packet → List UInt8
  payload : Packet → List UInt8
  recv    : Reader (List UInt8)
  waits   : recv [] = .more
  lawful  : Lawful recv
  reads   : ∀ p, recv (encode p) = .done (payload p) []

def trojanRecv : Reader (List UInt8) := do
  let (_, payload) ← Trojan.readUdpPacket
  return payload

def vlessRecv : Reader (List UInt8) := do
  let len ← readExact 2
  readExact (ofBe len)

abbrev VlessPacket := { payload : List UInt8 // payload.length < 65536 }

def VlessPacket.encode (p : VlessPacket) : List UInt8 :=
  toBe 2 p.val.length ++ p.val

theorem vlessRecv_encode (p : VlessPacket) : vlessRecv p.encode = .done p.val [] := by
  have hl : p.val.length = ofBe (toBe 2 p.val.length) := (ofBe_toBe_of_lt p.property).symm
  have he : p.encode = toBe 2 p.val.length ++ (p.val ++ []) := by simp [VlessPacket.encode]
  rw [he, vlessRecv, bind_of_done (readExact_of_length (length_toBe 2 _) _),
    readExact_of_length hl []]

def trojan : Protocol where
  Packet  := Trojan.Packet
  encode  := Trojan.Packet.encode
  payload := Trojan.Packet.payload
  recv    := trojanRecv
  waits   := rfl
  lawful  := Trojan.lawful_readUdpPacket.bind fun _ => lawful_pure _
  reads p := bind_of_done (Trojan.readUdpPacket_encode p)

def vless : Protocol where
  Packet  := VlessPacket
  encode  := VlessPacket.encode
  payload := Subtype.val
  recv    := vlessRecv
  waits   := rfl
  lawful  := (lawful_readExact 2).bind fun _ => lawful_readExact _
  reads   := vlessRecv_encode

-- The sessions of `UdpSession` whose packets share a stream.
inductive Session
  | trojan
  | vless

def Session.protocol : Session → Protocol
  | .trojan => Framing.trojan
  | .vless  => Framing.vless

-- The task of a flow and the stream of its session: `wire` has not arrived yet, `stream` has not been
-- read, and `progress` has been read by the call of `recv` that is pending. `tx` tells that the
-- association still has the sender of the queue.
structure State where
  wire      : List UInt8
  stream    : List UInt8 := []
  progress  : List UInt8 := []
  eof       : Bool := false
  queue     : List (List UInt8) := []
  tx        : Bool := true
  ended     : Bool := false
  delivered : List (List UInt8) := []

-- A poll of `select!` begins with either branch; `ok` tells whether what the branch sends can be sent.
inductive Event
  | arrive (n : Nat)
  | closed
  | datagram (payload : List UInt8)
  | hangup
  | poll (rxFirst ok : Bool)

namespace State

variable (pr : Protocol) (replyDst : Target) (s : State)

-- A sender that finds the queue full is dropped.
def trySend (payload : List UInt8) : State :=
  if s.queue.length < flowQueue then { s with queue := s.queue ++ [payload] }
  else { s with tx := false }

-- The branch of the client. When it is taken, the other one is dropped with all that it has read.
def pollRx (ok : Bool) : Option State :=
  match s.queue with
  | _ :: queue => some { s with queue, progress := [], ended := !ok }
  | []         => if s.tx then none else some { s with ended := true }

-- The branch of the session.
def pollRecv (ok : Bool) : Option State :=
  match pr.recv (s.progress ++ s.stream) with
  | .done payload rest =>
    let s := { s with stream := rest, progress := [] }
    if ok then some { s with delivered := s.delivered ++ [encodeUdpDatagram replyDst payload] }
    else some { s with ended := true }
  | .fail _            => some { s with ended := true }
  | .more              => if s.eof then some { s with ended := true } else none

-- `recv` has read what there is and waits.
def pending : State :=
  { s with progress := s.progress ++ s.stream, stream := [] }

def select (rxFirst ok : Bool) : State :=
  if rxFirst then (s.pollRx ok <|> s.pollRecv pr replyDst ok).getD s.pending
  else (s.pollRecv pr replyDst ok <|> s.pending.pollRx ok).getD s.pending

end State

def step (pr : Protocol) (replyDst : Target) (s : State) (e : Event) : Option State :=
  if s.ended then none
  else
    match e with
    | .arrive n         =>
      if s.eof then none
      else some { s with stream := s.stream ++ s.wire.take n, wire := s.wire.drop n }
    | .closed           => some { s with eof := true }
    | .datagram payload => if s.tx then some (s.trySend payload) else none
    | .hangup           => some { s with tx := false }
    | .poll rxFirst ok  => some (s.select pr replyDst rxFirst ok)

-- The datagram for which the flow is opened is put into the queue after the task has been spawned.
def spawnFlow (pr : Protocol) (pkts : List pr.Packet) : State where
  wire := pkts.flatMap pr.encode

end JammVpn.Framing
