import JammVpn.Lib.Bytes
import JammVpn.Lib.Utf8
import JammVpn.Net.Outbound
import JammVpn.Net.Reassembly

namespace JammVpn.Tuic

open Bytes Ip

def version : UInt8 := 0x05
def cmdPacket : UInt8 := 0x02

def atypDomain : UInt8 := 0x00
def atypIpv4 : UInt8 := 0x01
def atypIpv6 : UInt8 := 0x02
def atypNone : UInt8 := 0xff

-- The head of a packet without its payload. The decoder rejects all other numbers of fragments.
structure PacketHead where
  assocId   : UInt16
  pktId     : UInt16
  fragTotal : UInt8
  fragId    : UInt8
  addr      : Option Target
  valid     : fragId < fragTotal
  deriving DecidableEq

def addressLen : Target → Except String Nat
  | .domain host _        =>
    if 255 < (Utf8.encode host.toList).length then .error "tuic: домен длиннее 255 байт"
    else .ok (1 + 1 + (Utf8.encode host.toList).length + 2)
  | .socket (.v4 _ _)     => .ok (1 + 4 + 2)
  | .socket (.v6 _ _ _ _) => .ok (1 + 16 + 2)

def encodeAddress : Target → Except String (List UInt8)
  | .domain host port        =>
    let host := Utf8.encode host.toList
    if 255 < host.length then .error "tuic: домен длиннее 255 байт"
    else .ok (atypDomain :: .ofNat host.length :: (host ++ toBe 2 port))
  | .socket (.v4 a port)     => .ok (atypIpv4 :: (toBe 4 a.toNat ++ toBe 2 port))
  | .socket (.v6 a port _ _) => .ok (atypIpv6 :: (toBe 16 a.toNat ++ toBe 2 port))

def encodePacketOne (assocId pktId : UInt16) (fragTotal fragId : UInt8) (addr : Option Target)
    (payload : List UInt8) : Except String (List UInt8) := do
  let addr ← match addr with
    | some t => encodeAddress t
    | none   => .ok [atypNone]
  return [version, cmdPacket] ++ toBe 2 assocId.toNat ++ toBe 2 pktId.toNat ++ [fragTotal, fragId] ++
    toBe 2 payload.length ++ addr ++ payload

-- Only the first fragment has the address.
def encodeChunk (assocId pktId : UInt16) (target : Target) (fragTotal : Nat) (chunk : List UInt8 × Nat) :
    Except String (List UInt8) :=
  let addr := if chunk.2 = 0 then some target else none
  encodePacketOne assocId pktId (.ofNat fragTotal) (.ofNat chunk.2) addr chunk.1

def encodePackets (assocId pktId : UInt16) (target : Target) (payload : List UInt8)
    (maxDatagram : Nat) : Except String (List (List UInt8)) := do
  let header := 10 + (← addressLen target)
  let cap := maxDatagram - header
  if cap = 0 then .error "tuic: датаграмма мала для заголовка"
  else if payload.isEmpty then return [← encodePacketOne assocId pktId 1 0 (some target) []]
  else
    let fragTotal := divCeil payload.length cap
    if 255 < fragTotal then .error "tuic: слишком много фрагментов"
    else (chunks cap payload).zipIdx.mapM (encodeChunk assocId pktId target fragTotal)

-- The packets of all associations have one counter. The connection may not support datagrams at all.
def send (nextPkt assocId : UInt16) (target : Target) (payload : List UInt8) (maxDatagram : Option Nat) :
    Except String (List (List UInt8)) × UInt16 :=
  match maxDatagram with
  | none     => (.error "tuic: сервер не поддерживает QUIC-датаграммы", nextPkt)
  | some max => (encodePackets assocId nextPkt target payload max, nextPkt + 1)

-- The next bytes of an address, and what follows them.
def need (n : Nat) (buf : List UInt8) : Except String (List UInt8 × List UInt8) :=
  if n ≤ buf.length then .ok (buf.splitAt n) else .error "tuic: адрес за границей"

def parseDomain (buf : List UInt8) : Except String (Option Target × List UInt8) := do
  let (len, buf) ← need 1 buf
  let len := ofBe len
  let (bs, buf) ← need (len + 2) buf
  return (some (.domain (.ofList (Utf8.decodeLossy (bs.take len))) (ofBe (bs.drop len))), buf)

-- Also returns what follows the address.
def parseAddressSync (buf : List UInt8) : Except String (Option Target × List UInt8) := do
  let (atyp, buf) ← need 1 buf
  let atyp := ofBe atyp
  if atyp = atypNone.toNat then return (none, buf)
  else if atyp = atypIpv4.toNat then do
    let (bs, buf) ← need 6 buf
    return (some (.socket (.new (.v4 (.ofNat 32 (ofBe (bs.take 4)))) (ofBe (bs.drop 4)))), buf)
  else if atyp = atypIpv6.toNat then do
    let (bs, buf) ← need 18 buf
    return (some (.socket (.new (.v6 (.ofNat 128 (ofBe (bs.take 16)))) (ofBe (bs.drop 16)))), buf)
  else if atyp = atypDomain.toNat then parseDomain buf
  else .error ("tuic: неизвестный ATYP 0x" ++ String.ofList (Text.hex atyp))

-- The head and the payload of a fragment.
def decodePacket : List UInt8 → Except String (PacketHead × List UInt8)
  | ver :: cmd :: a₀ :: a₁ :: p₀ :: p₁ :: fragTotal :: fragId :: s₀ :: s₁ :: buf =>
    if ver ≠ version ∨ cmd ≠ cmdPacket then .error "tuic: не Packet"
    else if h : fragId < fragTotal then do
      let size := ofBe [s₀, s₁]
      let (addr, buf) ← parseAddressSync buf
      if size ≤ buf.length then
        let head := {
          assocId := .ofNat (ofBe [a₀, a₁])
          pktId := .ofNat (ofBe [p₀, p₁])
          fragTotal, fragId, addr
          valid := h
        }
        return (head, buf.take size)
      else .error "tuic: payload за границей"
    else .error "tuic: некорректные frag_total/frag_id"
  | _ => .error "tuic: короткий Packet"

def PacketHead.fragment (head : PacketHead) (frag : List UInt8) : Reassembly.Fragment (UInt16 × UInt16) where
  key := (head.assocId, head.pktId)
  total := head.fragTotal.toNat
  id := head.fragId.toNat
  data := frag
  valid := UInt8.lt_iff_toNat_lt.mp head.valid

abbrev Pending := Reassembly.Pending (UInt16 × UInt16)

def reassemble (now tie : Nat) (m : Pending) (head : PacketHead) (frag : List UInt8) :
    Option (List UInt8) × Pending :=
  Reassembly.reassemble now tie (head.fragment frag) m

-- What a datagram gives the loop that receives them: a payload for one of the associations.
def receive (now tie : Nat) (dg : List UInt8) (m : Pending) : Option (UInt16 × List UInt8) × Pending :=
  match decodePacket dg with
  | .error _         => (none, m)
  | .ok (head, frag) =>
    if head.fragTotal ≤ 1 then (some (head.assocId, frag), m)
    else
      let (full, m) := reassemble now tie m head frag
      (full.map (head.assocId, ·), m)

end JammVpn.Tuic
