import JammVpn.Lib.Incremental
import JammVpn.Net.Udp

namespace JammVpn.Trojan

open Bytes Incremental

def crlf : List UInt8 := [13, 10]

-- As in SOCKS5.
def encodeAddress : Target → List UInt8 :=
  Udp.encodeAddress

def encodeUdpPacket (target : Target) (payload : List UInt8) : List UInt8 :=
  encodeAddress target ++ toBe 2 payload.length ++ crlf ++ payload

def readAddress : Reader Target := do
  let atyp ← readU8
  if atyp = 0x01 then
    let o ← readExact 4
    let port ← readU16
    return .socket (.v4 (.ofNat 32 (ofBe o)) port)
  else if atyp = 0x04 then
    let o ← readExact 16
    let port ← readU16
    return .socket (.v6 (.ofNat 128 (ofBe o)) port 0 0)
  else if atyp = 0x03 then
    let len ← readU8
    let host ← readExact len.toNat
    let port ← readU16
    return .domain (.ofList (Utf8.decodeLossy host)) port
  else throw "trojan: неизвестный ATYP"

def readUdpPacket : Reader (Target × List UInt8) := do
  let target ← readAddress
  let len ← readU16
  let end_ ← readExact 2
  if end_ ≠ crlf then throw "trojan udp: нет CRLF после длины"
  else
    let payload ← readExact len
    return (target, payload)

-- A packet as a server can send it. Names need not be text.
inductive Address
  | v4 (a : BitVec 32)
  | v6 (a : BitVec 128)
  | name (bytes : List UInt8) (short : bytes.length < 256)

structure Packet where
  address : Address
  port    : Nat
  payload : List UInt8
  short   : payload.length < 65536

def Address.encode : Address → List UInt8
  | .v4 a         => 0x01 :: toBe 4 a.toNat
  | .v6 a         => 0x04 :: toBe 16 a.toNat
  | .name bytes _ => 0x03 :: .ofNat bytes.length :: bytes

def Packet.encode (p : Packet) : List UInt8 :=
  p.address.encode ++ toBe 2 p.port ++ toBe 2 p.payload.length ++ crlf ++ p.payload

def Address.target (port : Nat) : Address → Target
  | .v4 a         => .socket (.v4 a port)
  | .v6 a         => .socket (.v6 a port 0 0)
  | .name bytes _ => .domain (.ofList (Utf8.decodeLossy bytes)) port

section

theorem lawful_readAddress : Lawful readAddress := by
  refine lawful_readU8.bind fun atyp => ?_
  split
  case isTrue =>
    exact (lawful_readExact 4).bind fun _ => lawful_readU16.bind fun _ => lawful_pure _
  case isFalse =>
    split
    case isTrue =>
      exact (lawful_readExact 16).bind fun _ => lawful_readU16.bind fun _ => lawful_pure _
    case isFalse =>
      split
      case isFalse => exact lawful_throw _
      case isTrue =>
        refine lawful_readU8.bind fun len => (lawful_readExact len.toNat).bind fun _ => ?_
        exact lawful_readU16.bind fun _ => lawful_pure _

theorem lawful_readUdpPacket : Lawful readUdpPacket := by
  refine lawful_readAddress.bind fun _ => lawful_readU16.bind fun len => (lawful_readExact 2).bind ?_
  intro end_
  split
  case isTrue  => exact lawful_throw _
  case isFalse => exact (lawful_readExact len).bind fun _ => lawful_pure _

theorem readAddress_encode (a : Address) (port : Nat) (rest : List UInt8) :
    readAddress (a.encode ++ (toBe 2 port ++ rest)) = .done (a.target (port % 65536)) rest := by
  cases a <;> simp only [Address.encode, List.cons_append, readAddress]
  case v4 a =>
    rw [bind_of_done (r := readU8) rfl, if_pos rfl,
      bind_of_done (readExact_of_length (length_toBe 4 _) _), bind_of_done (readU16_toBe port rest),
      ofBe_toBe_bitVec 4 a rfl]
    rfl
  case v6 a =>
    rw [bind_of_done (r := readU8) rfl, if_neg (by decide), if_pos rfl,
      bind_of_done (readExact_of_length (length_toBe 16 _) _), bind_of_done (readU16_toBe port rest),
      ofBe_toBe_bitVec 16 a rfl]
    rfl
  case name bytes short =>
    have hl : bytes.length = (UInt8.ofNat bytes.length).toNat := by
      rw [UInt8.toNat_ofNat', Nat.mod_eq_of_lt short]
    rw [bind_of_done (r := readU8) rfl, if_neg (by decide), if_neg (by decide), if_pos rfl,
      bind_of_done (r := readU8) rfl, bind_of_done (readExact_of_length hl _),
      bind_of_done (readU16_toBe port rest)]
    rfl

theorem readUdpPacket_encode (p : Packet) :
    readUdpPacket p.encode = .done (p.address.target (p.port % 65536), p.payload) [] := by
  have hl : p.payload.length = p.payload.length % 65536 := (Nat.mod_eq_of_lt p.short).symm
  have he : p.encode = p.address.encode ++ (toBe 2 p.port ++ (toBe 2 p.payload.length ++ (crlf ++
      (p.payload ++ [])))) := by simp [Packet.encode]
  rw [he, readUdpPacket, bind_of_done (readAddress_encode _ _ _), bind_of_done (readU16_toBe _ _),
    bind_of_done (readExact_of_length (show crlf.length = 2 from rfl) _), if_neg (by simp),
    bind_of_done (readExact_of_length hl [])]
  rfl

end
end JammVpn.Trojan
