import JammVpn.Lib.Bytes
import JammVpn.Lib.Incremental
import JammVpn.Lib.Utf8
import JammVpn.Net.Outbound
import JammVpn.Net.Reassembly

namespace JammVpn.Hysteria2

open Bytes

-- The two highest bits of a number tell its width, so that there is room for 62 bits.
def putVarint (v : Nat) : List UInt8 :=
  if v < 2 ^ 6 then [.ofNat v]
  else if v < 2 ^ 14 then toBe 2 (v ||| 0x4000)
  else if v < 2 ^ 30 then toBe 4 (v ||| 0x80000000)
  else toBe 8 (v ||| 0xC000000000000000)

-- How many bytes follow the first one.
def extraOf (first : UInt8) : Nat :=
  match first.toNat / 64 with
  | 0 => 0
  | 1 => 1
  | 2 => 3
  | _ => 7

-- The value, and how many bytes it took.
def readVarintBuf : List UInt8 → Option (Nat × Nat)
  | []          => none
  | first :: bs =>
    let extra := extraOf first
    if bs.length < extra then none
    else some ((bs.take extra).foldl (fun v b => v * 256 + b.toNat) (first.toNat % 64), 1 + extra)

-- The same with the words of the source.
def putVarintWords (v : UInt64) : List UInt8 :=
  if v < (1 : UInt64) <<< 6 then [v.toUInt8]
  else if v < (1 : UInt64) <<< 14 then toBe 2 (v.toUInt16 ||| 0x4000).toNat
  else if v < (1 : UInt64) <<< 30 then toBe 4 (v.toUInt32 ||| 0x80000000).toNat
  else toBe 8 (v ||| 0xC000000000000000).toNat

def extraWords (first : UInt8) : Nat :=
  match (first >>> 6).toNat with
  | 0 => 0
  | 1 => 1
  | 2 => 3
  | _ => 7

def shiftIn (val : UInt64) (b : UInt8) : UInt64 :=
  val <<< 8 ||| b.toUInt64

def readVarintBufWords : List UInt8 → Option (UInt64 × Nat)
  | []                => none
  | buf@(first :: bs) =>
    let extra := extraWords first
    if buf.length < 1 + extra then none
    else some ((bs.take extra).foldl shiftIn (first &&& 0x3f).toUInt64, 1 + extra)

-- From a stream, byte by byte.
def readVarint : Incremental.Reader UInt64 := do
  let first ← Incremental.readU8
  more (extraWords first) (first &&& 0x3f).toUInt64
where
  more : Nat → UInt64 → Incremental.Reader UInt64
    | 0, val         => pure val
    | extra + 1, val => do
      let b ← Incremental.readU8
      more extra (shiftIn val b)

-- The decoder rejects all other numbers of fragments.
structure UdpHead where
  session   : UInt32
  pktId     : UInt16
  fragId    : UInt8
  fragTotal : UInt8
  valid     : fragId < fragTotal
  deriving DecidableEq

-- The address in front of a payload.
def addrOf (target : Target) : List UInt8 :=
  putVarint (Utf8.encode target.display).length ++ Utf8.encode target.display

def headerLen (target : Target) : Nat :=
  4 + 2 + 1 + 1 + (addrOf target).length

def encodeFragment (session : UInt32) (pktId : UInt16) (target : Target) (total i : Nat)
    (payload : List UInt8) : List UInt8 :=
  toBe 4 session.toNat ++ toBe 2 pktId.toNat ++ [.ofNat i, .ofNat total] ++ addrOf target ++ payload

-- All fragments have the address.
def encodeUdpPackets (session : UInt32) (pktId : UInt16) (target : Target) (payload : List UInt8)
    (maxDatagram : Nat) : Except String (List (List UInt8)) :=
  if maxDatagram ≤ headerLen target then .error "hysteria2: датаграмма мала для адреса"
  else
    let cap := maxDatagram - headerLen target
    let total := max (divCeil payload.length cap) 1
    if 255 < total then .error "hysteria2: UDP-пакет требует >255 фрагментов"
    else .ok <| (List.range total).map fun i =>
      encodeFragment session pktId target total i (piece cap payload i)

-- The head and the payload of a fragment. Nobody looks at the address.
def decodeUdpPacket : List UInt8 → Except String (UdpHead × List UInt8)
  | s₀ :: s₁ :: s₂ :: s₃ :: p₀ :: p₁ :: fragId :: fragTotal :: dg =>
    if h : fragId < fragTotal then
      match readVarintBuf dg with
      | none                     => .error "hysteria2: битый addr-len"
      | some (addrLen, consumed) =>
        if dg.length < consumed + addrLen then .error "hysteria2: addr выходит за датаграмму"
        else
          let head := {
            session := .ofNat (ofBe [s₀, s₁, s₂, s₃])
            pktId := .ofNat (ofBe [p₀, p₁])
            fragId, fragTotal
            valid := h
          }
          .ok (head, dg.drop (consumed + addrLen))
    else .error "hysteria2: некорректная фрагментация"
  | _ => .error "hysteria2: короткая UDP-датаграмма"

def UdpHead.fragment (head : UdpHead) (frag : List UInt8) : Reassembly.Fragment (UInt32 × UInt16) where
  key := (head.session, head.pktId)
  total := head.fragTotal.toNat
  id := head.fragId.toNat
  data := frag
  valid := UInt8.lt_iff_toNat_lt.mp head.valid

abbrev Pending := Reassembly.Pending (UInt32 × UInt16)

def reassemble (now tie : Nat) (m : Pending) (head : UdpHead) (frag : List UInt8) :
    Option (List UInt8) × Pending :=
  Reassembly.reassemble now tie (head.fragment frag) m

end JammVpn.Hysteria2
