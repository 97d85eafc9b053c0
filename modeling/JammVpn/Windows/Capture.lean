import JammVpn.Windows.Packet

namespace JammVpn.WinpkFilter

open Attribution Bytes Ip Windows

-- A tunnelled packet comes with the Ethernet header for the replies and with its local address.
inductive Verdict
  | tunnel (ip eth : List UInt8) (localIp : IpAddr)
  | toAdapter
  | toMstcp
  | drop
  deriving DecidableEq

def passthrough (outgoing : Bool) : Verdict :=
  if outgoing then .toAdapter else .toMstcp

-- The two hardware addresses change places.
def swappedEth (frame : List UInt8) : List UInt8 :=
  slice frame 6 6 ++ slice frame 0 6 ++ slice frame 12 2

def parseIp (ip : List UInt8) : Option (Flow × IpAddr) :=
  parseFlow ip

-- The stack behind the tunnel only has IPv4.
def toVerdict (frame : List UInt8) (isV6 : Bool) (srcIp : IpAddr) : Split.Action → Verdict × String
  | .tunnel =>
    if isV6 then (.toAdapter, "Direct(v6)")
    else (.tunnel (frame.drop ethHdr) (swappedEth frame) srcIp, "Tunnel")
  | .direct => (.toAdapter, "Direct")
  | .block  => (.drop, "Drop")

def classify (fileName : String → Option String) (host : Host) (frame : List UInt8) (outgoing : Bool)
    (config : SplitConfig) (resolver : ProcessResolver) : (Verdict × List Char) × ProcessResolver :=
  if frame.length < ethHdr then ((passthrough outgoing, []), resolver)
  else
    match parseIp (frame.drop ethHdr) with
    | none            => ((passthrough outgoing, []), resolver)
    | some (f, srcIp) =>
      if !outgoing then ((.toMstcp, []), resolver)
      else
        let (app, resolver) := resolver.resolve host fileName f.proto f.isV6 f.localPort
        let app := app.getD {}
        let (verdict, label) := toVerdict frame f.isV6 srcIp
          (Split.decide { app, dstIp := f.dstIp, dstPort := f.dstPort } config true)
        ((verdict, f.info app ++ " → ".toList ++ label.toList), resolver)

section Checksums

-- The sum of the words; a last odd byte is the upper half of a word.
def sum16 : List UInt8 → Nat → Nat
  | [], init            => init
  | [a], init           => init + a.toNat * 256
  | a :: b :: bs, init  => sum16 bs (init + (a.toNat * 256 + b.toNat))

def fold (sum : Nat) : Nat :=
  if sum / 65536 = 0 then 65535 - sum else fold (sum % 65536 + sum / 65536)
decreasing_by omega

-- `bs[start..start + 2].copy_from_slice(&value.to_be_bytes())`.
def putU16 (bs : List UInt8) (start value : Nat) : List UInt8 :=
  bs.take start ++ toBe 2 value ++ bs.drop (start + 2)

-- Where the checksum is in a segment.
def checksumOffset (proto : UInt8) : Option Nat :=
  if proto = 6 then some 16
  else if proto = 17 then some 6
  else none

def setL4Checksum (proto : UInt8) (l4 : List UInt8) (pseudo : Nat) : List UInt8 :=
  match checksumOffset proto with
  | none     => l4
  | some off =>
    if l4.length < off + 2 then l4
    else
      let cs := fold (sum16 (putU16 l4 off 0) pseudo)
      -- For UDP, zero means that there is no checksum.
      putU16 l4 off (if proto = 17 ∧ cs = 0 then 0xFFFF else cs)

def recalcV4 (ip : List UInt8) : List UInt8 :=
  let ihl := (ip.getD 0 0).toNat % 16 * 4
  let totalLen := ofBe (slice ip 2 2)
  if ip.length < 20 then ip
  else if ihl < 20 ∨ ip.length < ihl ∨ totalLen < ihl ∨ ip.length < totalLen then ip
  else
    let proto := ip.getD 9 0
    let src := slice ip 12 4
    let dst := slice ip 16 4
    let ip := putU16 ip 10 (fold (sum16 ((putU16 ip 10 0).take ihl) 0))
    let l4 := slice ip ihl (totalLen - ihl)
    let pseudo := sum16 dst (sum16 src 0) + (proto.toNat + l4.length)
    ip.take ihl ++ setL4Checksum proto l4 pseudo ++ ip.drop totalLen

-- Without extension headers.
def recalcV6 (ip : List UInt8) : List UInt8 :=
  let next := ip.getD 6 0
  let payload := ofBe (slice ip 4 2)
  if ip.length < 40 then ip
  else if payload = 0 ∨ ip.length < 40 + payload then ip
  else
    let src := slice ip 8 16
    let dst := slice ip 24 16
    let l4 := slice ip 40 payload
    let pseudo := sum16 dst (sum16 src 0) + (next.toNat + l4.length)
    ip.take 40 ++ setL4Checksum next l4 pseudo ++ ip.drop (40 + payload)

-- The checksums of a captured packet, which the network card would have computed.
def recalcChecksums (ip : List UInt8) : List UInt8 :=
  match ip with
  | []     => []
  | b :: _ =>
    if b.toNat / 16 = 4 then recalcV4 ip
    else if b.toNat / 16 = 6 then recalcV6 ip
    else ip

end Checksums

-- The same with the additions of the source, which are on `u32`: `none` where one of them overflows, or
-- where the carries are not folded after this many rounds.
section Checked

def addU32 (a b : Nat) : Option Nat :=
  if a + b < 2 ^ 32 then some (a + b) else none

def sum16U32 : List UInt8 → Nat → Option Nat
  | [], init           => some init
  | [a], init          => addU32 init (a.toNat * 256)
  | a :: b :: bs, init => (addU32 init (a.toNat * 256 + b.toNat)).bind (sum16U32 bs)

def foldU32 : Nat → Nat → Option Nat
  | 0, sum          => if sum / 65536 = 0 then some (65535 - sum) else none
  | rounds + 1, sum =>
    if sum / 65536 = 0 then some (65535 - sum)
    else (addU32 (sum % 65536) (sum / 65536)).bind (foldU32 rounds)

def setL4ChecksumU32 (proto : UInt8) (l4 : List UInt8) (pseudo : Nat) : Option (List UInt8) :=
  match checksumOffset proto with
  | none     => some l4
  | some off =>
    if l4.length < off + 2 then some l4
    else do
      let cs ← foldU32 2 (← sum16U32 (putU16 l4 off 0) pseudo)
      return putU16 l4 off (if proto = 17 ∧ cs = 0 then 0xFFFF else cs)

def pseudoU32 (src dst : List UInt8) (proto : UInt8) (len : Nat) : Option Nat := do
  let sum ← sum16U32 dst (← sum16U32 src 0)
  addU32 sum (← addU32 proto.toNat len)

def recalcV4U32 (ip : List UInt8) : Option (List UInt8) :=
  let ihl := (ip.getD 0 0).toNat % 16 * 4
  let totalLen := ofBe (slice ip 2 2)
  if ip.length < 20 then some ip
  else if ihl < 20 ∨ ip.length < ihl ∨ totalLen < ihl ∨ ip.length < totalLen then some ip
  else do
    let proto := ip.getD 9 0
    let src := slice ip 12 4
    let dst := slice ip 16 4
    let ip := putU16 ip 10 (← foldU32 2 (← sum16U32 ((putU16 ip 10 0).take ihl) 0))
    let l4 := slice ip ihl (totalLen - ihl)
    let l4 ← setL4ChecksumU32 proto l4 (← pseudoU32 src dst proto l4.length)
    return ip.take ihl ++ l4 ++ ip.drop totalLen

def recalcV6U32 (ip : List UInt8) : Option (List UInt8) :=
  let next := ip.getD 6 0
  let payload := ofBe (slice ip 4 2)
  if ip.length < 40 then some ip
  else if payload = 0 ∨ ip.length < 40 + payload then some ip
  else do
    let l4 := slice ip 40 payload
    let l4 ← setL4ChecksumU32 next l4 (← pseudoU32 (slice ip 8 16) (slice ip 24 16) next l4.length)
    return ip.take 40 ++ l4 ++ ip.drop (40 + payload)

def recalcChecksumsU32 (ip : List UInt8) : Option (List UInt8) :=
  match ip with
  | []     => some []
  | b :: _ =>
    if b.toNat / 16 = 4 then recalcV4U32 ip
    else if b.toNat / 16 = 6 then recalcV6U32 ip
    else some ip

end Checked
end JammVpn.WinpkFilter

namespace JammVpn.WinDivert

open Attribution Windows

inductive Verdict
  | tunnel
  | direct
  | drop
  deriving DecidableEq

def parseIp (ip : List UInt8) : Option Flow :=
  (parseFlow ip).map Prod.fst

def toVerdict : Split.Action → Verdict
  | .tunnel => .tunnel
  | .direct => .direct
  | .block  => .drop

-- The driver only captures outgoing packets.
def classify (fileName : String → Option String) (host : Host) (ip : List UInt8) (config : SplitConfig)
    (resolver : ProcessResolver) : (Verdict × List Char) × ProcessResolver :=
  match parseIp ip with
  | none   => ((.direct, "не-TCP/UDP/короткий → прямо".toList), resolver)
  | some f =>
    let (app, resolver) := resolver.resolve host fileName f.proto f.isV6 f.localPort
    let app := app.getD {}
    let verdict := toVerdict (Split.decide { app, dstIp := f.dstIp, dstPort := f.dstPort } config true)
    ((verdict, f.info app), resolver)

end JammVpn.WinDivert
