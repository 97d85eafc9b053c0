import JammVpn.Lib.Bytes
import JammVpn.Net.Outbound

-- The obfuscation of AmneziaWG around the packets of WireGuard.
namespace JammVpn.Obfs

open Bytes

-- Blake2s as a hash, and as a keyed one with tags of 16 bytes.
structure Blake2s where
  hash       : List UInt8 → List UInt8
  mac        : (key msg : List UInt8) → List UInt8
  length_mac : ∀ key msg, (mac key msg).length = 16

-- What the random generator gives on a call: a number in a range, or so many bytes.
structure Rng where
  range       : (call lo hi : Nat) → Nat
  fill        : (call n : Nat) → List UInt8
  mem_range   : ∀ call lo hi, lo ≤ hi → lo ≤ range call lo hi ∧ range call lo hi ≤ hi
  length_fill : ∀ call n, (fill call n).length = n

def labelMac1 : List UInt8 :=
  "mac1----".toUTF8.toList

def tInit : Nat := 1
def tResp : Nat := 2
def tCookie : Nat := 3
def tData : Nat := 4

def lenInit : Nat := 148
def lenResp : Nat := 92
def lenCookie : Nat := 64
def dataHeader : Nat := 16
def dataMin : Nat := dataHeader + 16

section

variable (b : Blake2s)

def mac1Key (receiverPub : List UInt8) : List UInt8 :=
  b.hash (labelMac1 ++ receiverPub)

-- The first checksum of a handshake message, in front of the last 16 bytes.
def fixMac1 (msg receiverPub : List UInt8) : List UInt8 :=
  if msg.length ≠ lenInit ∧ msg.length ≠ lenResp then msg
  else
    let off := msg.length - 32
    msg.take off ++ b.mac (mac1Key b receiverPub) (msg.take off) ++ msg.drop (off + 16)

end

def isIdentity (a : AwgObfuscation) : Bool :=
  a.jc = 0 ∧ a.s1 = 0 ∧ a.s2 = 0 ∧ a.h1 = 1 ∧ a.h2 = 2 ∧ a.h3 = 3 ∧ a.h4 = 4

-- Without parameters it is plain WireGuard.
structure AwgObfs where
  params     : Option AwgObfuscation
  ourPublic  : List.Vector UInt8 32
  peerPublic : List.Vector UInt8 32

def AwgObfs.new (params : Option AwgObfuscation) (ourPublic peerPublic : List.Vector UInt8 32) : AwgObfs where
  params := params.filter fun a => !isIdentity a
  ourPublic := ourPublic
  peerPublic := peerPublic

def hFor (a : AwgObfuscation) (t : Nat) : Nat :=
  if t = tInit then a.h1
  else if t = tResp then a.h2
  else if t = tCookie then a.h3
  else if t = tData then a.h4
  else t

def sFor (a : AwgObfuscation) (t : Nat) : Nat :=
  if t = tInit then a.s1
  else if t = tResp then a.s2
  else 0

-- The type of a message is the first four bytes.
def typeAt (bs : List UInt8) (start : Nat) : Nat :=
  ofLe ((bs.drop start).take 4)

def setType (t : Nat) (bs : List UInt8) : List UInt8 :=
  toLe 4 t ++ bs.drop 4

def junk (rng : Rng) (a : AwgObfuscation) (i : Nat) : List UInt8 :=
  let hi := max a.jmax a.jmin
  rng.fill i (if a.jmin < hi then rng.range i a.jmin hi else a.jmin)

section

variable (b : Blake2s) (o : AwgObfs)

-- Junk is only sent in front of a handshake initiation.
def AwgObfs.wrap (rng : Rng) (packet : List UInt8) : List (List UInt8) :=
  match o.params with
  | none   => [packet]
  | some a =>
    if packet.length < 4 then [packet]
    else
      let t := typeAt packet 0
      let junk := if t = tInit ∧ 0 < a.jc then (List.range a.jc).map (junk rng a) else []
      let dg := setType (hFor a t) packet
      let dg := if t = tInit ∨ t = tResp then fixMac1 b dg o.peerPublic.toList else dg
      junk ++ [rng.fill a.jc (sFor a t) ++ dg]

-- A type, the length of its messages, and whether longer ones are of this type, too.
def kinds : List (Nat × Nat × Bool) :=
  [(tInit, lenInit, false), (tResp, lenResp, false), (tCookie, lenCookie, false), (tData, dataMin, true)]

def AwgObfs.unwrapAs (a : AwgObfuscation) (dg : List UInt8) : Nat × Nat × Bool → Option (List UInt8)
  | (t, fixed, isTransport) =>
    let pad := sFor a t
    let sizeOk := if isTransport then pad + fixed ≤ dg.length else dg.length = pad + fixed
    if dg.length < pad + 4 then none
    else if ¬sizeOk then none
    else if typeAt dg pad ≠ hFor a t then none
    else
      let pkt := setType t (dg.drop pad)
      some (if t = tInit ∨ t = tResp then fixMac1 b pkt o.ourPublic.toList else pkt)

-- The first type that fits is taken; what fits none is junk.
def AwgObfs.unwrap (dg : List UInt8) : Option (List UInt8) :=
  match o.params with
  | none   => some dg
  | some a => kinds.findSome? (o.unwrapAs b a dg)

end
end JammVpn.Obfs
