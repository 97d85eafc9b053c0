import JammVpn.Net.Hysteria2
import JammVpn.Net.Tuic

-- The reassembly with the counters and the checks of the code: nothing says that an entry is well-formed, and
-- where the code would panic there is no result.
namespace JammVpn.Reassembly

structure Slots where
  frags    : List (Option (List UInt8))
  received : Nat
  created  : Nat

namespace Slots

def new (total now : Nat) : Slots where
  frags := List.replicate total none
  received := 0
  created := now

-- The index can be out of bounds.
def put (s : Slots) (id : Nat) (data : List UInt8) : Option Slots := do
  match ← s.frags[id]? with
  | none   => some { s with frags := s.frags.set id (some data), received := s.received + 1 }
  | some _ => some s

-- A fragment can be missing.
def join (s : Slots) : Option (List UInt8) := do
  let parts ← s.frags.mapM id
  return parts.flatten

end Slots

abbrev Table (κ : Type) := AssocMap κ Slots

namespace Table

variable {κ : Type} [DecidableEq κ]

def retain (now : Nat) (m : Table κ) : Table κ :=
  m.filter fun (_, s) => now - s.created < reasmTtl

def oldest (tie : Nat) (m : Table κ) : Option κ :=
  let first := m.entries.filter fun e => m.entries.all fun e' => e.2.created ≤ e'.2.created
  first[tie % first.length]?.map (·.1)

def makeRoom (tie : Nat) (key : κ) (m : Table κ) : Table κ :=
  if maxReasm ≤ m.size ∧ m.get key = none then
    match oldest tie m with
    | some k => m.erase k
    | none   => m
  else m

-- The entry that is removed can be missing.
def reassemble (now tie : Nat) (f : Fragment κ) (m : Table κ) : Option (Option (List UInt8) × Table κ) :=
  let m := makeRoom tie f.key (retain now m)
  let entry := (m.get f.key).getD (.new f.total now)
  let m := m.insert f.key entry
  if entry.frags.length ≠ f.total then some (none, m)
  else do
    let entry ← entry.put f.id f.data
    let m := m.insert f.key entry
    if entry.received = f.total then do
      let r ← m.get f.key
      let out ← r.join
      some (some out, m.erase f.key)
    else some (none, m)

-- A datagram, and when it is read.
structure Datagram where
  now   : Nat
  tie   : Nat
  bytes : List UInt8

-- What the loop that receives datagrams does: a packet of one fragment needs no table.
def receive (decode : List UInt8 → Option (Fragment κ)) (m : Table κ) (x : Datagram) :
    Option (Option (List UInt8) × Table κ) :=
  match decode x.bytes with
  | none   => some (none, m)
  | some f => if f.total ≤ 1 then some (some f.data, m) else reassemble x.now x.tie f m

def step (decode : List UInt8 → Option (Fragment κ)) (m : Table κ) (x : Datagram) : Option (Table κ) :=
  (receive decode m x).map (·.2)

end Table
end Reassembly

def Tuic.fragmentOf (dg : List UInt8) : Option (Reassembly.Fragment (UInt16 × UInt16)) :=
  (decodePacket dg).toOption.map fun (head, frag) => head.fragment frag

def Hysteria2.fragmentOf (dg : List UInt8) : Option (Reassembly.Fragment (UInt32 × UInt16)) :=
  (decodeUdpPacket dg).toOption.map fun (head, frag) => head.fragment frag

end JammVpn
