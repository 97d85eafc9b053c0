import JammVpn.Lib.Ip
import JammVpn.Lib.Bytes
import JammVpn.Core.Model

namespace JammVpn

open Ip Text Words

-- A subnet. Both constructors of the source check that the prefix fits the address family.
structure IpCidr where
  base      : IpAddr
  prefixLen : Nat
  le_width  : prefixLen ≤ base.width
  deriving DecidableEq

namespace IpCidr

def mk? (s : String) (base : IpAddr) (prefixLen : Nat) : Except ParseError IpCidr :=
  if h : prefixLen ≤ base.width then .ok ⟨base, prefixLen, h⟩ else .error (.invalidCidr s)

-- An address with a prefix length, or a single address.
def parse (s : String) : Except ParseError IpCidr :=
  match splitOnce '/' s.toList with
  | some (ip, p) =>
    match parseUnsigned 256 p with
    | none     => .error (.invalidCidr s)
    | some pfx =>
      match IpAddr.parse ip with
      | none      => .error (.invalidCidr s)
      | some base => mk? s base pfx
  | none =>
    match IpAddr.parse s.toList with
    | none      => .error (.invalidCidr s)
    | some base => mk? s base base.width

def display (c : IpCidr) : List Char :=
  c.base.display ++ '/' :: decimal c.prefixLen

def new (base : IpAddr) (prefixLen : Nat) : Except ParseError IpCidr :=
  mk? (.ofList (base.display ++ '/' :: decimal prefixLen)) base prefixLen

-- `u32::MAX << (32 - prefix)` and `u128::MAX << (128 - prefix)`, with the two cases that would
-- shift by the full width or not at all.
def mask (w prefixLen : Nat) : BitVec w :=
  if prefixLen = 0 then 0
  else if w ≤ prefixLen then BitVec.allOnes w
  else BitVec.allOnes w <<< (w - prefixLen)

def v4Match (base addr : BitVec 32) (prefixLen : Nat) : Bool :=
  base &&& mask 32 prefixLen == addr &&& mask 32 prefixLen

def v6Match (base addr : BitVec 128) (prefixLen : Nat) : Bool :=
  base &&& mask 128 prefixLen == addr &&& mask 128 prefixLen

def contains (c : IpCidr) (ip : IpAddr) : Bool :=
  match c.base, ip with
  | .v4 base, .v4 addr => v4Match base addr c.prefixLen
  | .v6 base, .v6 addr => v6Match base addr c.prefixLen
  | _, _               => false

-- The same with the shifts of the source: `none` where one of them has no meaning.
section Checked

def maskShl (w prefixLen : Nat) : Option (BitVec w) :=
  if prefixLen = 0 then some 0
  else if w ≤ prefixLen then some (BitVec.allOnes w)
  else shl? (BitVec.allOnes w) (w - prefixLen)

def v4MatchShl (base addr : BitVec 32) (prefixLen : Nat) : Option Bool := do
  let mask ← maskShl 32 prefixLen
  return base &&& mask == addr &&& mask

def v6MatchShl (base addr : BitVec 128) (prefixLen : Nat) : Option Bool := do
  let mask ← maskShl 128 prefixLen
  return base &&& mask == addr &&& mask

def containsShl (c : IpCidr) (ip : IpAddr) : Option Bool :=
  match c.base, ip with
  | .v4 base, .v4 addr => v4MatchShl base addr c.prefixLen
  | .v6 base, .v6 addr => v6MatchShl base addr c.prefixLen
  | _, _               => some false

end Checked

-- The subnet that holds a single address.
def host (ip : IpAddr) : IpCidr where
  base := ip
  prefixLen := ip.width
  le_width := le_rfl

-- A mask keeps the first bits.
theorem getLsbD_mask {w p i : Nat} (hi : i < w) : (mask w p).getLsbD i = decide (w - p ≤ i) := by
  simp only [mask]
  split
  case isTrue hp => simp [hp, hi]
  case isFalse hp =>
    split
    case isTrue hw => simp [hi, Nat.sub_eq_zero_of_le hw]
    case isFalse hw =>
      rw [BitVec.getLsbD_shiftLeft, BitVec.getLsbD_allOnes]
      simp only [hi, decide_true, Bool.true_and, ← decide_not, Nat.not_lt, ← Bool.decide_and]
      exact decide_eq_decide.mpr ⟨fun h => h.1, fun h => ⟨h, by omega⟩⟩

theorem and_mask_eq_iff {w p : Nat} (a b : BitVec w) :
    a &&& mask w p = b &&& mask w p ↔ a.toNat / 2 ^ (w - p) = b.toNat / 2 ^ (w - p) := by
  rw [← Nat.shiftRight_eq_div_pow, ← Nat.shiftRight_eq_div_pow]
  constructor
  case mp =>
    intro h
    apply Nat.eq_of_testBit_eq
    intro i
    rw [Nat.testBit_shiftRight, Nat.testBit_shiftRight]
    by_cases hi : w - p + i < w
    case pos =>
      have := congrArg (·.getLsbD (w - p + i)) h
      simp only [BitVec.getLsbD_and, getLsbD_mask hi, Nat.le_add_right, decide_true, Bool.and_true] at this
      exact this
    case neg =>
      have hw := Nat.le_of_not_lt hi
      exact (a.getLsbD_of_ge _ hw).trans (b.getLsbD_of_ge _ hw).symm
  case mpr =>
    intro h
    apply BitVec.eq_of_getLsbD_eq
    intro i hi
    simp only [BitVec.getLsbD_and, getLsbD_mask hi]
    by_cases hp : w - p ≤ i
    case pos =>
      have := congrArg (·.testBit (i - (w - p))) h
      simp only [Nat.testBit_shiftRight, Nat.add_sub_cancel' hp] at this
      exact congrArg (· && _) this
    case neg => simp [hp]

theorem and_mask_eq_iff_getMsbD {w p : Nat} (h : p ≤ w) (a b : BitVec w) :
    a &&& mask w p = b &&& mask w p ↔ ∀ i < p, a.getMsbD i = b.getMsbD i := by
  constructor
  case mp =>
    intro he i hi
    have hw : i < w := Nat.lt_of_lt_of_le hi h
    have hbit := congrArg (·.getMsbD i) he
    simp only [BitVec.getMsbD_and, BitVec.getMsbD_eq_getLsbD (mask w p)] at hbit
    rw [getLsbD_mask (by omega), decide_eq_true (by omega : w - p ≤ w - 1 - i), decide_eq_true hw] at hbit
    simpa using hbit
  case mpr =>
    intro hbits
    apply BitVec.eq_of_getMsbD_eq
    intro i hi
    rw [BitVec.getMsbD_and, BitVec.getMsbD_and]
    by_cases hp : i < p
    case pos => rw [hbits i hp]
    case neg =>
      have hmask : (mask w p).getMsbD i = false := by
        rw [BitVec.getMsbD_eq_getLsbD, getLsbD_mask (by omega), decide_eq_false (by omega : ¬w - p ≤ w - 1 - i),
          Bool.and_false]
      rw [hmask, Bool.and_false, Bool.and_false]

end IpCidr
end JammVpn
