import JammVpn.Lib.Text

-- IP and socket addresses with the textual forms of Rust's `std::net`.
namespace Ip

inductive IpAddr
  | v4 (addr : BitVec 32)
  | v6 (addr : BitVec 128)
  deriving DecidableEq, Repr

namespace IpAddr

def isIpv4 : IpAddr → Bool
  | v4 _ => true
  | v6 _ => false

-- The number of bits of an address of this family.
def width : IpAddr → Nat
  | v4 _ => 32
  | v6 _ => 128

end IpAddr

inductive SocketAddr
  | v4 (addr : BitVec 32) (port : Nat)
  | v6 (addr : BitVec 128) (port flowinfo scopeId : Nat)
  deriving DecidableEq, Repr

namespace SocketAddr

def ip : SocketAddr → IpAddr
  | v4 a _     => .v4 a
  | v6 a _ _ _ => .v6 a

def port : SocketAddr → Nat
  | v4 _ p | v6 _ p _ _ => p

-- `SocketAddr::new`.
def new : IpAddr → Nat → SocketAddr
  | .v4 a, p => v4 a p
  | .v6 a, p => v6 a p 0 0

end SocketAddr

def ofOctets (a b c d : Nat) : BitVec 32 :=
  .ofNat 32 (a * 2 ^ 24 + b * 2 ^ 16 + c * 2 ^ 8 + d)

def octet (v : BitVec 32) (i : Nat) : Nat :=
  v.toNat / 2 ^ (24 - 8 * i) % 256

def ofSegments (gs : List Nat) : BitVec 128 :=
  .ofNat 128 (gs.foldl (fun acc g => acc * 65536 + g) 0)

def segments (v : BitVec 128) : List Nat :=
  (List.range 8).map fun i => v.toNat / 2 ^ (112 - 16 * i) % 65536

-- `Ipv4Addr::to_ipv6_mapped`: the address `::ffff:a.b.c.d`.
def toIpv6Mapped (v : BitVec 32) : BitVec 128 :=
  .ofNat 128 (0xffff * 2 ^ 32 + v.toNat)

def toIpv4Mapped (v : BitVec 128) : Option (BitVec 32) :=
  if v.toNat / 2 ^ 32 = 0xffff then some (.ofNat 32 (v.toNat % 2 ^ 32)) else none

section Display

open Text

def displayV4 (v : BitVec 32) : List Char :=
  decimal (octet v 0) ++ '.' :: (decimal (octet v 1) ++ '.' ::
    (decimal (octet v 2) ++ '.' :: decimal (octet v 3)))

-- Start and length of a run of zero segments.
structure Span where
  start : Nat
  len : Nat
  deriving DecidableEq

-- The first longest run of zero segments.
def longestZeroes (gs : List Nat) : Span :=
  (gs.zipIdx.foldl step (⟨0, 0⟩, ⟨0, 0⟩)).1
where
  step : Span × Span → Nat × Nat → Span × Span
    | (longest, current), (g, i) =>
      if g = 0 then
        let current : Span := ⟨if current.len = 0 then i else current.start, current.len + 1⟩
        (if longest.len < current.len then current else longest, current)
      else (longest, ⟨0, 0⟩)

def displaySegments (gs : List Nat) : List Char :=
  List.intercalate [':'] (gs.map hex)

def displayV6 (v : BitVec 128) : List Char :=
  match toIpv4Mapped v with
  | some a => "::ffff:".toList ++ displayV4 a
  | none   =>
    let zeroes := longestZeroes (segments v)
    if 1 < zeroes.len then
      displaySegments ((segments v).take zeroes.start) ++ "::".toList ++
        displaySegments ((segments v).drop (zeroes.start + zeroes.len))
    else displaySegments (segments v)

def IpAddr.display : IpAddr → List Char
  | v4 a => displayV4 a
  | v6 a => displayV6 a

def SocketAddr.display : SocketAddr → List Char
  | v4 a port         => displayV4 a ++ ':' :: decimal port
  | v6 a port _ scope =>
    '[' :: displayV6 a ++ (if scope = 0 then [] else '%' :: decimal scope) ++ ']' :: ':' :: decimal port

end Display

section Parse

open Text

-- A reader consumes the front of its input; on failure it consumes nothing, which is what
-- `read_atomically` does in `std::net::parser`.
abbrev Reader (α : Type) := List Char → Option (α × List Char)

def readGivenChar (c : Char) : Reader Unit
  | []      => none
  | x :: xs => if x = c then some ((), xs) else none

def readNumber (radix : Nat) (maxDigits : Option Nat) (zeroPrefix : Bool) (bound : Nat) :
    Reader Nat := fun s =>
  let (ds, rest) := spanDigits radix s
  if ds = [] then none
  else if maxDigits.any (· < ds.length) then none
  else if !zeroPrefix && s.head? == some '0' && 1 < ds.length then none
  else if ofDigits radix ds < bound then some (ofDigits radix ds, rest)
  else none

-- The separator stands before every element but the one with index zero.
def readSeparator {α : Type} (sep : Char) (index : Nat) (inner : Reader α) : Reader α := fun s =>
  if 0 < index then do
    let (_, s) ← readGivenChar sep s
    inner s
  else inner s

def readOctet (index : Nat) : Reader Nat :=
  readSeparator '.' index (readNumber 10 (some 3) false 256)

def readIpv4Addr : Reader (BitVec 32) := fun s => do
  let (a, s) ← readOctet 0 s
  let (b, s) ← readOctet 1 s
  let (c, s) ← readOctet 2 s
  let (d, s) ← readOctet 3 s
  return (ofOctets a b c d, s)

-- Reads up to `left` groups from index `i` on; the flag tells that the last two of them are an
-- embedded IPv4 address, which needs two free groups.
def readGroups (i : Nat) : Nat → List Char → (List Nat × Bool) × List Char
  | 0, s        => (([], false), s)
  | left + 1, s =>
    match (if 0 < left then readSeparator ':' i readIpv4Addr s else none) with
    | some (v, s') => (([v.toNat / 65536, v.toNat % 65536], true), s')
    | none =>
      match readSeparator ':' i (readNumber 16 (some 4) true 65536) s with
      | none         => (([], false), s)
      | some (g, s') =>
        let ((gs, v4), s'') := readGroups (i + 1) left s'
        ((g :: gs, v4), s'')

def readIpv6Addr : Reader (BitVec 128) := fun s =>
  let ((head, headIpv4), s) := readGroups 0 8 s
  if head.length = 8 then some (ofSegments head, s)
  else if headIpv4 then none
  else do
    let (_, s) ← readGivenChar ':' s
    let (_, s) ← readGivenChar ':' s
    let ((tail, _), s) := readGroups 0 (8 - (head.length + 1)) s
    return (ofSegments (head ++ List.replicate (8 - head.length - tail.length) 0 ++ tail), s)

def readIpAddr : Reader IpAddr := fun s =>
  match readIpv4Addr s with
  | some (a, s) => some (.v4 a, s)
  | none        => (readIpv6Addr s).map fun (a, s) => (.v6 a, s)

def readPort : Reader Nat := fun s => do
  let (_, s) ← readGivenChar ':' s
  readNumber 10 none true 65536 s

def readScopeId : Reader Nat := fun s => do
  let (_, s) ← readGivenChar '%' s
  readNumber 10 none true (2 ^ 32) s

def readSocketAddrV4 : Reader SocketAddr := fun s => do
  let (a, s) ← readIpv4Addr s
  let (p, s) ← readPort s
  return (.v4 a p, s)

def readSocketAddrV6 : Reader SocketAddr := fun s => do
  let (_, s) ← readGivenChar '[' s
  let (a, s) ← readIpv6Addr s
  let (scope, s) := (readScopeId s).getD (0, s)
  let (_, s) ← readGivenChar ']' s
  let (p, s) ← readPort s
  return (.v6 a p 0 scope, s)

-- A text parses if a reader consumes all of it.
def parseWith {α : Type} (r : Reader α) (s : List Char) : Option α :=
  match r s with
  | some (a, []) => some a
  | _            => none

-- `str::parse::<IpAddr>`.
def IpAddr.parse (s : List Char) : Option IpAddr :=
  parseWith readIpAddr s

-- `str::parse::<Ipv4Addr>`.
def parseIpv4 (s : List Char) : Option (BitVec 32) :=
  if 15 < s.length then none else parseWith readIpv4Addr s

-- `str::parse::<SocketAddr>`.
def SocketAddr.parse (s : List Char) : Option SocketAddr :=
  parseWith (fun s => (readSocketAddrV4 s).or (readSocketAddrV6 s)) s

end Parse

section RoundTrip

open Text

theorem octet_lt (v : BitVec 32) (i : Nat) : octet v i < 256 :=
  Nat.mod_lt _ (by decide)

theorem ofOctets_octet (v : BitVec 32) :
    ofOctets (octet v 0) (octet v 1) (octet v 2) (octet v 3) = v := by
  apply BitVec.eq_of_toNat_eq
  have := v.isLt
  simp only [ofOctets, octet, BitVec.toNat_ofNat]
  omega

theorem toIpv4Mapped_toIpv6Mapped (v : BitVec 32) : toIpv4Mapped (toIpv6Mapped v) = some v := by
  have := v.isLt
  have h : (toIpv6Mapped v).toNat = 0xffff * 2 ^ 32 + v.toNat := by
    simp only [toIpv6Mapped, BitVec.toNat_ofNat]
    omega
  have hd : (0xffff * 2 ^ 32 + v.toNat) / 2 ^ 32 = 0xffff := by omega
  have hm : (0xffff * 2 ^ 32 + v.toNat) % 2 ^ 32 = v.toNat := by omega
  simp only [toIpv4Mapped, h, hd, hm, if_true, BitVec.ofNat_toNat, BitVec.setWidth_eq]

theorem eq_toIpv6Mapped {v : BitVec 128} {a : BitVec 32} (h : toIpv4Mapped v = some a) :
    v = toIpv6Mapped a := by
  simp only [toIpv4Mapped] at h
  split at h <;> cases h
  case isTrue hd =>
    apply BitVec.eq_of_toNat_eq
    simp only [toIpv6Mapped, BitVec.toNat_ofNat]
    omega

theorem decimal_length_of_head :
    ∀ n < 256, (decimal n).head? = some '0' → (decimal n).length ≤ 1 := by
  decide +kernel

theorem readNumber_decimal {n : Nat} (hn : n < 256) {rest : List Char}
    (hr : ∀ c ∈ rest.head?, toDigit 10 c = none) :
    readNumber 10 (some 3) false 256 (decimal n ++ rest) = some (n, rest) := by
  have ⟨ds, hd, he⟩ := exists_digits_toDigits (by decide : 1 < 10) (by decide) n
  have hs := spanDigits_append hd hr
  have hl : (decimal n).length = ds.length := hd.length_eq
  have h₃ : (decimal n).length ≤ 3 := 
    (Nat.length_toDigits_le_iff (by decide) (by decide)).mpr (by omega)
  have h₀ : 0 < (decimal n).length := Nat.length_toDigits_pos
  have hne : ds ≠ [] := by
    intro h
    rw [h, List.length_nil] at hl
    omega
  have hz : (decimal n ++ rest).head? = some '0' → ds.length ≤ 1 := by
    intro h
    rw [List.head?_append_of_ne_nil _ (List.ne_nil_of_length_pos h₀)] at h
    exact hl ▸ decimal_length_of_head n hn h
  have hz' : ¬((decimal n ++ rest).head? = some '0' ∧ 1 < ds.length) := by
    intro ⟨h, h'⟩
    have := hz h
    omega
  simp only [decimal] at hs hz' ⊢
  simp [readNumber, hs, hne, he, hn, show ¬(3 < ds.length) by omega]
  simpa using hz'

theorem readOctet_decimal {n : Nat} (hn : n < 256) (index : Nat) (hi : 0 < index) {rest : List Char}
    (hr : ∀ c ∈ rest.head?, toDigit 10 c = none) :
    readOctet index ('.' :: (decimal n ++ rest)) = some (n, rest) := by
  simp [readOctet, readSeparator, hi, readGivenChar, readNumber_decimal hn hr]

theorem readIpv4Addr_display (v : BitVec 32) {rest : List Char}
    (hr : ∀ c ∈ rest.head?, toDigit 10 c = none) :
    readIpv4Addr (displayV4 v ++ rest) = some (v, rest) := by
  have hdot : ∀ s, ∀ c ∈ ('.' :: s).head?, toDigit 10 c = none := by simp [toDigit]
  have h₀ : ∀ s, readOctet 0 (decimal (octet v 0) ++ '.' :: s) = some (octet v 0, '.' :: s) := by
    intro s
    simp [readOctet, readSeparator, readNumber_decimal (octet_lt v 0) (hdot s)]
  simp only [displayV4, List.append_assoc, List.cons_append, readIpv4Addr, h₀,
    readOctet_decimal (octet_lt v 1) 1 (by decide) (hdot _),
    readOctet_decimal (octet_lt v 2) 2 (by decide) (hdot _),
    readOctet_decimal (octet_lt v 3) 3 (by decide) hr, Option.bind_eq_bind, Option.bind_some,
    ofOctets_octet]
  rfl

theorem IpAddr.parse_display_v4 (v : BitVec 32) : IpAddr.parse (displayV4 v) = some (.v4 v) := by
  have := @readIpv4Addr_display v [] (by simp)
  simp only [List.append_nil] at this
  simp [IpAddr.parse, parseWith, readIpAddr, this]

-- The reader of the part behind `::` sees `ffff` as a group and then the embedded IPv4 address.
theorem readGroups_mapped (v : BitVec 32) {rest : List Char} (hr : ∀ c ∈ rest.head?, toDigit 10 c = none) :
    readGroups 0 7 ("ffff:".toList ++ (displayV4 v ++ rest)) =
      (([0xffff, v.toNat / 65536, v.toNat % 65536], true), rest) := by
  have h := readIpv4Addr_display v hr
  have h₀ : readSeparator ':' 0 readIpv4Addr ("ffff:".toList ++ (displayV4 v ++ rest)) = none :=
    rfl
  have h₁ : readSeparator ':' 0 (readNumber 16 (some 4) true 65536)
      ("ffff:".toList ++ (displayV4 v ++ rest)) = some (0xffff, ':' :: (displayV4 v ++ rest)) :=
    rfl
  have h₂ : readSeparator ':' 1 readIpv4Addr (':' :: (displayV4 v ++ rest)) = some (v, rest) := by
    simp [readSeparator, readGivenChar, h]
  simp only [readGroups, h₀, h₁, h₂, if_true, Nat.zero_add, show (0 : Nat) < 6 by decide,
    show (0 : Nat) < 5 by decide]

theorem ofSegments_mapped (v : BitVec 32) :
    ofSegments [0, 0, 0, 0, 0, 0xffff, v.toNat / 65536, v.toNat % 65536] = toIpv6Mapped v := by
  have h : List.foldl (fun acc g => acc * 65536 + g) 0
      [0, 0, 0, 0, 0, 0xffff, v.toNat / 65536, v.toNat % 65536] = 0xffff * 2 ^ 32 + v.toNat := by
    simp only [List.foldl]
    omega
  rw [ofSegments, h, toIpv6Mapped]

theorem readIpv6Addr_mapped (v : BitVec 32) {rest : List Char}
    (hr : ∀ c ∈ rest.head?, toDigit 10 c = none) :
    readIpv6Addr (displayV6 (toIpv6Mapped v) ++ rest) = some (toIpv6Mapped v, rest) := by
  have hd : displayV6 (toIpv6Mapped v) ++ rest =
      ':' :: ':' :: ("ffff:".toList ++ (displayV4 v ++ rest)) := by
    simp [displayV6, toIpv4Mapped_toIpv6Mapped]
  have h₀ : ∀ s, readGroups 0 8 (':' :: s) = (([], false), ':' :: s) := fun _ => rfl
  simp only [hd, readIpv6Addr, h₀, readGivenChar, List.length_nil, Option.bind_eq_bind,
    Option.bind_some, if_true]
  rw [readGroups_mapped v hr]
  simp only [← ofSegments_mapped]
  rfl

theorem IpAddr.parse_display_mapped (v : BitVec 32) :
    IpAddr.parse (displayV6 (toIpv6Mapped v)) = some (.v6 (toIpv6Mapped v)) := by
  have h := @readIpv6Addr_mapped v [] (by simp)
  have h₄ : readIpv4Addr (displayV6 (toIpv6Mapped v)) = none := by
    simp only [displayV6, toIpv4Mapped_toIpv6Mapped]
    rfl
  rw [List.append_nil] at h
  simp [IpAddr.parse, parseWith, readIpAddr, h₄, h]

theorem head?_displayV4 {c : Char} (h : c.isDigit = false) (v : BitVec 32) :
    (displayV4 v).head? ≠ some c :=
  head?_decimal_append h _ _

theorem getLast?_append_displayV4 {c : Char} (h : c.isDigit = false) (s : List Char) (v : BitVec 32) :
    (s ++ displayV4 v).getLast? ≠ some c := by
  have := getLast?_append_decimal h (s ++ decimal (octet v 0) ++ '.' :: decimal (octet v 1) ++ '.' ::
    decimal (octet v 2) ++ ['.']) (octet v 3)
  simpa [displayV4] using this

end RoundTrip
-- Clearing the low bits of an address leaves room for them.
section Network

variable {w : Nat}

theorem toNat_and_shiftLeft_allOnes (x : BitVec w) (k : Nat) :
    (x &&& BitVec.allOnes w <<< k).toNat = x.toNat / 2 ^ k * 2 ^ k := by
  have h : x &&& BitVec.allOnes w <<< k = (x >>> k) <<< k := by
    ext i hi
    by_cases hk : i < k
    case pos => simp [hk]
    case neg => simp [hk, hi, show k + (i - k) = i by omega]
  have hl : x.toNat / 2 ^ k * 2 ^ k < 2 ^ w := (Nat.div_mul_le_self _ _).trans_lt x.isLt
  rw [h, BitVec.toNat_shiftLeft, BitVec.toNat_ushiftRight, Nat.shiftLeft_eq,
    Nat.shiftRight_eq_div_pow, Nat.mod_eq_of_lt hl]

theorem toNat_and_shiftLeft_allOnes_add_le (x : BitVec w) {k : Nat} (h : k ≤ w) :
    (x &&& BitVec.allOnes w <<< k).toNat + 2 ^ k ≤ 2 ^ w := by
  have hw : 2 ^ w = 2 ^ (w - k) * 2 ^ k := by rw [← Nat.pow_add, Nat.sub_add_cancel h]
  have hx : x.toNat / 2 ^ k < 2 ^ (w - k) :=
    (Nat.div_lt_iff_lt_mul (Nat.two_pow_pos k)).mpr (hw ▸ x.isLt)
  rw [toNat_and_shiftLeft_allOnes, ← Nat.succ_mul, hw]
  exact Nat.mul_le_mul_right _ hx

end Network
end Ip
