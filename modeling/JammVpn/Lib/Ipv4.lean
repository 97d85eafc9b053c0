import JammVpn.Lib.Bytes

-- Packets of the Internet Protocol, and the fragments of a datagram (RFC 791).
namespace Ipv4

open Bytes

-- The options take `words` words of the header, and the offset counts eights of bytes.
structure Packet where
  words          : Nat
  tos            : UInt8
  id             : Nat
  dontFragment   : Bool
  moreFragments  : Bool
  offset         : Nat
  ttl            : UInt8
  proto          : UInt8
  checksum       : Nat
  src            : BitVec 32
  dst            : BitVec 32
  options        : List UInt8
  payload        : List UInt8
  words_le       : words ≤ 10
  options_length : options.length = words * 4
  total_lt       : 20 + words * 4 + payload.length < 65536

namespace Packet

variable (p : Packet)

def ihl : Nat :=
  20 + p.words * 4

def totalLen : Nat :=
  p.ihl + p.payload.length

def flags : Nat :=
  p.dontFragment.toNat * 16384 + p.moreFragments.toNat * 8192 + p.offset

-- The part of the header in front of its checksum.
def start : List UInt8 :=
  [.ofNat (69 + p.words), p.tos] ++ toBe 2 p.totalLen ++ toBe 2 p.id ++ toBe 2 p.flags ++ [p.ttl, p.proto]

def addresses : List UInt8 :=
  toBe 4 p.src.toNat ++ toBe 4 p.dst.toNat

def header : List UInt8 :=
  p.start ++ toBe 2 p.checksum ++ p.addresses ++ p.options

def encode : List UInt8 :=
  p.header ++ p.payload

@[simp]
theorem length_start : p.start.length = 10 := by
  simp [start]

@[simp]
theorem length_addresses : p.addresses.length = 8 := by
  simp [addresses]

@[simp]
theorem length_header : p.header.length = p.ihl := by
  simp only [header, List.length_append, length_start, length_toBe, length_addresses, p.options_length, ihl]

@[simp]
theorem length_encode : p.encode.length = p.totalLen := by
  rw [encode, List.length_append, length_header, totalLen]

theorem totalLen_lt : p.totalLen < 65536 :=
  p.total_lt

theorem drop_encode : p.encode.drop p.ihl = p.payload :=
  List.drop_left' p.length_header

theorem take_encode : p.encode.take p.ihl = p.header :=
  List.take_left' p.length_header

-- The first byte has the version and the length of the header in words.
def versionByte : UInt8 :=
  .ofNat (69 + p.words)

theorem versionByte_toNat : p.versionByte.toNat = 69 + p.words := by
  have := p.words_le
  simp only [versionByte, UInt8.toNat_ofNat']
  omega

theorem encode_eq_cons : ∃ rest, p.encode = p.versionByte :: rest :=
  ⟨_, rfl⟩

end Packet

-- A fragment has the addresses, the protocol and the identification of its datagram; of the options it
-- need not have all.
structure Related (d f : Packet) : Prop where
  id    : f.id = d.id
  proto : f.proto = d.proto
  src   : f.src = d.src
  dst   : f.dst = d.dst

-- The fragments of a datagram from some place of its payload on. All but the last one have a multiple of
-- eight bytes.
inductive Fragments (d : Packet) : Nat → List Packet → Prop
  | last {start : Nat} {f : Packet} : Related d f → f.offset * 8 = start → f.moreFragments = false →
    f.payload = d.payload.drop start → f.payload ≠ [] → Fragments d start [f]
  | more {start : Nat} {f : Packet} {fs : List Packet} {n : Nat} : Related d f → f.offset * 8 = start →
    f.moreFragments = true → f.payload = (d.payload.drop start).take ((n + 1) * 8) →
    f.payload.length = (n + 1) * 8 → Fragments d (start + (n + 1) * 8) fs → Fragments d start (f :: fs)

theorem Fragments.related {d f : Packet} {start : Nat} {fs : List Packet} (h : Fragments d start fs)
    (hf : f ∈ fs) : Related d f := by
  induction h
  case last hr _ _ _ _ => exact List.mem_singleton.mp hf ▸ hr
  case more hr _ _ _ _ _ hi =>
    rcases List.mem_cons.mp hf with rfl | hf
    · exact hr
    · exact hi hf

theorem Fragments.payload_ne_nil {d f : Packet} {start : Nat} {fs : List Packet} (h : Fragments d start fs)
    (hf : f ∈ fs) : f.payload ≠ [] := by
  induction h
  case last hne => exact List.mem_singleton.mp hf ▸ hne
  case more hl _ hi =>
    rcases List.mem_cons.mp hf with rfl | hf
    · exact List.ne_nil_of_length_pos (by omega)
    · exact hi hf

-- The fragments in order have the payload.
theorem Fragments.payload {d : Packet} {start : Nat} {fs : List Packet} (h : Fragments d start fs) :
    (fs.map Packet.payload).flatten = d.payload.drop start := by
  induction h
  case last _ _ _ hp _ => simp [hp]
  case more start f fs n _ _ _ hp _ _ hi =>
    rw [List.map_cons, List.flatten_cons, hi, hp, ← List.drop_drop, List.take_append_drop]

-- A first fragment has the first bytes: eight of them, or all.
theorem Fragments.first {d f : Packet} {start : Nat} {fs : List Packet} (h : Fragments d start fs)
    (hf : f ∈ fs) (ho : f.offset = 0) :
    start = 0 ∧ (f.payload = d.payload ∨ 8 ≤ f.payload.length ∧ ∃ n, f.payload = d.payload.take n) := by
  induction h
  case last start f' _ hs _ hp _ =>
    obtain rfl := List.mem_singleton.mp hf
    have hz : start = 0 := by omega
    subst hz
    exact ⟨rfl, .inl hp⟩
  case more start f' fs n _ hs _ hp hl _ hi =>
    rcases List.mem_cons.mp hf with rfl | hf
    case inl =>
      have hz : start = 0 := by omega
      subst hz
      exact ⟨rfl, .inr ⟨by omega, _, hp⟩⟩
    case inr =>
      have := (hi hf).1
      omega

end Ipv4
