import Mathlib.Data.List.Induction
import Mathlib.Tactic.Ring
import Mathlib.Algebra.Ring.Nat

-- Numbers in network byte order, and sequences cut into pieces.
namespace Bytes

-- `from_be_bytes`.
def ofBe (bs : List UInt8) : Nat :=
  bs.foldl (fun n b => n * 256 + b.toNat) 0

-- `to_be_bytes` of a number with this many bytes; what does not fit is cut off.
def toBe : Nat → Nat → List UInt8
  | 0, _         => []
  | width + 1, n => toBe width (n / 256) ++ [.ofNat n]

@[simp]
theorem length_toBe (width n : Nat) : (toBe width n).length = width := by
  induction width generalizing n
  case zero          => rfl
  case succ width hi => simp [toBe, hi]

theorem toBe_succ (width n : Nat) : toBe (width + 1) n = .ofNat (n / 256 ^ width) :: toBe width n := by
  induction width generalizing n
  case zero => simp [toBe]
  case succ width hi =>
    rw [toBe, hi, toBe, Nat.div_div_eq_div_mul, ← Nat.pow_succ']
    rfl

-- A number whose first digits have already been read.
theorem foldl_toBe (width n acc : Nat) :
    (toBe width n).foldl (fun n b => n * 256 + b.toNat) acc = acc * 256 ^ width + n % 256 ^ width := by
  induction width generalizing n
  case zero => simp [toBe, Nat.mod_one]
  case succ width hi =>
    have hp : 256 ^ (width + 1) = 256 * 256 ^ width := Nat.pow_succ'
    rw [toBe, List.foldl_append, hi, hp, Nat.mod_mul]
    simp only [List.foldl, UInt8.toNat_ofNat']
    rw [Nat.add_mul, Nat.mul_left_comm acc, Nat.mul_comm 256 (acc * _)]
    omega

theorem ofBe_toBe (width n : Nat) : ofBe (toBe width n) = n % 256 ^ width := by
  simp [ofBe, foldl_toBe]

theorem ofBe_toBe_of_lt {width n : Nat} (h : n < 256 ^ width) : ofBe (toBe width n) = n := by
  rw [ofBe_toBe, Nat.mod_eq_of_lt h]

theorem ofBe_toBe_bitVec {w : Nat} (width : Nat) (v : BitVec w) (h : 2 ^ w = 256 ^ width) :
    BitVec.ofNat w (ofBe (toBe width v.toNat)) = v := by
  rw [ofBe_toBe_of_lt (h ▸ v.isLt), BitVec.ofNat_toNat, BitVec.setWidth_eq]

-- What has been read so far, and one more digit for each byte.
theorem foldl_lt (bs : List UInt8) (acc : Nat) :
    bs.foldl (fun n b => n * 256 + b.toNat) acc < (acc + 1) * 256 ^ bs.length := by
  induction bs generalizing acc
  case nil => simp
  case cons b bs hi =>
    have hb := b.toNat_lt
    rw [List.foldl_cons, List.length_cons, Nat.pow_succ', ← Nat.mul_assoc]
    refine (hi _).trans_le (Nat.mul_le_mul_right _ ?_)
    omega

theorem ofBe_lt (bs : List UInt8) : ofBe bs < 256 ^ bs.length := by
  have h := foldl_lt bs 0
  rwa [Nat.zero_add, Nat.one_mul] at h

theorem toBe_ofBe (bs : List UInt8) : toBe bs.length (ofBe bs) = bs := by
  induction bs using List.reverseRecOn
  case nil => rfl
  case append_singleton bs b hi =>
    have hb := b.toNat_lt
    have ho : ofBe (bs ++ [b]) = ofBe bs * 256 + b.toNat := by simp [ofBe]
    have hd : (ofBe bs * 256 + b.toNat) / 256 = ofBe bs := by omega
    have hm : UInt8.ofNat (ofBe bs * 256 + b.toNat) = b := by
      apply UInt8.toNat_inj.mp
      rw [UInt8.toNat_ofNat']
      omega
    rw [ho, List.length_append, List.length_singleton, toBe, hd, hi, hm]

theorem toBe_ofBe_of_length {bs : List UInt8} {width : Nat} (h : bs.length = width) :
    toBe width (ofBe bs) = bs :=
  h ▸ toBe_ofBe bs

theorem toNat_ofBe {w : Nat} {bs : List UInt8} (h : 2 ^ w = 256 ^ bs.length) :
    (BitVec.ofNat w (ofBe bs)).toNat = ofBe bs := by
  rw [BitVec.toNat_ofNat, Nat.mod_eq_of_lt (h ▸ ofBe_lt bs)]

theorem toBe_two (n : Nat) : toBe 2 n = [.ofNat (n / 256), .ofNat n] :=
  rfl

theorem toBe_four (n : Nat) :
    toBe 4 n = [.ofNat (n / 256 / 256 / 256), .ofNat (n / 256 / 256), .ofNat (n / 256), .ofNat n] :=
  rfl

-- A field with its length, which is a byte.
def field (bs : List UInt8) : List UInt8 :=
  .ofNat bs.length :: bs

theorem ofNat_inj {m n : Nat} (hm : m < 256) (hn : n < 256) (h : UInt8.ofNat m = .ofNat n) : m = n := by
  have := congrArg UInt8.toNat h
  rwa [UInt8.toNat_ofNat', UInt8.toNat_ofNat', Nat.mod_eq_of_lt hm, Nat.mod_eq_of_lt hn] at this

theorem field_append_inj {as bs as' bs' : List UInt8} (ha : as.length ≤ 255) (hb : bs.length ≤ 255)
    (h : field as ++ as' = field bs ++ bs') : as = bs ∧ as' = bs' := by
  rw [field, field, List.cons_append, List.cons_append] at h
  obtain ⟨hl, ht⟩ := List.cons.inj h
  exact List.append_inj ht (ofNat_inj (Nat.lt_succ_of_le ha) (Nat.lt_succ_of_le hb) hl)

-- Numbers of as many bytes, and what follows them.
theorem toBe_append_inj {width m n : Nat} (hm : m < 256 ^ width) (hn : n < 256 ^ width) {as bs : List UInt8}
    (h : toBe width m ++ as = toBe width n ++ bs) : m = n ∧ as = bs := by
  obtain ⟨hv, hr⟩ := List.append_inj h (by rw [length_toBe, length_toBe])
  rw [← ofBe_toBe_of_lt hm, hv, ofBe_toBe_of_lt hn]
  exact ⟨rfl, hr⟩

-- `to_le_bytes` and back.
def toLe (width n : Nat) : List UInt8 :=
  (toBe width n).reverse

def ofLe (bs : List UInt8) : Nat :=
  ofBe bs.reverse

theorem length_toLe (width n : Nat) : (toLe width n).length = width := by
  rw [toLe, List.length_reverse, length_toBe]

theorem ofLe_toLe (width n : Nat) : ofLe (toLe width n) = n % 256 ^ width := by
  rw [ofLe, toLe, List.reverse_reverse, ofBe_toBe]

theorem ofLe_toLe_of_lt {width n : Nat} (h : n < 256 ^ width) : ofLe (toLe width n) = n := by
  rw [ofLe_toLe, Nat.mod_eq_of_lt h]

theorem toLe_succ (w n : Nat) : toLe (w + 1) n = .ofNat n :: toLe w (n / 256) := by
  rw [toLe, toBe, List.reverse_append]
  rfl

theorem toLe_inj {w m n : Nat} (hm : m < 256 ^ w) (hn : n < 256 ^ w) (h : toLe w m = toLe w n) : m = n := by
  rw [← ofLe_toLe_of_lt hm, h, ofLe_toLe_of_lt hn]

-- The first bytes are those of the number without its last digits.
theorem take_toBe {width k : Nat} (h : k ≤ width) (n : Nat) :
    (toBe width n).take k = toBe k (n / 256 ^ (width - k)) := by
  induction width generalizing n
  case zero => rw [Nat.le_zero.mp h]; rfl
  case succ width hi =>
    by_cases hk : k ≤ width
    case pos =>
      rw [toBe, List.take_append_of_le_length (by rwa [length_toBe]), hi hk, Nat.div_div_eq_div_mul,
        Nat.succ_sub hk, Nat.pow_succ']
    case neg =>
      have hk : k = width + 1 := Nat.le_antisymm h (Nat.lt_of_not_le hk)
      rw [hk, List.take_of_length_le (by rw [length_toBe]), Nat.sub_self, Nat.pow_zero, Nat.div_one]

theorem toBe_inj {width m n : Nat} (hm : m < 256 ^ width) (hn : n < 256 ^ width) :
    toBe width m = toBe width n ↔ m = n := by
  constructor
  case mp  => exact fun h => by rw [← ofBe_toBe_of_lt hm, h, ofBe_toBe_of_lt hn]
  case mpr => exact fun h => by rw [h]

variable {α : Type}

-- `usize::div_ceil`.
def divCeil (a b : Nat) : Nat :=
  (a + b - 1) / b

-- The piece with this index; the last one can be shorter.
def piece (size : Nat) (l : List α) (i : Nat) : List α :=
  (l.drop (i * size)).take size

-- `slice::chunks`.
def chunks (size : Nat) (l : List α) : List (List α) :=
  (List.range (divCeil l.length size)).map (piece size l)

theorem le_divCeil_mul {a b : Nat} (h : 0 < b) : a ≤ divCeil a b * b := by
  have hd := Nat.div_add_mod (a + b - 1) b
  have hm := Nat.mod_lt (a + b - 1) h
  rw [Nat.mul_comm] at hd
  simp only [divCeil]
  omega

theorem length_piece_le (size : Nat) (l : List α) (i : Nat) : (piece size l i).length ≤ size :=
  List.length_take_le _ _

theorem flatten_pieces (size : Nat) (l : List α) (n : Nat) :
    ((List.range n).map (piece size l)).flatten = l.take (n * size) := by
  induction n
  case zero => simp
  case succ n hi =>
    rw [List.range_succ, List.map_append, List.flatten_append, hi, Nat.succ_mul, List.take_add]
    simp [piece]

theorem flatten_chunks {size : Nat} (h : 0 < size) (l : List α) : (chunks size l).flatten = l := by
  rw [chunks, flatten_pieces, List.take_of_length_le (le_divCeil_mul h)]

-- No chunk is empty.
theorem ne_nil_of_mem_chunks {size : Nat} (h : 0 < size) {l chunk : List α} (hm : chunk ∈ chunks size l) : chunk ≠ [] := by
  obtain ⟨i, hi, rfl⟩ := List.mem_map.mp hm
  have hlt : i + 1 ≤ (l.length + size - 1) / size := List.mem_range.mp hi
  rw [Nat.le_div_iff_mul_le h, Nat.succ_mul] at hlt
  refine List.ne_nil_of_length_pos ?_
  rw [piece, List.length_take, List.length_drop]
  omega

theorem length_chunks (size : Nat) (l : List α) : (chunks size l).length = divCeil l.length size := by
  simp [chunks]

end Bytes

-- Shifts of machine words.
namespace Words

variable {w k n v : Nat}

-- `<<`, which fails where it has to shift by the width of the word or more.
def shl? (x : BitVec w) (k : Nat) : Option (BitVec w) :=
  if k < w then some (x <<< k) else none

theorem shl?_of_lt (x : BitVec w) (h : k < w) : shl? x k = some (x <<< k) :=
  if_pos h

theorem or_eq_add (h : v < 2 ^ k) : v ||| 2 ^ k * n = n * 2 ^ k + v := by
  rw [Nat.or_comm, ← Nat.two_pow_add_eq_or_of_lt h, Nat.mul_comm]

-- A shift clears the bits that are put in afterwards.
theorem shiftLeft_mod_or (hk : k ≤ w) (hv : v < 2 ^ k) :
    n <<< k % 2 ^ w ||| v = n <<< k % 2 ^ w + v := by
  have hs : n <<< k % 2 ^ w = 2 ^ k * (n % 2 ^ (w - k)) := by
    rw [Nat.shiftLeft_eq, Nat.mul_comm, ← Nat.mul_mod_mul_left, ← Nat.pow_add, Nat.add_sub_cancel' hk]
  rw [hs, Nat.two_pow_add_eq_or_of_lt hv]

end Words
