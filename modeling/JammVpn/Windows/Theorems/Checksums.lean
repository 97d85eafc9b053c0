import JammVpn.Lib.Ipv4
import JammVpn.Windows.Capture

-- When a segment already has the checksum that would be written into it.
namespace JammVpn.WinpkFilter

open Bytes Windows

theorem sum16_eq : ∀ (bs : List UInt8) (init : Nat), sum16 bs init = init + sum16 bs 0
  | [], _              => rfl
  | [a], init          => by simp [sum16]
  | a :: b :: bs, init => by
    rw [sum16, sum16_eq bs, sum16, sum16_eq bs (0 + _)]
    omega

theorem sum16_append {bs : List UInt8} (h : bs.length % 2 = 0) (cs : List UInt8) (init : Nat) :
    sum16 (bs ++ cs) init = sum16 cs (sum16 bs init) := by
  induction bs, init using sum16.induct
  case case1             => rfl
  case case2             => simp at h
  case case3 a b bs init hi =>
    simp only [List.length_cons] at h
    exact hi (by omega)

theorem sum16_toBe (v : Nat) (init : Nat) : sum16 (toBe 2 v) init = init + v % 65536 := by
  rw [toBe_two, sum16, sum16, UInt8.toNat_ofNat', UInt8.toNat_ofNat']
  omega

theorem append_slice (bs : List UInt8) (off : Nat) :
    bs = bs.take off ++ (slice bs off 2 ++ bs.drop (off + 2)) := by
  rw [slice, ← List.drop_drop, List.take_append_drop, List.take_append_drop]

theorem length_slice {bs : List UInt8} {start len : Nat} (h : start + len ≤ bs.length) :
    (slice bs start len).length = len := by
  rw [slice, List.length_take, List.length_drop]
  omega

theorem sum16_slice {bs : List UInt8} {off : Nat} (h : off + 2 ≤ bs.length) (init : Nat) :
    sum16 (slice bs off 2) init = init + ofBe (slice bs off 2) := by
  have hb := ofBe_lt (slice bs off 2)
  have he := toBe_ofBe_of_length (length_slice h)
  rw [length_slice h] at hb
  conv_lhs => rw [← he]
  rw [sum16_toBe]
  omega

theorem sum16_putU16 {bs : List UInt8} {off : Nat} (h : off + 2 ≤ bs.length) (heven : off % 2 = 0)
    {v : Nat} (hv : v < 65536) (init : Nat) :
    sum16 (putU16 bs off v) init + ofBe (slice bs off 2) = sum16 bs init + v := by
  have ht : (bs.take off).length % 2 = 0 := by
    rw [List.length_take]
    omega
  conv_rhs => rw [append_slice bs off]
  rw [putU16, List.append_assoc, sum16_append ht, sum16_append ht, sum16_append (by rw [length_toBe]),
    sum16_append (by rw [length_slice h]), sum16_toBe, sum16_slice h, sum16_eq, sum16_eq _ (_ + ofBe _)]
  omega

-- The carries make a sum modulo 65535 of it, which is zero only for zero.
theorem fold_eq (sum : Nat) : fold sum = 65535 - (if sum = 0 then 0 else (sum - 1) % 65535 + 1) := by
  induction sum using fold.induct
  case case1 sum h =>
    rw [fold, if_pos h]
    split <;> omega
  case case2 sum h hi =>
    rw [fold, if_neg h, hi]
    split <;> split <;> omega

theorem putU16_eq_self_iff {bs : List UInt8} {off v : Nat} (h : off + 2 ≤ bs.length) (hv : v < 65536) :
    putU16 bs off v = bs ↔ v = ofBe (slice bs off 2) := by
  have hp : putU16 bs off v = bs ↔ toBe 2 v = slice bs off 2 := by
    conv_lhs => rhs; rw [append_slice bs off]
    rw [putU16, List.append_assoc, List.append_cancel_left_eq, List.append_cancel_right_eq]
  rw [hp]
  constructor
  case mp => exact fun he => by rw [← he, ofBe_toBe_of_lt hv]
  case mpr =>
    rintro rfl
    exact toBe_ofBe_of_length (length_slice h)

-- A segment has its right checksum in place, or no room for one. There are two zeros: one of them means
-- for UDP that there is no checksum, and the other one is never written for TCP.
def ChecksumInPlace (proto : UInt8) (l4 : List UInt8) (pseudo : Nat) : Prop :=
  match checksumOffset proto with
  | none     => True
  | some off =>
    l4.length < off + 2 ∨
      sum16 l4 pseudo % 65535 = 0 ∧ ofBe (slice l4 off 2) ≠ if proto = 17 then 0 else 65535

theorem checksumOffset_even {proto : UInt8} {off : Nat} (h : checksumOffset proto = some off) :
    off % 2 = 0 := by
  rw [checksumOffset] at h
  split at h
  case isTrue => cases h; rfl
  case isFalse =>
    split at h <;> cases h
    rfl

theorem setL4Checksum_eq_self_iff {pseudo : Nat} (hp : 0 < pseudo) (proto : UInt8) (l4 : List UInt8) :
    setL4Checksum proto l4 pseudo = l4 ↔ ChecksumInPlace proto l4 pseudo := by
  rw [setL4Checksum, ChecksumInPlace]
  cases ho : checksumOffset proto
  case none => exact iff_of_true rfl trivial
  case some off =>
    by_cases hl : l4.length < off + 2
    case pos => exact iff_of_true (if_pos hl) (.inl hl)
    case neg =>
      have hle : off + 2 ≤ l4.length := Nat.le_of_not_lt hl
      have hs := sum16_putU16 hle (checksumOffset_even ho) (by decide : 0 < 65536) pseudo
      have hpos := sum16_eq (putU16 l4 off 0) pseudo
      have hc : ofBe (slice l4 off 2) < 65536 := by
        have hb := ofBe_lt (slice l4 off 2)
        rwa [length_slice hle] at hb
      have hf := fold_eq (sum16 (putU16 l4 off 0) pseudo)
      have hlt : fold (sum16 (putU16 l4 off 0) pseudo) < 65535 := by
        rw [hf]
        split <;> omega
      dsimp only
      rw [if_neg hl, putU16_eq_self_iff hle (by split <;> omega), or_iff_right hl]
      rw [if_neg (by omega)] at hf
      by_cases hu : proto = 17
      case pos =>
        simp only [hu, true_and, if_true]
        split <;> omega
      case neg =>
        simp only [hu, false_and, if_false]
        omega

end JammVpn.WinpkFilter

-- Sums with their carries, and a segment whose checksum has been computed anew.
namespace JammVpn.WinpkFilter

open Bytes Windows

section Fold

variable {bs cs : List UInt8} {off v init i start len : Nat}

-- The sum with its carries added, as the receiver of a packet has it.
def folded (sum : Nat) : Nat :=
  if sum / 65536 = 0 then sum else folded (sum % 65536 + sum / 65536)
decreasing_by omega

theorem folded_eq (sum : Nat) : folded sum = if sum = 0 then 0 else (sum - 1) % 65535 + 1 := by
  induction sum using folded.induct
  case case1 sum h =>
    rw [folded, if_pos h]
    split <;> omega
  case case2 sum h hi =>
    rw [folded, if_neg h, hi]
    split <;> split <;> omega

-- A sum and its checksum.
theorem folded_add_fold (sum : Nat) : folded (sum + fold sum) = 65535 := by
  rw [folded_eq, fold_eq]
  split <;> split <;> omega

theorem folded_of_fold_eq_zero {sum : Nat} (h : fold sum = 0) : folded (sum + 65535) = 65535 := by
  rw [fold_eq] at h
  rw [folded_eq]
  split at h
  case isTrue  => cases h
  case isFalse => split <;> omega

theorem fold_lt (sum : Nat) : fold sum < 65536 := by
  rw [fold_eq]
  split <;> omega

theorem length_putU16 (h : off + 2 ≤ bs.length) (v : Nat) : (putU16 bs off v).length = bs.length := by
  simp only [putU16, List.length_append, List.length_take, List.length_drop, length_toBe]
  omega

-- Writing a word again.
theorem putU16_putU16 (h : off + 2 ≤ bs.length) (u v : Nat) : putU16 (putU16 bs off u) off v = putU16 bs off v := by
  have hl : (bs.take off).length = off := by
    rw [List.length_take]
    omega
  have hl' : (bs.take off ++ toBe 2 u).length = off + 2 := by
    rw [List.length_append, hl, length_toBe]
  rw [putU16, putU16, putU16, List.drop_left' hl', List.append_assoc (bs.take off) (toBe 2 u), List.take_left' hl]

theorem getElem?_putU16 (h : off + 2 ≤ bs.length) (hi : i < off ∨ off + 2 ≤ i) (v : Nat) :
    (putU16 bs off v)[i]? = bs[i]? := by
  have hl : (bs.take off).length = off := by
    rw [List.length_take]
    omega
  have hl' : (bs.take off ++ toBe 2 v).length = off + 2 := by
    rw [List.length_append, hl, length_toBe]
  rw [putU16]
  obtain hi | hi := hi
  case inl =>
    rw [List.append_assoc, List.getElem?_append_left (by omega), List.getElem?_take_of_lt hi]
  case inr =>
    rw [List.getElem?_append_right (by omega), hl', List.getElem?_drop, Nat.add_sub_of_le hi]

theorem slice_putU16 (h : off + 2 ≤ bs.length) (hs : start + len ≤ off ∨ off + 2 ≤ start) (v : Nat) :
    slice (putU16 bs off v) start len = slice bs start len := by
  apply List.ext_getElem?
  intro i
  rw [slice, slice, List.getElem?_take, List.getElem?_take, List.getElem?_drop, List.getElem?_drop]
  by_cases hi : i < len
  case neg => rw [if_neg hi, if_neg hi]
  case pos => rw [if_pos hi, if_pos hi, getElem?_putU16 h (by omega)]

-- The word that is written.
theorem slice_putU16_self (h : off + 2 ≤ bs.length) (hv : v < 65536) : ofBe (slice (putU16 bs off v) off 2) = v := by
  have hl : (bs.take off).length = off := by
    rw [List.length_take]
    omega
  rw [slice, putU16, List.append_assoc, List.drop_left' hl, List.take_left' (length_toBe 2 v)]
  exact ofBe_toBe_of_lt hv

-- A checksum is the only word that is added to the sum.
theorem sum16_putU16_zero (h : off + 2 ≤ bs.length) (heven : off % 2 = 0) (hv : v < 65536) (init : Nat) :
    sum16 (putU16 bs off v) init = sum16 (putU16 bs off 0) init + v := by
  have hv := sum16_putU16 h heven hv init
  have hz := sum16_putU16 h heven (by decide : 0 < 65536) init
  omega

theorem folded_putU16 (h : off + 2 ≤ bs.length) (heven : off % 2 = 0) (init : Nat) :
    folded (sum16 (putU16 bs off (fold (sum16 (putU16 bs off 0) init))) init) = 65535 := by
  rw [sum16_putU16_zero h heven (fold_lt _)]
  exact folded_add_fold _

end Fold

section Segment

variable {proto : UInt8} {l4 : List UInt8} {off pseudo i : Nat}

-- A segment with its checksum. For UDP, zero would mean that there is none.
def SegmentOk (proto : UInt8) (l4 : List UInt8) (pseudo : Nat) : Prop :=
  folded (sum16 l4 pseudo) = 65535 ∧ (proto = 17 → ofBe (slice l4 6 2) ≠ 0)

-- The segment is one of TCP or UDP, with room for the checksum.
def Carries (proto : UInt8) (len : Nat) : Prop :=
  proto = 6 ∧ 18 ≤ len ∨ proto = 17 ∧ 8 ≤ len

theorem Carries.offset {len : Nat} (h : Carries proto len) :
    ∃ off, checksumOffset proto = some off ∧ off + 2 ≤ len := by
  obtain ⟨rfl, hl⟩ | ⟨rfl, hl⟩ := h
  case inl => exact ⟨16, rfl, hl⟩
  case inr => exact ⟨6, rfl, hl⟩

theorem length_setL4Checksum (proto : UInt8) (l4 : List UInt8) (pseudo : Nat) :
    (setL4Checksum proto l4 pseudo).length = l4.length := by
  rw [setL4Checksum]
  split
  case h_1 => rfl
  case h_2 off ho =>
    split
    case isTrue     => rfl
    case isFalse hl => exact length_putU16 (Nat.le_of_not_lt hl) _

-- Where the bytes of the checksum are.
def checksumBytes (proto : UInt8) (len : Nat) : List Nat :=
  (checksumOffset proto).elim [] fun off => if len < off + 2 then [] else [off, off + 1]

theorem getElem?_setL4Checksum (hi : i ∉ checksumBytes proto l4.length) :
    (setL4Checksum proto l4 pseudo)[i]? = l4[i]? := by
  rw [setL4Checksum]
  split
  case h_1 => rfl
  case h_2 off ho =>
    split
    case isTrue => rfl
    case isFalse hl =>
      simp only [checksumBytes, ho, Option.elim_some, if_neg hl, List.mem_cons, List.not_mem_nil, or_false,
        not_or] at hi
      exact getElem?_putU16 (Nat.le_of_not_lt hl) (by omega) _

theorem segmentOk_setL4Checksum (h : Carries proto l4.length) (pseudo : Nat) :
    SegmentOk proto (setL4Checksum proto l4 pseudo) pseudo := by
  obtain ⟨off, ho, hl⟩ := h.offset
  have heven := checksumOffset_even ho
  rw [setL4Checksum, ho]
  dsimp only
  rw [if_neg (Nat.not_lt_of_le hl)]
  by_cases hu : proto = 17 ∧ fold (sum16 (putU16 l4 off 0) pseudo) = 0
  case neg =>
    rw [if_neg hu]
    refine ⟨folded_putU16 hl heven pseudo, fun hp => ?_⟩
    subst hp
    cases ho
    rw [slice_putU16_self hl (fold_lt _)]
    exact fun hz => hu ⟨rfl, hz⟩
  case pos =>
    rw [if_pos hu]
    obtain ⟨rfl, hz⟩ := hu
    cases ho
    constructor
    case left =>
      rw [sum16_putU16_zero hl heven (by decide)]
      exact folded_of_fold_eq_zero hz
    case right =>
      rw [slice_putU16_self hl (by decide)]
      decide

-- The checksum that is in place is the one that would be written.
theorem setL4Checksum_idem (proto : UInt8) (l4 : List UInt8) (pseudo : Nat) :
    setL4Checksum proto (setL4Checksum proto l4 pseudo) pseudo = setL4Checksum proto l4 pseudo := by
  cases ho : checksumOffset proto
  case none => simp only [setL4Checksum, ho]
  case some off =>
    by_cases hl : l4.length < off + 2
    case pos => simp only [setL4Checksum, ho, if_pos hl]
    case neg =>
      have hle := Nat.le_of_not_lt hl
      have hw : ∃ v, setL4Checksum proto l4 pseudo = putU16 l4 off v := by
        simp only [setL4Checksum, ho, if_neg hl]
        exact ⟨_, rfl⟩
      obtain ⟨v, hv⟩ := hw
      have hl' : ¬(putU16 l4 off v).length < off + 2 := by rwa [length_putU16 hle]
      conv_lhs => rw [hv]
      simp only [setL4Checksum, ho, if_neg hl, if_neg hl', putU16_putU16 hle]

end Segment

end JammVpn.WinpkFilter
