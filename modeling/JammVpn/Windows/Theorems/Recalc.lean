import JammVpn.Windows.Theorems.Checksums

-- The checksums of a packet after they have been computed anew.
namespace JammVpn.WinpkFilter

open Bytes Windows

section Fields

def version (ip : List UInt8) : Nat :=
  (ip.getD 0 0).toNat / 16

def ihl (ip : List UInt8) : Nat :=
  (ip.getD 0 0).toNat % 16 * 4

def totalLen (ip : List UInt8) : Nat :=
  ofBe (slice ip 2 2)

def payloadLen (ip : List UInt8) : Nat :=
  ofBe (slice ip 4 2)

-- The header and the lengths in it are consistent with each other and with the buffer.
structure ValidV4 (ip : List UInt8) : Prop where
  version : version ip = 4
  minimum : 20 ≤ ip.length
  header  : 20 ≤ ihl ip
  total   : ihl ip ≤ totalLen ip
  buffer  : totalLen ip ≤ ip.length

structure ValidV6 (ip : List UInt8) : Prop where
  version : version ip = 6
  minimum : 40 ≤ ip.length
  buffer  : 40 + payloadLen ip ≤ ip.length

def headerSum (ip : List UInt8) : Nat :=
  sum16 (ip.take (ihl ip)) 0

def protoV4 (ip : List UInt8) : UInt8 :=
  ip.getD 9 0

def protoV6 (ip : List UInt8) : UInt8 :=
  ip.getD 6 0

def segmentV4 (ip : List UInt8) : List UInt8 :=
  slice ip (ihl ip) (totalLen ip - ihl ip)

def segmentV6 (ip : List UInt8) : List UInt8 :=
  slice ip 40 (payloadLen ip)

-- The sum of the addresses, the protocol and the length of the segment.
def pseudoV4 (ip : List UInt8) : Nat :=
  sum16 (slice ip 16 4) (sum16 (slice ip 12 4) 0) + ((protoV4 ip).toNat + (segmentV4 ip).length)

def pseudoV6 (ip : List UInt8) : Nat :=
  sum16 (slice ip 24 16) (sum16 (slice ip 8 16) 0) + ((protoV6 ip).toNat + (segmentV6 ip).length)

-- Where the checksums of a packet are.
def checksumsV4 (ip : List UInt8) : List Nat :=
  [10, 11] ++ (checksumBytes (protoV4 ip) (segmentV4 ip).length).map (ihl ip + ·)

def checksumsV6 (ip : List UInt8) : List Nat :=
  (checksumBytes (protoV6 ip) (segmentV6 ip).length).map (40 + ·)

end Fields

section Splice

variable {ip q h l : List UInt8} {start len i : Nat}

-- A header and a segment in the place of those of a packet.
def splice (ip : List UInt8) (start len : Nat) (h l : List UInt8) : List UInt8 :=
  h ++ l ++ ip.drop (start + len)

theorem length_splice (hh : h.length = start) (hl : l.length = len) (hb : start + len ≤ ip.length) :
    (splice ip start len h l).length = ip.length := by
  simp only [splice, List.length_append, List.length_drop]
  omega

theorem take_splice (hh : h.length = start) : (splice ip start len h l).take start = h := by
  rw [splice, List.append_assoc, List.take_left' hh]

theorem slice_splice (hh : h.length = start) (hl : l.length = len) :
    slice (splice ip start len h l) start len = l := by
  rw [slice, splice, List.append_assoc, List.drop_left' hh, List.take_left' hl]

theorem drop_splice (ip : List UInt8) (hh : h.length = start) (hl : l.length = len) :
    (splice ip start len h l).drop (start + len) = ip.drop (start + len) := by
  rw [splice, List.drop_left' (by rw [List.length_append, hh, hl])]

theorem getElem?_splice (hh : h.length = start) (hl : l.length = len)
    (hhead : i < start → h[i]? = ip[i]?) (hseg : ∀ j < len, i = start + j → l[j]? = (slice ip start len)[j]?) :
    (splice ip start len h l)[i]? = ip[i]? := by
  rw [splice]
  by_cases h₁ : i < start
  case pos => rw [List.append_assoc, List.getElem?_append_left (hh ▸ h₁), hhead h₁]
  case neg =>
    by_cases h₂ : i < start + len
    case pos =>
      have hj : i - start < len := by omega
      have hi : start + (i - start) = i := Nat.add_sub_of_le (Nat.le_of_not_lt h₁)
      rw [List.getElem?_append_left (by rwa [List.length_append, hh, hl]),
        List.getElem?_append_right (by omega), hh, hseg _ hj hi.symm, slice, List.getElem?_take, if_pos hj,
        List.getElem?_drop, hi]
    case neg =>
      have hlen : (h ++ l).length = start + len := by rw [List.length_append, hh, hl]
      rw [List.getElem?_append_right (by omega), hlen, List.getElem?_drop,
        Nat.add_sub_of_le (Nat.le_of_not_lt h₂)]

theorem slice_congr (h : ∀ i, start ≤ i → i < start + len → q[i]? = ip[i]?) :
    slice q start len = slice ip start len := by
  apply List.ext_getElem?
  intro i
  rw [slice, slice, List.getElem?_take, List.getElem?_take, List.getElem?_drop, List.getElem?_drop]
  by_cases hi : i < len
  case neg => rw [if_neg hi, if_neg hi]
  case pos => rw [if_pos hi, if_pos hi, h _ (Nat.le_add_right _ _) (Nat.add_lt_add_left hi _)]

theorem getD_congr (h : q[i]? = ip[i]?) : q.getD i 0 = ip.getD i 0 := by
  rw [List.getD_eq_getElem?_getD, List.getD_eq_getElem?_getD, h]

end Splice

section V4

variable {ip : List UInt8} {n i : Nat}

theorem take_putU16 {off : Nat} (hn : off + 2 ≤ n) (v : Nat) (bs : List UInt8) (h : off ≤ bs.length) :
    (putU16 bs off v).take n = putU16 (bs.take n) off v := by
  have hl : (bs.take off ++ toBe 2 v).length = off + 2 := by
    rw [List.length_append, List.length_take, length_toBe]
    omega
  rw [putU16, putU16, List.take_append, hl, List.take_of_length_le (by omega), List.take_take,
    Nat.min_eq_left (by omega), List.drop_take]

-- A header with its checksum.
def newHeader (h : List UInt8) : List UInt8 :=
  putU16 h 10 (fold (sum16 (putU16 h 10 0) 0))

theorem ValidV4.length_header (h : ValidV4 ip) : (ip.take (ihl ip)).length = ihl ip :=
  List.length_take_of_le (h.total.trans h.buffer)

theorem ValidV4.length_newHeader (h : ValidV4 ip) : (newHeader (ip.take (ihl ip))).length = ihl ip := by
  have := h.header
  rw [newHeader, length_putU16 (by rw [h.length_header]; omega), h.length_header]

theorem ValidV4.length_segment (h : ValidV4 ip) : (segmentV4 ip).length = totalLen ip - ihl ip :=
  length_slice (by rw [Nat.add_sub_of_le h.total]; exact h.buffer)

theorem recalcV4_of_valid (h : ValidV4 ip) : recalcV4 ip = splice ip (ihl ip) (totalLen ip - ihl ip)
    (newHeader (ip.take (ihl ip))) (setL4Checksum (protoV4 ip) (segmentV4 ip) (pseudoV4 ip)) := by
  have hmin := h.minimum
  have hheader := h.header
  have hle := h.total.trans h.buffer
  have hput : ∀ v, slice (putU16 ip 10 v) (ihl ip) (totalLen ip - ihl ip) = segmentV4 ip := fun v =>
    slice_putU16 (by omega) (.inr (by omega)) v
  have htake : ∀ v, (putU16 ip 10 v).take (ihl ip) = putU16 (ip.take (ihl ip)) 10 v := fun v =>
    take_putU16 (by omega) v ip (by omega)
  have hdrop : ∀ v, (putU16 ip 10 v).drop (totalLen ip) = ip.drop (totalLen ip) := by
    intro v
    apply List.ext_getElem?
    intro j
    have := h.total
    rw [List.getElem?_drop, List.getElem?_drop, getElem?_putU16 (by omega) (.inr (by omega))]
  have hcond : ¬(ihl ip < 20 ∨ ip.length < ihl ip ∨ totalLen ip < ihl ip ∨ ip.length < totalLen ip) := by
    have := h.total
    have := h.buffer
    omega
  have hsum : ∃ c, c = fold (sum16 ((putU16 ip 10 0).take (ihl ip)) 0) := ⟨_, rfl⟩
  obtain ⟨c, hc⟩ := hsum
  calc recalcV4 ip
    _ = (putU16 ip 10 c).take (ihl ip) ++
          setL4Checksum (protoV4 ip) (slice (putU16 ip 10 c) (ihl ip) (totalLen ip - ihl ip))
            (sum16 (slice ip 16 4) (sum16 (slice ip 12 4) 0) +
              ((protoV4 ip).toNat + (slice (putU16 ip 10 c) (ihl ip) (totalLen ip - ihl ip)).length)) ++
          (putU16 ip 10 c).drop (totalLen ip) := by
      rw [hc]
      exact (if_neg (Nat.not_lt_of_le hmin)).trans (if_neg hcond)
    _ = _ := by
      rw [hput, htake, hdrop, hc, htake, splice, Nat.add_sub_of_le h.total]
      rfl

theorem newHeader_newHeader {h : List UInt8} (hl : 12 ≤ h.length) : newHeader (newHeader h) = newHeader h := by
  conv_lhs => rw [newHeader]
  rw [newHeader, putU16_putU16 hl, putU16_putU16 hl]

theorem getElem?_recalcV4 (h : ValidV4 ip) (hi : i ∉ checksumsV4 ip) : (recalcV4 ip)[i]? = ip[i]? := by
  have hheader := h.header
  simp only [checksumsV4, List.mem_append, List.mem_cons, List.not_mem_nil, or_false, not_or] at hi
  rw [recalcV4_of_valid h]
  apply getElem?_splice h.length_newHeader ((length_setL4Checksum ..).trans h.length_segment)
  case hhead =>
    intro hlt
    rw [newHeader, getElem?_putU16 (by rw [h.length_header]; omega) (by omega), List.getElem?_take_of_lt hlt]
  case hseg =>
    intro j _ hj
    apply getElem?_setL4Checksum
    exact fun hm => hi.right (List.mem_map.mpr ⟨j, hm, hj.symm⟩)

theorem length_recalcV4 (h : ValidV4 ip) : (recalcV4 ip).length = ip.length := by
  rw [recalcV4_of_valid h]
  apply length_splice h.length_newHeader ((length_setL4Checksum ..).trans h.length_segment)
  rw [Nat.add_sub_of_le h.total]
  exact h.buffer

-- The bytes of the header besides its checksum.
theorem not_mem_checksumsV4 (hi : i < ihl ip) (hc : i < 10 ∨ 12 ≤ i) : i ∉ checksumsV4 ip := by
  simp only [checksumsV4, List.mem_append, List.mem_cons, List.not_mem_nil, or_false, List.mem_map, not_or,
    not_exists, not_and]
  refine ⟨⟨by omega, by omega⟩, fun j _ hj => ?_⟩
  omega

theorem getElem?_header_recalcV4 (h : ValidV4 ip) (hi : i < 20) (hc : i < 10 ∨ 12 ≤ i) :
    (recalcV4 ip)[i]? = ip[i]? :=
  getElem?_recalcV4 h (not_mem_checksumsV4 (hi.trans_le h.header) hc)

theorem slice_recalcV4 (h : ValidV4 ip) {start len : Nat} (hi : start + len ≤ 20)
    (hc : start + len ≤ 10 ∨ 12 ≤ start) : slice (recalcV4 ip) start len = slice ip start len :=
  slice_congr fun _ _ _ => getElem?_header_recalcV4 h (by omega) (by omega)

theorem getD_recalcV4 (h : ValidV4 ip) (hi : i < 10) : (recalcV4 ip).getD i 0 = ip.getD i 0 :=
  getD_congr (getElem?_header_recalcV4 h (by omega) (.inl hi))

theorem ihl_recalcV4 (h : ValidV4 ip) : ihl (recalcV4 ip) = ihl ip := by
  rw [ihl, ihl, getD_recalcV4 h (by decide)]

theorem totalLen_recalcV4 (h : ValidV4 ip) : totalLen (recalcV4 ip) = totalLen ip := by
  rw [totalLen, totalLen, slice_recalcV4 h (by decide) (by decide)]

theorem protoV4_recalcV4 (h : ValidV4 ip) : protoV4 (recalcV4 ip) = protoV4 ip :=
  getD_recalcV4 h (by decide)

theorem version_recalcV4 (h : ValidV4 ip) : version (recalcV4 ip) = version ip := by
  rw [version, version, getD_recalcV4 h (by decide)]

theorem ValidV4.recalcV4 (h : ValidV4 ip) : ValidV4 (recalcV4 ip) where
  version := (version_recalcV4 h).trans h.version
  minimum := (length_recalcV4 h).symm ▸ h.minimum
  header  := (ihl_recalcV4 h).symm ▸ h.header
  total   := by
    rw [ihl_recalcV4 h, totalLen_recalcV4 h]
    exact h.total
  buffer  := by
    rw [totalLen_recalcV4 h, length_recalcV4 h]
    exact h.buffer

theorem take_recalcV4 (h : ValidV4 ip) : (recalcV4 ip).take (ihl ip) = newHeader (ip.take (ihl ip)) := by
  rw [recalcV4_of_valid h, take_splice h.length_newHeader]

theorem segmentV4_recalcV4 (h : ValidV4 ip) :
    segmentV4 (recalcV4 ip) = setL4Checksum (protoV4 ip) (segmentV4 ip) (pseudoV4 ip) := by
  conv_lhs => rw [segmentV4, ihl_recalcV4 h, totalLen_recalcV4 h, recalcV4_of_valid h]
  exact slice_splice h.length_newHeader ((length_setL4Checksum ..).trans h.length_segment)

theorem pseudoV4_recalcV4 (h : ValidV4 ip) : pseudoV4 (recalcV4 ip) = pseudoV4 ip := by
  rw [pseudoV4, pseudoV4, protoV4_recalcV4 h, segmentV4_recalcV4 h, length_setL4Checksum,
    slice_recalcV4 h (by decide) (by decide), slice_recalcV4 h (by decide) (by decide)]

-- A packet whose checksums are those that its receiver computes.
structure ChecksumsOkV4 (ip : List UInt8) : Prop where
  header  : folded (headerSum ip) = 65535
  segment : Carries (protoV4 ip) (segmentV4 ip).length → SegmentOk (protoV4 ip) (segmentV4 ip) (pseudoV4 ip)

theorem checksumsOkV4_recalcV4 (h : ValidV4 ip) : ChecksumsOkV4 (recalcV4 ip) where
  header := by
    have hheader := h.header
    rw [headerSum, ihl_recalcV4 h, take_recalcV4 h]
    exact folded_putU16 (by rw [h.length_header]; omega) (by decide) 0
  segment := by
    rw [protoV4_recalcV4 h, segmentV4_recalcV4 h, pseudoV4_recalcV4 h, length_setL4Checksum]
    exact fun hc => segmentOk_setL4Checksum hc _

theorem recalcV4_recalcV4 (h : ValidV4 ip) : recalcV4 (recalcV4 ip) = recalcV4 ip := by
  have hheader := h.header
  have hd := drop_splice ip h.length_newHeader
    ((length_setL4Checksum (protoV4 ip) (segmentV4 ip) (pseudoV4 ip)).trans h.length_segment)
  rw [← recalcV4_of_valid h] at hd
  rw [recalcV4_of_valid h.recalcV4, ihl_recalcV4 h, totalLen_recalcV4 h, protoV4_recalcV4 h, segmentV4_recalcV4 h,
    pseudoV4_recalcV4 h, take_recalcV4 h, newHeader_newHeader (by rw [h.length_header]; omega),
    setL4Checksum_idem, splice, hd]
  exact (recalcV4_of_valid h).symm

theorem recalcV4_of_not_valid (hv : version ip = 4) (h : ¬ValidV4 ip) : recalcV4 ip = ip := by
  rw [recalcV4]
  split
  case isTrue      => rfl
  case isFalse hl =>
    apply if_pos
    by_contra hc
    simp only [not_or, Nat.not_lt] at hc
    exact h ⟨hv, Nat.le_of_not_lt hl, hc.left, hc.right.right.left, hc.right.right.right⟩

end V4

section V6

variable {ip : List UInt8} {i : Nat}

theorem ValidV6.length_header (h : ValidV6 ip) : (ip.take 40).length = 40 :=
  List.length_take_of_le h.minimum

theorem ValidV6.length_segment (h : ValidV6 ip) : (segmentV6 ip).length = payloadLen ip :=
  length_slice h.buffer

theorem recalcV6_of_valid (h : ValidV6 ip) : recalcV6 ip = splice ip 40 (payloadLen ip) (ip.take 40)
    (setL4Checksum (protoV6 ip) (segmentV6 ip) (pseudoV6 ip)) := by
  have hmin : ¬ip.length < 40 := Nat.not_lt_of_le h.minimum
  by_cases hz : payloadLen ip = 0
  case neg =>
    have hcond : ¬(payloadLen ip = 0 ∨ ip.length < 40 + payloadLen ip) :=
      not_or.mpr ⟨hz, Nat.not_lt_of_le h.buffer⟩
    exact (if_neg hmin).trans (if_neg hcond)
  case pos =>
    -- There is no segment then, and nothing is written.
    have hs := h.length_segment
    have hl := (length_setL4Checksum (protoV6 ip) (segmentV6 ip) (pseudoV6 ip)).trans hs
    rw [hz] at hl
    rw [splice, List.eq_nil_of_length_eq_zero hl, hz, List.append_nil, Nat.add_zero, List.take_append_drop]
    exact (if_neg hmin).trans (if_pos (.inl hz))

theorem getElem?_recalcV6 (h : ValidV6 ip) (hi : i ∉ checksumsV6 ip) : (recalcV6 ip)[i]? = ip[i]? := by
  rw [recalcV6_of_valid h]
  apply getElem?_splice h.length_header ((length_setL4Checksum ..).trans h.length_segment)
  case hhead => exact fun hlt => List.getElem?_take_of_lt hlt
  case hseg =>
    intro j _ hj
    apply getElem?_setL4Checksum
    exact fun hm => hi (List.mem_map.mpr ⟨j, hm, hj.symm⟩)

theorem length_recalcV6 (h : ValidV6 ip) : (recalcV6 ip).length = ip.length := by
  rw [recalcV6_of_valid h]
  exact length_splice h.length_header ((length_setL4Checksum ..).trans h.length_segment) h.buffer

theorem take_recalcV6 (h : ValidV6 ip) : (recalcV6 ip).take 40 = ip.take 40 := by
  rw [recalcV6_of_valid h, take_splice h.length_header]

theorem getElem?_header_recalcV6 (h : ValidV6 ip) (hi : i < 40) : (recalcV6 ip)[i]? = ip[i]? := by
  rw [← List.getElem?_take_of_lt hi, take_recalcV6 h, List.getElem?_take_of_lt hi]

theorem slice_recalcV6 (h : ValidV6 ip) {start len : Nat} (hi : start + len ≤ 40) :
    slice (recalcV6 ip) start len = slice ip start len :=
  slice_congr fun _ _ hlt => getElem?_header_recalcV6 h (hlt.trans_le hi)

theorem payloadLen_recalcV6 (h : ValidV6 ip) : payloadLen (recalcV6 ip) = payloadLen ip := by
  rw [payloadLen, payloadLen, slice_recalcV6 h (by decide)]

theorem protoV6_recalcV6 (h : ValidV6 ip) : protoV6 (recalcV6 ip) = protoV6 ip :=
  getD_congr (getElem?_header_recalcV6 h (by decide))

theorem version_recalcV6 (h : ValidV6 ip) : version (recalcV6 ip) = version ip := by
  rw [version, version, getD_congr (getElem?_header_recalcV6 h (by decide))]

theorem ValidV6.recalcV6 (h : ValidV6 ip) : ValidV6 (recalcV6 ip) where
  version := (version_recalcV6 h).trans h.version
  minimum := (length_recalcV6 h).symm ▸ h.minimum
  buffer  := by
    rw [payloadLen_recalcV6 h, length_recalcV6 h]
    exact h.buffer

theorem segmentV6_recalcV6 (h : ValidV6 ip) :
    segmentV6 (recalcV6 ip) = setL4Checksum (protoV6 ip) (segmentV6 ip) (pseudoV6 ip) := by
  conv_lhs => rw [segmentV6, payloadLen_recalcV6 h, recalcV6_of_valid h]
  exact slice_splice h.length_header ((length_setL4Checksum ..).trans h.length_segment)

theorem pseudoV6_recalcV6 (h : ValidV6 ip) : pseudoV6 (recalcV6 ip) = pseudoV6 ip := by
  rw [pseudoV6, pseudoV6, protoV6_recalcV6 h, segmentV6_recalcV6 h, length_setL4Checksum,
    slice_recalcV6 h (by decide), slice_recalcV6 h (by decide)]

def ChecksumsOkV6 (ip : List UInt8) : Prop :=
  Carries (protoV6 ip) (segmentV6 ip).length → SegmentOk (protoV6 ip) (segmentV6 ip) (pseudoV6 ip)

theorem checksumsOkV6_recalcV6 (h : ValidV6 ip) : ChecksumsOkV6 (recalcV6 ip) := by
  rw [ChecksumsOkV6, protoV6_recalcV6 h, segmentV6_recalcV6 h, pseudoV6_recalcV6 h, length_setL4Checksum]
  exact fun hc => segmentOk_setL4Checksum hc _

theorem recalcV6_recalcV6 (h : ValidV6 ip) : recalcV6 (recalcV6 ip) = recalcV6 ip := by
  have hd := drop_splice ip h.length_header
    ((length_setL4Checksum (protoV6 ip) (segmentV6 ip) (pseudoV6 ip)).trans h.length_segment)
  rw [← recalcV6_of_valid h] at hd
  rw [recalcV6_of_valid h.recalcV6, payloadLen_recalcV6 h, protoV6_recalcV6 h, segmentV6_recalcV6 h,
    pseudoV6_recalcV6 h, take_recalcV6 h, setL4Checksum_idem, splice, hd]
  exact (recalcV6_of_valid h).symm

theorem recalcV6_of_not_valid (hv : version ip = 6) (h : ¬ValidV6 ip) : recalcV6 ip = ip := by
  rw [recalcV6]
  split
  case isTrue     => rfl
  case isFalse hl =>
    apply if_pos
    by_contra hc
    simp only [not_or, Nat.not_lt] at hc
    exact h ⟨hv, Nat.le_of_not_lt hl, hc.right⟩

end V6

section Checked

variable {bs : List UInt8} {init sum len : Nat}

theorem sum16_le (bs : List UInt8) (init : Nat) : sum16 bs init ≤ init + 65535 * ((bs.length + 1) / 2) := by
  induction bs, init using sum16.induct
  case case1 init => exact Nat.le_add_right _ _
  case case2 a init =>
    have := a.toNat_lt
    simp only [sum16, List.length_singleton]
    omega
  case case3 a b bs init hi =>
    have := a.toNat_lt
    have := b.toNat_lt
    rw [sum16]
    simp only [List.length_cons]
    omega

theorem addU32_eq {a b : Nat} (h : a + b < 2 ^ 32) : addU32 a b = some (a + b) :=
  if_pos h

theorem sum16U32_eq (h : init + 65535 * ((bs.length + 1) / 2) < 2 ^ 32) : sum16U32 bs init = some (sum16 bs init) := by
  induction bs, init using sum16.induct
  case case1 => rfl
  case case2 a init =>
    have := a.toNat_lt
    simp only [List.length_singleton] at h
    exact addU32_eq (by omega)
  case case3 a b bs init hi =>
    have := a.toNat_lt
    have := b.toNat_lt
    simp only [List.length_cons] at h
    rw [sum16U32, addU32_eq (by omega), Option.bind_some, hi (by omega), sum16]

-- After one round there is one carry at most, and none after two.
theorem foldU32_eq (h : sum < 2 ^ 32) : foldU32 2 sum = some (fold sum) := by
  rw [foldU32, fold]
  by_cases h₁ : sum / 65536 = 0
  case pos => rw [if_pos h₁, if_pos h₁]
  case neg =>
    rw [if_neg h₁, if_neg h₁, addU32_eq (by omega), Option.bind_some, foldU32, fold]
    by_cases h₂ : (sum % 65536 + sum / 65536) / 65536 = 0
    case pos => rw [if_pos h₂, if_pos h₂]
    case neg =>
      rw [if_neg h₂, if_neg h₂, addU32_eq (by omega), Option.bind_some, foldU32, fold, if_pos (by omega),
        if_pos (by omega)]

theorem setL4ChecksumU32_eq {proto : UInt8} {l4 : List UInt8} {pseudo : Nat}
    (h : pseudo + 65535 * ((l4.length + 1) / 2) < 2 ^ 32) :
    setL4ChecksumU32 proto l4 pseudo = some (setL4Checksum proto l4 pseudo) := by
  rw [setL4ChecksumU32, setL4Checksum]
  cases ho : checksumOffset proto
  case none => rfl
  case some off =>
    by_cases hl : l4.length < off + 2
    case pos => simp only [if_pos hl]
    case neg =>
      have hlen := length_putU16 (Nat.le_of_not_lt hl) 0
      have hsum := sum16_le (putU16 l4 off 0) pseudo
      rw [hlen] at hsum
      simp only [if_neg hl]
      rw [sum16U32_eq (by rwa [hlen]), Option.bind_eq_bind, Option.bind_some, foldU32_eq (hsum.trans_lt h)]
      rfl

-- The addresses have at most 16 words, and a length is a word.
theorem pseudoU32_eq {src dst : List UInt8} (proto : UInt8) (hs : src.length ≤ 16) (hd : dst.length ≤ 16)
    (hl : len < 65536) :
    pseudoU32 src dst proto len = some (sum16 dst (sum16 src 0) + (proto.toNat + len)) ∧
      sum16 dst (sum16 src 0) + (proto.toNat + len) ≤ 65535 * 18 := by
  have hp := proto.toNat_lt
  have h₁ := sum16_le src 0
  have h₂ := sum16_le dst (sum16 src 0)
  constructor
  case left =>
    rw [pseudoU32]
    simp only [Option.bind_eq_bind]
    rw [sum16U32_eq (by omega), Option.bind_some, sum16U32_eq (by omega), Option.bind_some,
      addU32_eq (by omega), Option.bind_some, addU32_eq (by omega)]
  case right => omega

theorem length_slice_le (bs : List UInt8) (start len : Nat) : (slice bs start len).length ≤ len :=
  List.length_take_le _ _

theorem ofBe_slice_lt (bs : List UInt8) (start : Nat) : ofBe (slice bs start 2) < 65536 := by
  have hb := ofBe_lt (slice bs start 2)
  exact hb.trans_le (Nat.pow_le_pow_right (by decide) (length_slice_le bs start 2))

theorem segmentU32_eq {src dst l4 : List UInt8} {proto : UInt8} (hs : src.length ≤ 16) (hd : dst.length ≤ 16)
    (hl : l4.length < 65536) :
    (pseudoU32 src dst proto l4.length).bind (setL4ChecksumU32 proto l4) =
      some (setL4Checksum proto l4 (sum16 dst (sum16 src 0) + (proto.toNat + l4.length))) := by
  obtain ⟨he, hle⟩ := pseudoU32_eq proto hs hd hl
  rw [he, Option.bind_some, setL4ChecksumU32_eq (by omega)]

theorem recalcV4U32_eq (ip : List UInt8) : recalcV4U32 ip = some (recalcV4 ip) := by
  rw [recalcV4U32, recalcV4]
  dsimp only
  split
  case isTrue => rfl
  case isFalse =>
    split
    case isTrue  => rfl
    case isFalse =>
      have ht := ofBe_slice_lt ip 2
      have hlen := List.length_take_le ((ip.getD 0 0).toNat % 16 * 4) (putU16 ip 10 0)
      have hsum := sum16_le ((putU16 ip 10 0).take ((ip.getD 0 0).toNat % 16 * 4)) 0
      have hlt : sum16 ((putU16 ip 10 0).take ((ip.getD 0 0).toNat % 16 * 4)) 0 < 2 ^ 32 := by omega
      simp only [Option.bind_eq_bind]
      rw [sum16U32_eq (by omega), Option.bind_some, foldU32_eq hlt, Option.bind_some, ← Option.bind_assoc,
        segmentU32_eq ((length_slice_le ip 12 4).trans (by decide)) ((length_slice_le ip 16 4).trans (by decide))
          ((length_slice_le ..).trans_lt (by omega))]
      rfl

theorem recalcV6U32_eq (ip : List UInt8) : recalcV6U32 ip = some (recalcV6 ip) := by
  rw [recalcV6U32, recalcV6]
  dsimp only
  split
  case isTrue => rfl
  case isFalse =>
    split
    case isTrue  => rfl
    case isFalse =>
      have ht := ofBe_slice_lt ip 4
      simp only [Option.bind_eq_bind]
      rw [← Option.bind_assoc, segmentU32_eq (length_slice_le ip 8 16) (length_slice_le ip 24 16)
        ((length_slice_le ..).trans_lt ht)]
      rfl

theorem recalcChecksumsU32_eq (ip : List UInt8) : recalcChecksumsU32 ip = some (recalcChecksums ip) := by
  cases ip
  case nil => rfl
  case cons b bs =>
    rw [recalcChecksumsU32, recalcChecksums, recalcV4U32_eq, recalcV6U32_eq]
    split
    case isTrue  => rfl
    case isFalse => split <;> rfl

end Checked

section Recalc

variable {ip : List UInt8}

theorem recalcChecksums_v4 (h : version ip = 4) : recalcChecksums ip = recalcV4 ip := by
  cases ip
  case nil => cases h
  case cons => exact if_pos h

theorem recalcChecksums_v6 (h : version ip = 6) : recalcChecksums ip = recalcV6 ip := by
  cases ip
  case nil => cases h
  case cons =>
    have h₄ : ¬version (_ :: _) = 4 := fun h₄ => by cases h.symm.trans h₄
    exact (if_neg h₄).trans (if_pos h)

theorem recalcChecksums_of_not_valid (h₄ : ¬ValidV4 ip) (h₆ : ¬ValidV6 ip) : recalcChecksums ip = ip := by
  by_cases hv₄ : version ip = 4
  case pos => rw [recalcChecksums_v4 hv₄, recalcV4_of_not_valid hv₄ h₄]
  case neg =>
    by_cases hv₆ : version ip = 6
    case pos => rw [recalcChecksums_v6 hv₆, recalcV6_of_not_valid hv₆ h₆]
    case neg =>
      cases ip
      case nil  => rfl
      case cons => exact (if_neg hv₄).trans (if_neg hv₆)

theorem recalcChecksums_recalcChecksums (ip : List UInt8) :
    recalcChecksums (recalcChecksums ip) = recalcChecksums ip := by
  by_cases h₄ : ValidV4 ip
  case pos =>
    rw [recalcChecksums_v4 h₄.version, recalcChecksums_v4 h₄.recalcV4.version, recalcV4_recalcV4 h₄]
  case neg =>
    by_cases h₆ : ValidV6 ip
    case pos =>
      rw [recalcChecksums_v6 h₆.version, recalcChecksums_v6 h₆.recalcV6.version, recalcV6_recalcV6 h₆]
    case neg =>
      rw [recalcChecksums_of_not_valid h₄ h₆, recalcChecksums_of_not_valid h₄ h₆]

-- What the checksums of a packet are afterwards, and what else is in it. No addition overflows on the way.
theorem recalcChecksums_correct (ip : List UInt8) :
    recalcChecksumsU32 ip = some (recalcChecksums ip) ∧
      recalcChecksums (recalcChecksums ip) = recalcChecksums ip ∧
      (recalcChecksums ip).length = ip.length ∧
      (ValidV4 ip → ChecksumsOkV4 (recalcChecksums ip) ∧
        ∀ i ∉ checksumsV4 ip, (recalcChecksums ip)[i]? = ip[i]?) ∧
      (ValidV6 ip → ChecksumsOkV6 (recalcChecksums ip) ∧
        ∀ i ∉ checksumsV6 ip, (recalcChecksums ip)[i]? = ip[i]?) ∧
      (¬ValidV4 ip → ¬ValidV6 ip → recalcChecksums ip = ip) := by
  refine ⟨recalcChecksumsU32_eq ip, recalcChecksums_recalcChecksums ip, ?length, ?v4, ?v6,
    recalcChecksums_of_not_valid⟩
  case length =>
    by_cases h₄ : ValidV4 ip
    case pos => rw [recalcChecksums_v4 h₄.version, length_recalcV4 h₄]
    case neg =>
      by_cases h₆ : ValidV6 ip
      case pos => rw [recalcChecksums_v6 h₆.version, length_recalcV6 h₆]
      case neg => rw [recalcChecksums_of_not_valid h₄ h₆]
  case v4 =>
    intro h
    rw [recalcChecksums_v4 h.version]
    exact ⟨checksumsOkV4_recalcV4 h, fun _ hi => getElem?_recalcV4 h hi⟩
  case v6 =>
    intro h
    rw [recalcChecksums_v6 h.version]
    exact ⟨checksumsOkV6_recalcV6 h, fun _ hi => getElem?_recalcV6 h hi⟩

-- A segment of TCP with four bytes of data, whose checksums have not been computed.
def tcpPacket : List UInt8 := [
  0x45, 0x00, 0x00, 0x2c, 0x12, 0x34, 0x40, 0x00, 0x40, 0x06, 0xff, 0xff, 192, 168, 1, 50, 93, 184, 216, 34,
  0xc0, 0x00, 0x01, 0xbb, 0x00, 0x00, 0x00, 0x01, 0x00, 0x00, 0x00, 0x00, 0x50, 0x18, 0xff, 0xff, 0xab, 0xcd,
  0x00, 0x00, 0xde, 0xad, 0xbe, 0xef
]

theorem recalcChecksums_tcp :
    ValidV4 tcpPacket ∧ Carries (protoV4 tcpPacket) (segmentV4 tcpPacket).length ∧
      ChecksumsOkV4 (recalcChecksums tcpPacket) := by
  have h : ValidV4 tcpPacket := by constructor <;> decide
  exact ⟨h, .inl (by decide), ((recalcChecksums_correct tcpPacket).right.right.right.left h).left⟩

end Recalc
end JammVpn.WinpkFilter
