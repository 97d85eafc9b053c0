import JammVpn.Lib.Bytes
import JammVpn.Net.Hysteria2

namespace JammVpn.Hysteria2

open Bytes

section

variable {v : Nat} {rest : List UInt8}

-- A tag in the two highest bits of a number with `width + 1` bytes.
theorem readVarintBuf_toBe {width tag : Nat} (ht : tag < 4) (hv : v < 64 * 256 ^ width)
    (he : ∀ first : UInt8, first.toNat / 64 = tag → extraOf first = width) :
    readVarintBuf (toBe (width + 1) (tag * (64 * 256 ^ width) + v) ++ rest) = some (v, 1 + width) := by
  have hpos : 0 < 256 ^ width := Nat.pow_pos (by decide)
  have hd : (tag * (64 * 256 ^ width) + v) / 256 ^ width = tag * 64 + v / 256 ^ width := by
    rw [← Nat.mul_assoc, Nat.add_comm, Nat.add_mul_div_right _ _ hpos, Nat.add_comm]
  have hm : (tag * (64 * 256 ^ width) + v) % 256 ^ width = v % 256 ^ width := by
    rw [← Nat.mul_assoc, Nat.add_comm, Nat.add_mul_mod_self_right]
  have hq : v / 256 ^ width < 64 := Nat.div_lt_of_lt_mul (by rwa [Nat.mul_comm])
  have hf : (UInt8.ofNat (tag * 64 + v / 256 ^ width)).toNat = tag * 64 + v / 256 ^ width := by
    rw [UInt8.toNat_ofNat']
    exact Nat.mod_eq_of_lt (by omega)
  have hdm : ∀ q < 64, (tag * 64 + q) / 64 = tag ∧ (tag * 64 + q) % 64 = q := by omega
  have ⟨ht, hl⟩ := hdm _ hq
  have he := he _ (hf.symm ▸ ht)
  simp only [toBe_succ, List.cons_append, readVarintBuf, hd, he]
  rw [if_neg (by simp), List.take_left' (length_toBe _ _), foldl_toBe, hf, hl, hm, Nat.div_add_mod']

theorem readVarintBuf_putVarint (hv : v < 2 ^ 62) :
    readVarintBuf (putVarint v ++ rest) = some (v, (putVarint v).length) := by
  simp only [putVarint]
  split
  case isTrue h =>
    have he : [UInt8.ofNat v] = toBe (0 + 1) (0 * (64 * 256 ^ 0) + v) := by simp [toBe]
    rw [he, length_toBe]
    exact readVarintBuf_toBe (by decide) h fun first h => by simp [extraOf, h]
  split
  case isTrue h =>
    have he : v ||| 0x4000 = 1 * (64 * 256 ^ 1) + v := @Words.or_eq_add 14 1 v h
    rw [he, length_toBe]
    exact readVarintBuf_toBe (by decide) h fun first h => by simp [extraOf, h]
  split
  case isTrue h =>
    have he : v ||| 0x80000000 = 2 * (64 * 256 ^ 3) + v := @Words.or_eq_add 30 2 v h
    rw [he, length_toBe]
    exact readVarintBuf_toBe (by decide) h fun first h => by simp [extraOf, h]
  case isFalse =>
    have he : v ||| 0xC000000000000000 = 3 * (64 * 256 ^ 7) + v := @Words.or_eq_add 62 3 v hv
    rw [he, length_toBe]
    exact readVarintBuf_toBe (by decide) hv fun first h => by simp [extraOf, h]

end

section

variable {session : UInt32} {pktId : UInt16} {target : Target} {payload : List UInt8} {maxDatagram : Nat}
variable {dgs : List (List UInt8)} {total i : Nat} {dg : List UInt8}

theorem decodeUdpPacket_encodeFragment (hl : (Utf8.encode target.display).length < 2 ^ 62)
    (hi : i < total) (ht : total ≤ 255) :
    ∃ head, decodeUdpPacket (encodeFragment session pktId target total i payload) = .ok (head, payload) ∧
      head.session = session ∧ head.pktId = pktId ∧ head.fragId.toNat = i ∧
      head.fragTotal.toNat = total := by
  have h₁ : (UInt8.ofNat i).toNat = i := by
    rw [UInt8.toNat_ofNat']
    omega
  have h₂ : (UInt8.ofNat total).toNat = total := by
    rw [UInt8.toNat_ofNat']
    omega
  have hv : UInt8.ofNat i < UInt8.ofNat total := by
    rw [UInt8.lt_iff_toNat_lt, h₁, h₂]
    exact hi
  have hs : UInt32.ofNat (ofBe (toBe 4 session.toNat)) = session := by
    rw [ofBe_toBe_of_lt session.toNat_lt, UInt32.ofNat_toNat]
  have hp : UInt16.ofNat (ofBe (toBe 2 pktId.toNat)) = pktId := by
    rw [ofBe_toBe_of_lt pktId.toNat_lt, UInt16.ofNat_toNat]
  have hr := @readVarintBuf_putVarint _ (Utf8.encode target.display ++ payload) hl
  refine ⟨⟨session, pktId, .ofNat i, .ofNat total, hv⟩, ?_, rfl, rfl, h₁, h₂⟩
  rw [toBe_four] at hs
  rw [toBe_two] at hp
  simp only [encodeFragment, addrOf, toBe_four, toBe_two, List.cons_append, List.nil_append,
    List.append_assoc, decodeUdpPacket, hv, hr, hs, hp]
  rw [dif_pos trivial, if_neg (by simp), ← List.append_assoc, List.drop_left' (by simp)]

theorem encodeUdpPackets_cases (h : encodeUdpPackets session pktId target payload maxDatagram = .ok dgs) :
    headerLen target < maxDatagram ∧
      dgs.length = max (divCeil payload.length (maxDatagram - headerLen target)) 1 ∧ dgs.length ≤ 255 ∧
      ∀ i dg, dgs[i]? = some dg → i < dgs.length ∧ dg = encodeFragment session pktId target dgs.length i
        (piece (maxDatagram - headerLen target) payload i) := by
  simp only [encodeUdpPackets] at h
  split at h
  case isTrue => cases h
  case isFalse hc =>
    split at h
    case isTrue => cases h
    case isFalse ht =>
      cases h
      refine ⟨by omega, by simp, by simpa using ht, fun i dg hi => ?_⟩
      have ⟨hl, hd⟩ := List.getElem?_eq_some_iff.mp hi
      rw [List.getElem_map, List.getElem_range] at hd
      exact ⟨hl, by simpa using hd.symm⟩

theorem flatten_slices (h : encodeUdpPackets session pktId target payload maxDatagram = .ok dgs) :
    ((List.range dgs.length).map (piece (maxDatagram - headerLen target) payload)).flatten = payload := by
  have ⟨hc, hn, _⟩ := encodeUdpPackets_cases h
  have hle := @le_divCeil_mul payload.length (maxDatagram - headerLen target) (by omega)
  rw [flatten_pieces, List.take_of_length_le]
  exact hle.trans (Nat.mul_le_mul_right _ (by omega))

theorem length_of_mem_encodeUdpPackets
    (h : encodeUdpPackets session pktId target payload maxDatagram = .ok dgs) (hm : dg ∈ dgs) :
    dg.length ≤ maxDatagram := by
  have ⟨hc, _, _, hdg⟩ := encodeUdpPackets_cases h
  have ⟨i, hi⟩ := List.getElem?_of_mem hm
  have hl := length_piece_le (maxDatagram - headerLen target) payload i
  rw [(hdg i dg hi).2]
  simp only [encodeFragment, headerLen, List.length_append, length_toBe, List.length_cons,
    List.length_nil] at hl hc ⊢
  omega

theorem decodeUdpPacket_encodeUdpPackets
    (h : encodeUdpPackets session pktId target payload maxDatagram = .ok dgs)
    (hl : (Utf8.encode target.display).length < 2 ^ 62) (hi : dgs[i]? = some dg) :
    ∃ head, decodeUdpPacket dg = .ok (head, piece (maxDatagram - headerLen target) payload i) ∧
      head.session = session ∧ head.pktId = pktId ∧ head.fragId.toNat = i ∧
      head.fragTotal.toNat = dgs.length := by
  have ⟨_, _, hm, hdg⟩ := encodeUdpPackets_cases h
  have ⟨hi, he⟩ := hdg i dg hi
  exact he ▸ decodeUdpPacket_encodeFragment hl hi hm

end

open Machine Reassembly

-- The fragment is what the decoder makes of one of the datagrams.
def DecodedFrom (dgs : List (List UInt8)) (f : Fragment (UInt32 × UInt16)) : Prop :=
  ∃ dg ∈ dgs, ∃ head part, decodeUdpPacket dg = .ok (head, part) ∧ f = head.fragment part

-- The parts of a packet.
def slices (target : Target) (payload : List UInt8) (maxDatagram n : Nat) : List (List UInt8) :=
  (List.range n).map (piece (maxDatagram - headerLen target) payload)

theorem DecodedFrom.part {session : UInt32} {pktId : UInt16} {target : Target} {payload : List UInt8}
    {maxDatagram : Nat} {dgs : List (List UInt8)}
    (h : encodeUdpPackets session pktId target payload maxDatagram = .ok dgs)
    (hl : (Utf8.encode target.display).length < 2 ^ 62) (f : Fragment (UInt32 × UInt16))
    (hd : DecodedFrom dgs f) :
    f.key = (session, pktId) ∧ f.total = (slices target payload maxDatagram dgs.length).length ∧
      (slices target payload maxDatagram dgs.length)[f.id]? = some f.data := by
  obtain ⟨dg, hm, head, part, hd, rfl⟩ := hd
  have ⟨i, hi⟩ := List.getElem?_of_mem hm
  have hlt : i < dgs.length := (List.getElem?_eq_some_iff.mp hi).1
  have ⟨head', hd', hs, hp, hid, ht⟩ := decodeUdpPacket_encodeUdpPackets h hl hi
  rw [hd] at hd'
  cases hd'
  refine ⟨by rw [← hs, ← hp]; rfl, ht.trans (by simp [slices]), ?_⟩
  simp [slices, UdpHead.fragment, hid, hlt]

-- Datagrams in any order, some of them more than once, among those of other packets. No memory holds a name that is too
-- long for a varint.
theorem udp_fragmentation_lossless {session : UInt32} {pktId : UInt16} {target : Target}
    {payload : List UInt8} {maxDatagram : Nat} {dgs : List (List UInt8)}
    (h : encodeUdpPackets session pktId target payload maxDatagram = .ok dgs)
    (hl : (Utf8.encode target.display).length < 2 ^ 62) :
    let slice := piece (maxDatagram - headerLen target) payload
    (∀ dg ∈ dgs, dg.length ≤ maxDatagram) ∧
    (∀ i dg, dgs[i]? = some dg → ∃ head, decodeUdpPacket dg = .ok (head, slice i) ∧
      head.session = session ∧ head.pktId = pktId ∧ head.fragId.toNat = i ∧
      head.fragTotal.toNat = dgs.length) ∧
    ((List.range dgs.length).map slice).flatten = payload ∧
    ∀ (m m' : Pending) es now tie head part,
      m.get (session, pktId) = none →
      DecodedFrom dgs (head.fragment part) →
      (∀ a ∈ es, a.frag.key = (session, pktId) → DecodedFrom dgs a.frag) →
      Each step (Spares (session, pktId)) m (es ++ [⟨now, tie, head.fragment part⟩]) →
      run step m es = some m' →
      (¬∀ i < dgs.length, i ∈ idsOf (session, pktId) es) →
      (reassemble now tie m' head part).1 =
        if ∀ i < dgs.length, i ∈ head.fragId.toNat :: idsOf (session, pktId) es then some payload
        else none := by
  intro slice
  refine ⟨fun dg => length_of_mem_encodeUdpPackets h, fun i dg hi => ?_, flatten_slices h, ?_⟩
  case refine_1 => exact decodeUdpPacket_encodeUdpPackets h hl hi
  intro m m' es now tie head part h₀ ha hes hs hr hn
  have hlen : (slices target payload maxDatagram dgs.length).length = dgs.length := by simp [slices]
  have hrun := reassemble_run (DecodedFrom.part h hl) h₀ ha hes hs hr (hlen.symm ▸ hn)
  rw [slices, flatten_slices h, ← slices, hlen] at hrun
  exact hrun

-- The second fragment comes first, and twice.
theorem udp_fragmentation_lossless_two :
    let target := Target.domain "h" 1
    let dgs := [
      [0, 0, 0, 9, 0, 1, 0, 2, 3, 104, 58, 49, 1, 2, 3],
      [0, 0, 0, 9, 0, 1, 1, 2, 3, 104, 58, 49, 4, 5]]
    let first : UdpHead := ⟨9, 1, 0, 2, by decide⟩
    let second : UdpHead := ⟨9, 1, 1, 2, by decide⟩
    encodeUdpPackets 9 1 target [1, 2, 3, 4, 5] 15 = .ok dgs ∧
    ∃ m, run step .empty [⟨0, 0, second.fragment [4, 5]⟩, ⟨1, 0, second.fragment [4, 5]⟩] = some m ∧
      (reassemble 2 0 m first [1, 2, 3]).1 = some [1, 2, 3, 4, 5] := by
  intro target dgs first second
  have h : encodeUdpPackets 9 1 target [1, 2, 3, 4, 5] 15 = .ok dgs := by decide +kernel
  obtain ⟨m, hm⟩ : ∃ m, run step .empty [⟨0, 0, second.fragment [4, 5]⟩,
    ⟨1, 0, second.fragment [4, 5]⟩] = some m := ⟨_, rfl⟩
  refine ⟨h, m, hm, ?_⟩
  have hd : DecodedFrom dgs (second.fragment [4, 5]) :=
    ⟨[0, 0, 0, 9, 0, 1, 1, 2, 3, 104, 58, 49, 4, 5], by decide, second, [4, 5], by decide +kernel, rfl⟩
  have hs : Each step (Spares (9, 1)) .empty [⟨0, 0, second.fragment [4, 5]⟩,
      ⟨1, 0, second.fragment [4, 5]⟩, ⟨2, 0, first.fragment [1, 2, 3]⟩] := by
    apply each_spares (t := 0)
    · decide
    · intro k r hr
      exact Nat.zero_le _
    · simp [reasmTtl]
  have hr := (udp_fragmentation_lossless h (by decide +kernel)).2.2.2 .empty m
    [⟨0, 0, second.fragment [4, 5]⟩, ⟨1, 0, second.fragment [4, 5]⟩] 2 0 first [1, 2, 3] rfl
    ⟨_, List.mem_cons_self, first, [1, 2, 3], by decide +kernel, rfl⟩ (by simp [hd]) hs hm (by decide)
  exact hr.trans (if_pos (by decide))

end JammVpn.Hysteria2

-- Numbers of a variable length: one writer, and a reader of buffers and one of streams.
namespace JammVpn.Hysteria2

open Bytes Incremental

-- The words of the source hold the same numbers.
section Words

variable {v : UInt64} {val : UInt64} {bs : List UInt8}

theorem lt_shiftLeft_iff {k : Nat} {n : UInt64} (h : n.toNat = 2 ^ k) : v < n ↔ v.toNat < 2 ^ k := by
  rw [UInt64.lt_iff_toNat_lt, h]

theorem putVarintWords_eq (v : UInt64) : putVarintWords v = putVarint v.toNat := by
  have h₁ : (v < (1 : UInt64) <<< 6) = (v.toNat < 2 ^ 6) := propext (lt_shiftLeft_iff rfl)
  have h₂ : (v < (1 : UInt64) <<< 14) = (v.toNat < 2 ^ 14) := propext (lt_shiftLeft_iff rfl)
  have h₃ : (v < (1 : UInt64) <<< 30) = (v.toNat < 2 ^ 30) := propext (lt_shiftLeft_iff rfl)
  simp only [putVarintWords, putVarint, h₁, h₂, h₃]
  split
  case isTrue  => rfl
  split
  case isTrue h =>
    have hv : v.toNat % 2 ^ 16 = v.toNat := by omega
    rw [UInt16.toNat_or, UInt64.toNat_toUInt16, hv]
    rfl
  split
  case isTrue h =>
    have hv : v.toNat % 2 ^ 32 = v.toNat := by omega
    rw [UInt32.toNat_or, UInt64.toNat_toUInt32, hv]
    rfl
  case isFalse =>
    rw [UInt64.toNat_or]
    rfl

theorem extraOf_mem (first : UInt8) : extraOf first ∈ [0, 1, 3, 7] := by
  rw [extraOf]
  split <;> decide

theorem extraOf_le (first : UInt8) : extraOf first ≤ 7 := by
  have h := extraOf_mem first
  simp only [List.mem_cons, List.not_mem_nil, or_false] at h
  omega

theorem extraWords_eq (first : UInt8) : extraWords first = extraOf first := by
  have h : (first >>> 6).toNat = first.toNat / 64 := by
    rw [UInt8.toNat_shiftRight]
    exact Nat.shiftRight_eq_div_pow _ 6
  rw [extraWords, h, extraOf]

theorem toNat_shiftIn (h : val.toNat * 256 < 2 ^ 64) (b : UInt8) :
    (shiftIn val b).toNat = val.toNat * 256 + b.toNat := by
  have hs : (val <<< 8).toNat = val.toNat <<< 8 % 2 ^ 64 := UInt64.toNat_shiftLeft val 8
  rw [shiftIn, UInt64.toNat_or, hs, UInt8.toNat_toUInt64, Words.shiftLeft_mod_or (by decide) b.toNat_lt,
    Nat.shiftLeft_eq, Nat.mod_eq_of_lt h]

-- Nothing is shifted out as long as the number of the bytes allows it.
theorem toNat_foldl_shiftIn (h : (val.toNat + 1) * 256 ^ bs.length ≤ 2 ^ 64) :
    (bs.foldl shiftIn val).toNat = bs.foldl (fun v b => v * 256 + b.toNat) val.toNat := by
  induction bs generalizing val
  case nil => rfl
  case cons b bs hi =>
    have hb := b.toNat_lt
    rw [List.length_cons, Nat.pow_succ', ← Nat.mul_assoc] at h
    have hle := (Nat.le_mul_of_pos_right _ (Nat.pow_pos (by decide : 0 < 256))).trans h
    have hs := toNat_shiftIn (by omega : val.toNat * 256 < 2 ^ 64) b
    rw [List.foldl_cons, List.foldl_cons, ← hs]
    refine hi ((Nat.mul_le_mul_right _ ?_).trans h)
    omega

theorem readVarintBufWords_eq (bs : List UInt8) :
    readVarintBuf bs = (readVarintBufWords bs).map fun r => (r.1.toNat, r.2) := by
  cases bs
  case nil => rfl
  case cons first bs =>
    simp only [readVarintBuf, readVarintBufWords, extraWords_eq, List.length_cons, Nat.add_comm 1,
      Nat.add_lt_add_iff_right]
    split
    case isTrue => rfl
    case isFalse h =>
      have hf : (first &&& 0x3f).toUInt64.toNat = first.toNat % 64 := by
        rw [UInt8.toNat_toUInt64, UInt8.toNat_and]
        exact Nat.and_two_pow_sub_one_eq_mod _ 6
      have hl : (bs.take (extraOf first)).length = extraOf first := by
        rw [List.length_take, Nat.min_eq_left (Nat.le_of_not_lt h)]
      have hle : ((first &&& 0x3f).toUInt64.toNat + 1) * 256 ^ (bs.take (extraOf first)).length ≤ 2 ^ 64 := by
        rw [hf, hl]
        calc
          (first.toNat % 64 + 1) * 256 ^ extraOf first
          _ ≤ 64 * 256 ^ 7 := Nat.mul_le_mul (by omega) (Nat.pow_le_pow_right (by decide) (extraOf_le first))
          _ ≤ 2 ^ 64       := by decide
      rw [Option.map_some, toNat_foldl_shiftIn hle, hf]

end Words

-- The stream has the same bytes, and says nothing before they are there.
section Stream

theorem lawful_more (extra : Nat) (val : UInt64) : Lawful (readVarint.more extra val) := by
  induction extra generalizing val
  case zero          => exact lawful_pure val
  case succ extra hi => exact lawful_readU8.bind fun b => hi (shiftIn val b)

theorem lawful_readVarint : Lawful readVarint :=
  lawful_readU8.bind fun _ => lawful_more _ _

theorem more_eq (extra : Nat) (val : UInt64) (bs : List UInt8) :
    readVarint.more extra val bs =
      if bs.length < extra then .more else .done ((bs.take extra).foldl shiftIn val) (bs.drop extra) := by
  induction extra generalizing val bs
  case zero => rfl
  case succ extra hi =>
    cases bs
    case nil => rfl
    case cons b bs =>
      refine (hi (shiftIn val b) bs).trans ?_
      rw [List.length_cons, List.take_succ_cons, List.foldl_cons, List.drop_succ_cons]
      simp only [Nat.add_lt_add_iff_right]

theorem readVarint_eq (bs : List UInt8) :
    readVarint bs =
      match readVarintBufWords bs with
      | none        => .more
      | some (v, n) => .done v (bs.drop n) := by
  cases bs
  case nil => rfl
  case cons first bs =>
    refine (more_eq (extraWords first) _ bs).trans ?_
    simp only [readVarintBufWords, List.length_cons, Nat.add_comm 1, Nat.add_lt_add_iff_right]
    split
    case isTrue  => rfl
    case isFalse => rfl

end Stream

section Length

variable {bs : List UInt8} {n : Nat}

theorem length_putVarint (v : Nat) :
    (putVarint v).length = if v < 2 ^ 6 then 1 else if v < 2 ^ 14 then 2 else if v < 2 ^ 30 then 4 else 8 := by
  rw [putVarint]
  split
  case isTrue => rfl
  split
  case isTrue => exact length_toBe 2 _
  split
  case isTrue  => exact length_toBe 4 _
  case isFalse => exact length_toBe 8 _

-- No other length has the room and is shorter.
theorem length_putVarint_le {v : Nat} (hn : n ∈ [1, 2, 4, 8]) (hv : v < 2 ^ (8 * n - 2)) :
    (putVarint v).length ≤ n := by
  rw [length_putVarint]
  simp only [List.mem_cons, List.not_mem_nil, or_false] at hn
  rcases hn with rfl | rfl | rfl | rfl <;> split_ifs <;> omega

-- What has been read fits in its length.
theorem readVarintBuf_cases {v : Nat} (h : readVarintBuf bs = some (v, n)) :
    n ∈ [1, 2, 4, 8] ∧ v < 2 ^ (8 * n - 2) := by
  cases bs
  case nil => cases h
  case cons first bs =>
    simp only [readVarintBuf] at h
    split at h
    case isTrue => cases h
    case isFalse hl =>
      obtain ⟨rfl, rfl⟩ := Prod.mk.inj (Option.some.inj h)
      have hlt := foldl_lt (bs.take (extraOf first)) (first.toNat % 64)
      have hp : 2 ^ (8 * (1 + extraOf first) - 2) = 64 * 256 ^ extraOf first := by
        rw [show 8 * (1 + extraOf first) - 2 = 6 + 8 * extraOf first by omega, Nat.pow_add, Nat.pow_mul]
      rw [List.length_take, Nat.min_eq_left (Nat.le_of_not_lt hl)] at hlt
      constructor
      case left =>
        have hm := extraOf_mem first
        simp only [List.mem_cons, List.not_mem_nil, or_false] at hm ⊢
        omega
      case right =>
        rw [hp]
        exact hlt.trans_le (Nat.mul_le_mul_right _ (by omega))

theorem length_putVarint_mem (v : Nat) : (putVarint v).length ∈ [1, 2, 4, 8] := by
  rw [length_putVarint]
  split_ifs <;> decide

end Length

section Words

variable {v : UInt64} {n : Nat} {bs rest : List UInt8}

theorem readVarintBuf_of_words (h : readVarintBufWords bs = some (v, n)) :
    readVarintBuf bs = some (v.toNat, n) := by
  rw [readVarintBufWords_eq, h]
  rfl

theorem readVarintBufWords_of_nat (h : readVarintBuf bs = some (v.toNat, n)) :
    readVarintBufWords bs = some (v, n) := by
  rw [readVarintBufWords_eq] at h
  obtain ⟨⟨v', n'⟩, hr, he⟩ := Option.map_eq_some_iff.mp h
  obtain ⟨hv, hn⟩ := Prod.mk.inj he
  rw [hr, ← UInt64.toNat_inj.mp hv, ← hn]

theorem readVarintBufWords_putVarint (h : v.toNat < 2 ^ 62) (rest : List UInt8) :
    readVarintBufWords (putVarintWords v ++ rest) = some (v, (putVarintWords v).length) := by
  rw [putVarintWords_eq]
  exact readVarintBufWords_of_nat (readVarintBuf_putVarint h)

theorem readVarint_putVarint (h : v.toNat < 2 ^ 62) (rest : List UInt8) :
    readVarint (putVarintWords v ++ rest) = .done v rest := by
  rw [readVarint_eq, readVarintBufWords_putVarint h]
  exact congrArg _ (List.drop_left' rfl)

theorem readVarint_prefix (h : v.toNat < 2 ^ 62) (hp : bs <+: putVarintWords v) (hn : bs ≠ putVarintWords v) :
    readVarint bs = .more := by
  obtain ⟨rest, hr⟩ := hp
  have hd := readVarint_putVarint h []
  rw [List.append_nil, ← hr] at hd
  refine lawful_readVarint.more_of_lt hd fun he => hn ?_
  rw [← hr, he, List.append_nil]

theorem readVarintBufWords_eq_none (h : readVarint bs = .more) : readVarintBufWords bs = none := by
  rw [readVarint_eq] at h
  cases hb : readVarintBufWords bs
  case none => rfl
  case some r =>
    rw [hb] at h
    cases h

end Words

theorem varint_codec :
    (∀ (v : UInt64) (rest : List UInt8), v.toNat < 2 ^ 62 →
      let e := putVarintWords v
      readVarintBufWords (e ++ rest) = some (v, e.length) ∧
      readVarint (e ++ rest) = .done v rest ∧
      (e.length ∈ [1, 2, 4, 8] ∧ (∀ n ∈ [1, 2, 4, 8], v.toNat < 2 ^ (8 * n - 2) → e.length ≤ n) ∧
        ∀ bs n, readVarintBufWords bs = some (v, n) → e.length ≤ n) ∧
      ∀ p, p <+: e → p ≠ e → readVarintBufWords p = none ∧ readVarint p = .more) ∧
    ∀ bs, readVarint bs =
      match readVarintBufWords bs with
      | none        => .more
      | some (v, n) => .done v (bs.drop n) := by
  refine ⟨fun v rest hv => ?_, readVarint_eq⟩
  intro e
  have he : e = putVarint v.toNat := putVarintWords_eq v
  refine ⟨readVarintBufWords_putVarint hv rest, readVarint_putVarint hv rest, ⟨?_, ?_, ?_⟩, ?_⟩
  case refine_1 =>
    rw [he]
    exact length_putVarint_mem v.toNat
  case refine_2 =>
    rw [he]
    exact fun n => length_putVarint_le
  case refine_3 =>
    intro bs n h
    obtain ⟨hn, hlt⟩ := readVarintBuf_cases (readVarintBuf_of_words h)
    rw [he]
    exact length_putVarint_le hn hlt
  case refine_4 =>
    intro p hp hn
    have hm := readVarint_prefix hv hp hn
    exact ⟨readVarintBufWords_eq_none hm, hm⟩

end JammVpn.Hysteria2
