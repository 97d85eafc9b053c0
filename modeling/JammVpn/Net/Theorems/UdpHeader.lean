import JammVpn.Net.Theorems.Correlation

namespace JammVpn.Udp

open Bytes Ip

-- The bytes of a destination, and the target as which they are read.
inductive Address : List UInt8 → Target → Prop
  | v4 {ip port : List UInt8} : ip.length = 4 → port.length = 2 →
    Address (0x01 :: (ip ++ port)) (.socket (.new (.v4 (.ofNat 32 (ofBe ip))) (ofBe port)))
  | v6 {ip port : List UInt8} : ip.length = 16 → port.length = 2 →
    Address (0x04 :: (ip ++ port)) (.socket (.new (.v6 (.ofNat 128 (ofBe ip))) (ofBe port)))
  | domain {len : UInt8} {name port : List UInt8} : name.length = len.toNat → port.length = 2 →
    Address (0x03 :: len :: (name ++ port)) (.domain (.ofList (Utf8.decodeLossy name)) (ofBe port))

-- Two reserved bytes, the number of the fragment and a destination.
def Header (frag : UInt8) (target : Target) (bs : List UInt8) : Prop :=
  ∃ r₀ r₁ address, Address address target ∧ bs = r₀ :: r₁ :: frag :: address

-- A name that is text, or that fills the field and is text up to where a replacement character breaks off.
def Echoed (name : List UInt8) : Prop :=
  ∃ text rest, name = Utf8.encode text ++ rest ∧
    (rest = [] ∨ name.length = 255 ∧ (rest = [0xef] ∨ rest = [0xef, 0xbf]))

section

variable {buf bs : List UInt8} {frag : UInt8} {target : Target} {off : Nat}

theorem cut_address {n : Nat} (h : n + 2 ≤ bs.length) :
    ∃ a port rest, a.length = n ∧ port.length = 2 ∧ bs = a ++ (port ++ rest) ∧ bs.take n = a ∧
      (bs.drop n).take 2 = port := by
  refine ⟨bs.take n, (bs.drop n).take 2, (bs.drop n).drop 2, ?_, ?_, ?_, rfl, rfl⟩
  case refine_1 =>
    rw [List.length_take]
    omega
  case refine_2 =>
    rw [List.length_take, List.length_drop]
    omega
  case refine_3 => rw [List.take_append_drop, List.take_append_drop]

-- What has been read is a header at the front.
theorem header_of_parse (h : parseUdpDatagram buf = .ok (frag, target, off)) :
    ∃ header payload, Header frag target header ∧ header.length = off ∧ buf = header ++ payload := by
  simp only [parseUdpDatagram] at h
  split at h
  case h_2 => cases h
  case h_1 r₀ r₁ frag' atyp bs =>
    split at h
    case isTrue ha =>
      split at h <;> cases h
      case isFalse hl =>
        obtain ⟨ip, port, rest, hi, hp, hb, h₁, h₂⟩ := @cut_address bs 4 (by omega)
        rw [h₁, h₂]
        refine ⟨_, rest, ⟨r₀, r₁, _, .v4 hi hp, rfl⟩, ?_, ?_⟩
        · simp [hi, hp]
        · simp [ha, hb]
    split at h
    case isTrue ha =>
      split at h <;> cases h
      case isFalse hl =>
        obtain ⟨ip, port, rest, hi, hp, hb, h₁, h₂⟩ := @cut_address bs 16 (by omega)
        rw [h₁, h₂]
        refine ⟨_, rest, ⟨r₀, r₁, _, .v6 hi hp, rfl⟩, ?_, ?_⟩
        · simp [hi, hp]
        · simp [ha, hb]
    split at h
    case isFalse => cases h
    case isTrue ha =>
      split at h
      case h_1 => cases h
      case h_2 len bs =>
        split at h <;> cases h
        case isFalse hl =>
          obtain ⟨name, port, rest, hi, hp, hb, h₁, h₂⟩ := @cut_address bs len.toNat (by omega)
          rw [h₁, h₂]
          refine ⟨_, rest, ⟨r₀, r₁, _, .domain hi hp, rfl⟩, ?_, ?_⟩
          · simp [hi, hp]
            omega
          · simp [ha, hb]

theorem take_address {n : Nat} {a port : List UInt8} (ha : a.length = n) (hp : port.length = 2) (rest : List UInt8) :
    ¬(a ++ port ++ rest).length < n + 2 ∧ (a ++ port ++ rest).take n = a ∧
      ((a ++ port ++ rest).drop n).take 2 = port := by
  refine ⟨?_, ?_, ?_⟩
  case refine_1 =>
    rw [List.length_append, List.length_append]
    omega
  case refine_2 => rw [List.append_assoc, List.take_left' ha]
  case refine_3 => rw [List.append_assoc, List.drop_left' ha, List.take_left' hp]

-- And a header is read, whatever follows it.
theorem parse_of_header (h : Header frag target bs) (payload : List UInt8) :
    parseUdpDatagram (bs ++ payload) = .ok (frag, target, bs.length) := by
  obtain ⟨r₀, r₁, address, ha, rfl⟩ := h
  cases ha
  case v4 ip port hi hp =>
    obtain ⟨hl, h₁, h₂⟩ := take_address hi hp payload
    simp only [List.cons_append, parseUdpDatagram, if_neg hl, h₁, h₂]
    simp [hi, hp]
  case v6 ip port hi hp =>
    obtain ⟨hl, h₁, h₂⟩ := take_address hi hp payload
    simp only [List.cons_append, parseUdpDatagram, if_neg (show (0x04 : UInt8) ≠ 0x01 by decide),
      if_neg hl, h₁, h₂]
    simp [hi, hp]
  case domain len name port hi hp =>
    obtain ⟨hl, h₁, h₂⟩ := take_address hi hp payload
    simp only [List.cons_append, parseUdpDatagram, if_neg (show (0x03 : UInt8) ≠ 0x01 by decide),
      if_neg (show (0x03 : UInt8) ≠ 0x04 by decide), if_neg hl, h₁, h₂]
    simp [hi, hp]
    omega

-- The length of a name is read without a look at whether it is there.
theorem parse_outOfBounds_iff :
    parseUdpDatagram buf = .error .outOfBounds ↔ buf.length = 4 ∧ buf[3]? = some 0x03 := by
  constructor
  case mp =>
    intro h
    simp only [parseUdpDatagram] at h
    split at h
    case h_2 => cases h
    case h_1 r₀ r₁ frag' atyp bs =>
      split at h
      case isTrue => split at h <;> cases h
      split at h
      case isTrue => split at h <;> cases h
      split at h
      case isFalse => cases h
      case isTrue ha =>
        split at h
        case h_1 => exact ⟨rfl, congrArg some ha⟩
        case h_2 => split at h <;> cases h
  case mpr =>
    rintro ⟨hl, ha⟩
    obtain ⟨r₀, r₁, frag', atyp, rfl⟩ : ∃ r₀ r₁ frag' atyp, buf = [r₀, r₁, frag', atyp] := by
      rcases buf with _ | ⟨r₀, _ | ⟨r₁, _ | ⟨frag', _ | ⟨atyp, _ | ⟨b, bs⟩⟩⟩⟩⟩ <;> cases hl
      exact ⟨r₀, r₁, frag', atyp, rfl⟩
    cases ha
    rfl

theorem parse_of_truncated {more : List UInt8} (h : Header frag target (buf ++ more)) (hm : more ≠ [])
    (hb : parseUdpDatagram buf ≠ .error .outOfBounds) : parseUdpDatagram buf = .error .short := by
  have hpos := List.length_pos_iff.mpr hm
  obtain ⟨r₀, r₁, address, ha, he⟩ := h
  rcases buf with _ | ⟨b₀, _ | ⟨b₁, _ | ⟨b₂, _ | ⟨atyp, bs⟩⟩⟩⟩
  case nil | cons.nil | cons.cons.nil | cons.cons.cons.nil => rfl
  case cons.cons.cons.cons =>
    simp only [List.cons_append, List.cons.injEq] at he
    obtain ⟨-, -, -, rfl⟩ := he
    have hlen {n : Nat} {a port : List UInt8} (h : a ++ port = bs ++ more) (ha : a.length = n)
        (hp : port.length = 2) : bs.length < n + 2 := by
      have := congrArg List.length h
      rw [List.length_append, List.length_append, ha, hp] at this
      omega
    generalize hx : atyp :: (bs ++ more) = x at ha
    cases ha
    case v4 ip port hi hp =>
      obtain ⟨rfl, he⟩ := List.cons.inj hx
      simp only [parseUdpDatagram, if_pos (hlen he.symm hi hp), if_true]
    case v6 ip port hi hp =>
      obtain ⟨rfl, he⟩ := List.cons.inj hx
      simp only [parseUdpDatagram, if_neg (show (0x04 : UInt8) ≠ 0x01 by decide),
        if_pos (hlen he.symm hi hp), if_true]
    case domain len name port hi hp =>
      obtain ⟨rfl, he⟩ := List.cons.inj hx
      rcases bs with _ | ⟨len', bs⟩
      case nil => exact absurd rfl hb
      case cons =>
        obtain ⟨rfl, he⟩ := List.cons.inj he
        have hl : bs.length < len'.toNat + 2 := by
          have := congrArg List.length he
          simp only [List.cons_append, List.length_cons, List.length_append] at this
          omega
        simp only [parseUdpDatagram, if_neg (show (0x03 : UInt8) ≠ 0x01 by decide),
          if_neg (show (0x03 : UInt8) ≠ 0x04 by decide), if_pos hl, if_true]

-- A target without a scope is written as what it is read from.
theorem header_encodeUdpDatagram (ht : Plain target) (hp : target.port < 65536)
    (hn : ∀ host port, target = .domain host port → (Utf8.encode host.toList).length ≤ 255) :
    Header 0 target ([0, 0, 0] ++ encodeAddress target) := by
  refine ⟨0, 0, _, ?_, rfl⟩
  have hport : ofBe (toBe 2 target.port) = target.port := ofBe_toBe_of_lt hp
  cases target
  case socket addr =>
    obtain ⟨ip, port, rfl⟩ := ht addr rfl
    cases ip
    case v4 a =>
      have := Address.v4 (length_toBe 4 a.toNat) (length_toBe 2 port)
      rwa [ofBe_toBe_bitVec 4 a rfl, show ofBe (toBe 2 port) = port from hport] at this
    case v6 a =>
      have := Address.v6 (length_toBe 16 a.toNat) (length_toBe 2 port)
      rwa [ofBe_toBe_bitVec 16 a rfl, show ofBe (toBe 2 port) = port from hport] at this
  case domain host port =>
    have hl := hn host port rfl
    have hd : (UInt8.ofNat (Utf8.encode host.toList).length).toNat = (Utf8.encode host.toList).length :=
      UInt8.toNat_ofNat_of_lt' (Nat.lt_succ_of_le hl)
    have := Address.domain hd.symm (length_toBe 2 port)
    rw [show ofBe (toBe 2 port) = port from hport, Utf8.decodeLossy_encode, String.ofList_toList] at this
    rwa [encodeAddress, List.take_of_length_le hl]

end

section

open Utf8

-- The replacement character.
theorem encodeChar_replacement : String.utf8EncodeChar '\uFFFD' = [0xef, 0xbf, 0xbd] := by
  decide

theorem decodeLossyCore_broken {rest : List UInt8} {n : Nat} (hr : rest = [0xef] ∨ rest = [0xef, 0xbf])
    (hn : rest.length ≤ n) : decodeLossyCore n rest = ['\uFFFD'] := by
  cases n
  case zero => rcases hr with rfl | rfl <;> cases hn
  case succ n =>
    rcases hr with rfl | rfl
    all_goals
      rw [decodeLossyCore, show decodeChar _ = none by decide]
      · cases n <;> rfl
      · rintro ⟨⟩

-- The first `n` bytes of a text end between two characters or in the middle of one.
theorem take_encode (s : List Char) (n : Nat) :
    (∃ t, (encode s).take n = encode t) ∨
    ∃ t c u p q, s = t ++ c :: u ∧ String.utf8EncodeChar c = p ++ q ∧ p ≠ [] ∧ q ≠ [] ∧
      (encode s).take n = encode t ++ p := by
  induction s generalizing n
  case nil => exact .inl ⟨[], by simp [encode]⟩
  case cons c s hi =>
    rw [encode_cons, List.take_append]
    by_cases hc : (String.utf8EncodeChar c).length ≤ n
    case pos =>
      rw [List.take_of_length_le hc]
      obtain ⟨t, ht⟩ | ⟨t, c', u, p, q, rfl, hpq, hp, hq, ht⟩ := hi (n - (String.utf8EncodeChar c).length)
      case inl => exact .inl ⟨c :: t, by rw [ht, encode_cons]⟩
      case inr =>
        exact .inr ⟨c :: t, c', u, p, q, rfl, hpq, hp, hq, by rw [ht, encode_cons, List.append_assoc]⟩
    case neg =>
      rw [Nat.sub_eq_zero_of_le (Nat.le_of_not_le hc), List.take_zero, List.append_nil]
      cases n
      case zero => exact .inl ⟨[], rfl⟩
      case succ n =>
        refine .inr ⟨[], c, s, (String.utf8EncodeChar c).take (n + 1), (String.utf8EncodeChar c).drop (n + 1),
          rfl, (List.take_append_drop _ _).symm, ?_, ?_, rfl⟩
        case refine_1 =>
          have hp := length_encodeChar_pos c
          intro he
          have := congrArg List.length he
          rw [List.length_take, List.length_nil] at this
          omega
        case refine_2 =>
          intro he
          exact hc (List.drop_eq_nil_iff.mp he)

-- The front of a character is none.
theorem decodeChar_front {c : Char} {p q : List UInt8} (h : String.utf8EncodeChar c = p ++ q) (hq : q ≠ []) :
    decodeChar p = none := by
  cases hd : decodeChar p
  case none => rfl
  case some c' =>
    obtain ⟨rest, rfl⟩ := eq_of_decodeChar hd
    have h₁ := decodeChar_encodeChar c []
    rw [List.append_nil, h, List.append_assoc, decodeChar_encodeChar] at h₁
    cases h₁
    have := congrArg List.length h
    have hpos := List.length_pos_iff.mpr hq
    rw [List.length_append, List.length_append] at this
    omega

theorem front_replacement {p q : List UInt8} (h : String.utf8EncodeChar '\uFFFD' = p ++ q) (hp : p ≠ [])
    (hq : q ≠ []) : p = [0xef] ∨ p = [0xef, 0xbf] := by
  rw [encodeChar_replacement] at h
  rcases p with _ | ⟨a, _ | ⟨b, _ | ⟨c, p⟩⟩⟩
  case nil => exact absurd rfl hp
  case cons.nil =>
    cases h
    exact .inl rfl
  case cons.cons.nil =>
    cases h
    exact .inr rfl
  case cons.cons.cons =>
    simp only [List.cons_append, List.cons.injEq] at h
    exact absurd (List.append_eq_nil_iff.mp h.2.2.2.symm).2 hq

-- What is written of a name that has been read.
theorem take_decodeLossy_iff {name : List UInt8} (hl : name.length ≤ 255) :
    (encode (decodeLossy name)).take 255 = name ↔ Echoed name := by
  constructor
  case mp =>
    intro h
    obtain ⟨t, ht⟩ | ⟨t, c, u, p, q, hs, hpq, hp, hq, ht⟩ := take_encode (decodeLossy name) 255
    case inl => exact ⟨t, [], by rw [← h, ht, List.append_nil], .inl rfl⟩
    case inr =>
      have hn : name = encode t ++ p := h.symm.trans ht
      obtain ⟨n, hle, hd⟩ := decodeLossy_append t p
      rw [← hn, hs, List.append_cancel_left_eq] at hd
      have hlen : name.length = 255 := by
        have h₁ : name.length = min 255 (encode (decodeLossy name)).length := by
          rw [← List.length_take, h]
        have h₂ : name.length < (encode (decodeLossy name)).length := by
          have hpos := List.length_pos_iff.mpr hq
          rw [hn, ← hn, hs, encode_append, encode_cons, hpq, hn]
          simp only [List.length_append]
          omega
        omega
      have hc : c = '\uFFFD' := by
        cases n
        case zero => exact absurd (List.eq_nil_of_length_eq_zero (Nat.le_zero.mp hle)) hp
        case succ n =>
          cases p
          case nil => exact absurd rfl hp
          case cons b p =>
            rw [decodeLossyCore, decodeChar_front hpq hq] at hd
            · exact (List.cons.inj hd).1
            · rintro ⟨⟩
      subst hc
      exact ⟨t, p, hn, .inr ⟨hlen, front_replacement hpq hp hq⟩⟩
  case mpr =>
    rintro ⟨text, rest, rfl, rfl | ⟨hlen, hr⟩⟩
    case inl => rw [List.append_nil, decodeLossy_encode, List.take_of_length_le (by simpa using hl)]
    case inr =>
      obtain ⟨n, hle, hd⟩ := decodeLossy_append text rest
      obtain ⟨more, hm⟩ : ∃ more, encode ['\uFFFD'] = rest ++ more := by
        rcases hr with rfl | rfl
        · exact ⟨[0xbf, 0xbd], rfl⟩
        · exact ⟨[0xbd], rfl⟩
      rw [hd, decodeLossyCore_broken hr hle, encode_append, hm, ← List.append_assoc, List.take_left' hlen]

-- Writing a destination that has been read.
theorem encodeAddress_iff {address : List UInt8} {target : Target} (h : Address address target)
    (payload : List UInt8) : encodeAddress target = address ↔
      ((address ++ payload)[0]? = some 0x03 →
        Echoed (((address ++ payload).drop 2).take (address.length - 4))) := by
  cases h
  case v4 ip port hi hp =>
    refine iff_of_true ?_ (by simp)
    rw [SocketAddr.new, encodeAddress, toNat_ofBe (by rw [hi]; rfl), toBe_ofBe_of_length hi,
      toBe_ofBe_of_length hp]
  case v6 ip port hi hp =>
    refine iff_of_true ?_ (by simp)
    rw [SocketAddr.new, encodeAddress, toNat_ofBe (by rw [hi]; rfl), toBe_ofBe_of_length hi,
      toBe_ofBe_of_length hp]
  case domain len name port hn hp =>
    have hlt := len.toNat_lt
    have hname : ((0x03 :: len :: (name ++ port) ++ payload).drop 2).take
        ((0x03 :: len :: (name ++ port)).length - 4) = name := by
      simp only [List.cons_append, List.drop_succ_cons, List.drop_zero, List.length_cons,
        List.length_append, hp, List.append_assoc]
      exact List.take_left' (by omega)
    rw [hname, ← take_decodeLossy_iff (by omega), encodeAddress, String.toList_ofList,
      toBe_ofBe_of_length hp]
    simp only [List.cons_append, List.getElem?_cons_zero, forall_const, List.cons.injEq, true_and]
    constructor
    case mp => exact fun h => List.append_cancel_right h.2
    case mpr =>
      intro h
      rw [h, hn, UInt8.ofNat_toNat]
      exact ⟨rfl, rfl⟩

end

-- Four bytes that announce a name are left out.
def AnnouncesOnly (buf : List UInt8) : Prop :=
  buf.length = 4 ∧ buf[3]? = some 0x03

-- Parsing stays within the datagram and refuses broken headers, and it is the inverse of writing.
theorem parse_encode_inverse :
    (∀ buf, ¬AnnouncesOnly buf → parseUdpDatagram buf ≠ .error .outOfBounds) ∧
    (∀ buf more frag target, more ≠ [] → Header frag target (buf ++ more) → ¬AnnouncesOnly buf →
      parseUdpDatagram buf = .error .short) ∧
    (∀ buf frag target off, parseUdpDatagram buf = .ok (frag, target, off) → off ≤ buf.length) ∧
    (∀ target payload, Plain target → target.port < 65536 →
      (∀ host port, target = .domain host port → (Utf8.encode host.toList).length ≤ 255) →
      parseUdpDatagram (encodeUdpDatagram target payload) =
        .ok (0, target, (encodeUdpDatagram target payload).length - payload.length)) ∧
    ∀ buf target off, buf.take 2 = [0, 0] → parseUdpDatagram buf = .ok (0, target, off) →
      (encodeUdpDatagram target (buf.drop off) = buf ↔
        (buf[3]? = some 0x03 → Echoed ((buf.drop 5).take (off - 7)))) := by
  refine ⟨fun buf hb h => hb (parse_outOfBounds_iff.mp h), fun buf more frag target hm hh hb => ?_,
    fun buf frag target off h => ?_, fun target payload ht hp hn => ?_, fun buf target off hr h => ?_⟩
  case refine_1 => exact parse_of_truncated hh hm fun h => hb (parse_outOfBounds_iff.mp h)
  case refine_2 =>
    obtain ⟨header, payload, _, rfl, rfl⟩ := header_of_parse h
    rw [List.length_append]
    exact Nat.le_add_right _ _
  case refine_3 =>
    have := parse_of_header (header_encodeUdpDatagram ht hp hn) payload
    rwa [← encodeUdpDatagram, ← Nat.add_sub_cancel (List.length _) payload.length, ← List.length_append,
      ← encodeUdpDatagram] at this
  case refine_4 =>
    obtain ⟨header, payload, ⟨r₀, r₁, address, ha, rfl⟩, rfl, rfl⟩ := header_of_parse h
    obtain ⟨rfl, rfl⟩ : r₀ = 0 ∧ r₁ = 0 := by simpa using hr
    have hi := encodeAddress_iff ha payload
    rw [List.drop_left, encodeUdpDatagram]
    simpa using hi

-- The first nine bytes of a query, the query and its header, and a name.
theorem parse_encode_inverse_query :
    parseUdpDatagram [0, 0, 0, 1, 1, 2, 3, 4, 0] = .error .short ∧
    parseUdpDatagram (encodeUdpDatagram (.domain "a" 53) [42]) = .ok (0, .domain "a" 53, 8) ∧
    encodeUdpDatagram (.domain "a" 53) [42] = [0, 0, 0, 3, 1, 97, 0, 53, 42] := by
  have ⟨h₁, h₂, h₃, h₄, h₅⟩ := parse_encode_inverse
  have hh : Header 0 (.socket (.new (.v4 (.ofNat 32 (ofBe [1, 2, 3, 4]))) (ofBe [0, 53])))
      [0, 0, 0, 1, 1, 2, 3, 4, 0, 53] := ⟨0, 0, _, .v4 rfl rfl, rfl⟩
  have hp := h₄ (.domain "a" 53) [42] (by rintro _ ⟨⟩) (by decide) (by rintro _ _ ⟨⟩; decide)
  have hq : parseUdpDatagram [0, 0, 0, 3, 1, 97, 0, 53, 42] = .ok (0, .domain "a" 53, 8) := hp
  refine ⟨h₂ [0, 0, 0, 1, 1, 2, 3, 4, 0] [53] 0 _ (by simp) hh fun h => absurd h.1 (by decide),
    hp, ?_⟩
  exact (h₅ [0, 0, 0, 3, 1, 97, 0, 53, 42] _ _ rfl hq).mpr fun _ => ⟨['a'], [], rfl, .inl rfl⟩

-- The four bytes, the scope of an address, and a name that is no text.
theorem header_bytes_lost :
    parseUdpDatagram [0, 0, 0, 3] = .error .outOfBounds ∧
    (let target := .socket (.v6 1 53 0 3)
     parseUdpDatagram (encodeUdpDatagram target []) = .ok (0, .socket (.v6 1 53 0 0), 22) ∧
       (.socket (.v6 1 53 0 0) : Target) ≠ target) ∧
    parseUdpDatagram [0, 0, 0, 3, 1, 0xff, 0, 53] = .ok (0, .domain "\uFFFD" 53, 8) ∧
      encodeUdpDatagram (.domain "\uFFFD" 53) [] ≠ [0, 0, 0, 3, 1, 0xff, 0, 53] := by
  decide +kernel

end JammVpn.Udp
