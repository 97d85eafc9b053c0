import Mathlib.Data.List.Basic

-- UTF-8 as `str::as_bytes`, `String::from_utf8` and `String::from_utf8_lossy` see it.
namespace Utf8

def encode (s : List Char) : List UInt8 :=
  s.flatMap String.utf8EncodeChar

-- UTF-16 code units: characters above the first plane are pairs of surrogates.
def utf16Char (c : Char) : List UInt16 :=
  if c.toNat < 0x10000 then [.ofNat c.toNat]
  else [.ofNat (0xd800 + (c.toNat - 0x10000) / 0x400), .ofNat (0xdc00 + (c.toNat - 0x10000) % 0x400)]

def utf16 (s : List Char) : List UInt16 :=
  s.flatMap utf16Char

-- The character at the front of the input.
def decodeChar (bs : List UInt8) : Option Char :=
  bs.toByteArray.utf8DecodeChar? 0

-- The fuel is the number of bytes: every character takes at least one.
def decodeCore : Nat → List UInt8 → Option (List Char)
  | _, []     => some []
  | 0, _      => none
  | n + 1, bs => do
    let c ← decodeChar bs
    let cs ← decodeCore n (bs.drop c.utf8Size)
    return c :: cs

def decode (bs : List UInt8) : Option (List Char) :=
  decodeCore bs.length bs

def isContinuation (b : UInt8) : Bool :=
  0x80 ≤ b && b ≤ 0xbf

-- Can `b` follow the first byte of a sequence of three or four bytes?
def acceptsSecond (first b : UInt8) : Bool :=
  (first == 0xe0 && 0xa0 ≤ b && b ≤ 0xbf) ||
  (0xe1 ≤ first && first ≤ 0xec && isContinuation b) ||
  (first == 0xed && 0x80 ≤ b && b ≤ 0x9f) ||
  (0xee ≤ first && first ≤ 0xef && isContinuation b) ||
  (first == 0xf0 && 0x90 ≤ b && b ≤ 0xbf) ||
  (0xf1 ≤ first && first ≤ 0xf3 && isContinuation b) ||
  (first == 0xf4 && 0x80 ≤ b && b ≤ 0x8f)

-- How many bytes one replacement character stands for.
def invalidLength : List UInt8 → Nat
  | first :: b :: c :: _ =>
    if acceptsSecond first b then if 0xf0 ≤ first && isContinuation c then 3 else 2 else 1
  | [first, b] => if acceptsSecond first b then 2 else 1
  | _ => 1

def decodeLossyCore : Nat → List UInt8 → List Char
  | _, []     => []
  | 0, _      => []
  | n + 1, bs =>
    match decodeChar bs with
    | some c => c :: decodeLossyCore n (bs.drop c.utf8Size)
    | none   => '\uFFFD' :: decodeLossyCore n (bs.drop (invalidLength bs))

def decodeLossy (bs : List UInt8) : List Char :=
  decodeLossyCore bs.length bs

theorem decodeChar_encodeChar (c : Char) (bs : List UInt8) :
    decodeChar (String.utf8EncodeChar c ++ bs) = some c := by
  rw [decodeChar, List.toByteArray_append, ByteArray.utf8DecodeChar?_utf8EncodeChar_append]

theorem length_encodeChar_pos (c : Char) : 0 < (String.utf8EncodeChar c).length :=
  String.length_utf8EncodeChar c ▸ c.utf8Size_pos

theorem encode_cons (c : Char) (s : List Char) :
    encode (c :: s) = String.utf8EncodeChar c ++ encode s :=
  List.flatMap_cons

theorem encode_append (s t : List Char) : encode (s ++ t) = encode s ++ encode t :=
  List.flatMap_append

theorem decodeCore_encode {s : List Char} {n : Nat} (h : (encode s).length ≤ n) :
    decodeCore n (encode s) = some s := by
  induction s generalizing n
  case nil => cases n <;> rfl
  case cons c s hi =>
    have hp := length_encodeChar_pos c
    rw [encode_cons] at h ⊢
    rw [List.length_append] at h
    cases n
    case zero => omega
    case succ n =>
      cases hb : String.utf8EncodeChar c ++ encode s
      case nil => simp_all
      case cons => simp [decodeCore, ← hb, decodeChar_encodeChar, hi (n := n) (by omega)]

theorem decode_encode (s : List Char) : decode (encode s) = some s :=
  decodeCore_encode (Nat.le_refl _)

theorem decodeLossyCore_encode {s : List Char} {n : Nat} (h : (encode s).length ≤ n) :
    decodeLossyCore n (encode s) = s := by
  induction s generalizing n
  case nil => cases n <;> rfl
  case cons c s hi =>
    have hp := length_encodeChar_pos c
    rw [encode_cons] at h ⊢
    rw [List.length_append] at h
    cases n
    case zero => omega
    case succ n =>
      cases hb : String.utf8EncodeChar c ++ encode s
      case nil  => simp_all
      case cons => simp [decodeLossyCore, ← hb, decodeChar_encodeChar, hi (n := n) (by omega)]

theorem decodeLossy_encode (s : List Char) : decodeLossy (encode s) = s :=
  decodeLossyCore_encode (Nat.le_refl _)

-- A string at the front is decoded whatever follows it.
theorem encode_inj {s t : List Char} (h : encode s = encode t) : s = t := by
  rw [← decodeLossy_encode s, h, decodeLossy_encode]

theorem decodeLossyCore_append (s : List Char) {bs : List UInt8} {n : Nat} (h : s.length ≤ n) :
    decodeLossyCore n (encode s ++ bs) = s ++ decodeLossyCore (n - s.length) bs := by
  induction s generalizing n
  case nil => rfl
  case cons c s hi =>
    have hp := length_encodeChar_pos c
    rw [encode_cons, List.append_assoc]
    cases n
    case zero => cases h
    case succ n =>
      cases hb : String.utf8EncodeChar c ++ (encode s ++ bs)
      case nil  => simp_all
      case cons =>
        simp [decodeLossyCore, ← hb, decodeChar_encodeChar, hi (Nat.le_of_succ_le_succ h)]

theorem length_le_length_encode (s : List Char) : s.length ≤ (encode s).length := by
  induction s
  case nil => exact Nat.le_refl _
  case cons c s hi =>
    have hp := length_encodeChar_pos c
    rw [encode_cons, List.length_append, List.length_cons]
    omega

-- There is fuel left for every byte behind the string.
theorem decodeLossy_append (s : List Char) (bs : List UInt8) :
    ∃ n, bs.length ≤ n ∧ decodeLossy (encode s ++ bs) = s ++ decodeLossyCore n bs := by
  have hl := length_le_length_encode s
  refine ⟨_, ?_, decodeLossyCore_append s ?_⟩ <;> rw [List.length_append] <;> omega

-- The byte of a character that has only one is part of no other character.
theorem eq_of_mem_encodeChar {a c : Char} {b : UInt8} (ha : String.utf8EncodeChar a = [b])
    (h : b ∈ String.utf8EncodeChar c) : c = a := by
  have ⟨i, hi, he⟩ := List.getElem_of_mem h
  have hf : b.IsUTF8FirstByte := by
    have := @UInt8.isUTF8FirstByte_getElem_zero_utf8EncodeChar a
    simpa [ha] using this
  have h0 : i = 0 := UInt8.isUTF8FirstByte_getElem_utf8EncodeChar.mp (he ▸ hf)
  subst h0
  have hd := decodeChar_encodeChar c []
  cases hc : String.utf8EncodeChar c
  case nil => simp [hc] at hi
  case cons b' bs =>
    have hb : b' = b := by simpa [hc] using he
    have hd' := decodeChar_encodeChar a bs
    simp only [List.append_nil, hc, hb, ha, List.singleton_append] at hd hd'
    exact Option.some.inj (hd.symm.trans hd')

theorem not_mem_encode {a : Char} {b : UInt8} {s : List Char} (ha : String.utf8EncodeChar a = [b])
    (h : a ∉ s) : b ∉ encode s := by
  intro hb
  have ⟨c, hc, hb⟩ := List.mem_flatMap.mp hb
  exact h (eq_of_mem_encodeChar ha hb ▸ hc)

theorem eq_of_decodeChar {bs : List UInt8} {c : Char} (h : decodeChar bs = some c) :
    ∃ rest, bs = String.utf8EncodeChar c ++ rest := by
  obtain ⟨l, hl⟩ := ByteArray.exists_of_utf8DecodeChar?_eq_some h
  refine ⟨l.data.toList, ?_⟩
  have hd := congrArg (fun b => b.data.toList) hl
  simpa using hd

theorem le_of_acceptsSecond {first b : UInt8} (h : acceptsSecond first b = true) : 0x80 ≤ b := by
  simp only [acceptsSecond, isContinuation, Bool.or_eq_true, Bool.and_eq_true, decide_eq_true_eq,
    UInt8.le_iff_toNat_le] at h ⊢
  simp only [UInt8.reduceToNat] at h ⊢
  omega

theorem not_mem_invalid {a : Char} {b : UInt8} (ha : String.utf8EncodeChar a = [b]) (hb : b < 0x80)
    {bs : List UInt8} (h : decodeChar bs = none) : b ∉ bs.take (invalidLength bs) := by
  have hfirst : ∀ rest, bs ≠ b :: rest := by
    rintro rest rfl
    have hd := decodeChar_encodeChar a rest
    rw [ha] at hd
    cases h.symm.trans hd
  have hlow : ∀ x : UInt8, 0x80 ≤ x → x ≠ b := by
    rintro x hx rfl
    exact absurd hb (UInt8.not_lt.mpr hx)
  have hne : ∀ x rest, bs = x :: rest → b ≠ x := by
    rintro x rest hx rfl
    exact hfirst rest hx
  fun_cases invalidLength bs
  case case1 first x y _ hs hy =>
    have hy : 0x80 ≤ y := by simp [isContinuation] at hy; exact hy.2.1
    simp [hne first _ rfl, Ne.symm (hlow x (le_of_acceptsSecond hs)), Ne.symm (hlow y hy)]
  case case2 first x y _ hs hy =>
    simp [hne first _ rfl, Ne.symm (hlow x (le_of_acceptsSecond hs))]
  case case3 first x y _ hs => simp [hne first _ rfl]
  case case4 first x hs => simp [hne first _ rfl, Ne.symm (hlow x (le_of_acceptsSecond hs))]
  case case5 first x hs => simp [hne first _ rfl]
  case case6 =>
    intro hm
    rcases bs with _ | ⟨x, tl⟩
    · cases hm
    · exact hne x tl rfl (List.mem_singleton.mp hm)

-- A byte that is a character of its own stays one, whatever is around it.
theorem count_decodeLossyCore {a : Char} {b : UInt8} (ha : String.utf8EncodeChar a = [b]) (hb : b < 0x80)
    (hr : a ≠ '\uFFFD') {bs : List UInt8} {n : Nat} (hn : bs.length ≤ n) :
    (decodeLossyCore n bs).count a = bs.count b := by
  induction n generalizing bs
  case zero =>
    rw [List.eq_nil_of_length_eq_zero (Nat.le_zero.mp hn)]
    rfl
  case succ n hi =>
    cases bs
    case nil => rfl
    case cons x tl =>
      cases hd : decodeChar (x :: tl)
      case none =>
        have hpos : 0 < invalidLength (x :: tl) := by
          fun_cases invalidLength (x :: tl) <;> decide
        have hlen : ((x :: tl).drop (invalidLength (x :: tl))).length ≤ n := by
          rw [List.length_drop, List.length_cons]
          rw [List.length_cons] at hn
          omega
        have hc : (decodeLossyCore (n + 1) (x :: tl)) =
            '\uFFFD' :: decodeLossyCore n ((x :: tl).drop (invalidLength (x :: tl))) := by
          rw [decodeLossyCore, hd]
          exact fun h => by cases h
        have hsplit := congrArg (List.count b) (List.take_append_drop (invalidLength (x :: tl)) (x :: tl))
        rw [List.count_append, List.count_eq_zero.mpr (not_mem_invalid ha hb hd), Nat.zero_add] at hsplit
        rw [hc, List.count_cons_of_ne (Ne.symm hr), hi hlen, hsplit]
      case some c =>
        obtain ⟨rest, hrest⟩ := eq_of_decodeChar hd
        have hdrop : (x :: tl).drop c.utf8Size = rest := by
          rw [hrest, ← String.length_utf8EncodeChar, List.drop_left]
        have hlen : rest.length ≤ n := by
          have := congrArg List.length hrest
          have hp := length_encodeChar_pos c
          rw [List.length_append] at this
          omega
        have hc : (decodeLossyCore (n + 1) (x :: tl)) = c :: decodeLossyCore n rest := by
          rw [decodeLossyCore, hd]
          · exact congrArg (fun r => c :: decodeLossyCore n r) hdrop
          · exact fun h => by cases h
        rw [hc, hrest, List.count_append, List.count_cons, hi hlen, Nat.add_comm]
        congr 1
        by_cases hca : c = a
        case pos => simp [hca, ha]
        case neg =>
          rw [if_neg (by simpa using hca), List.count_eq_zero.mpr fun hm => hca (eq_of_mem_encodeChar ha hm)]

theorem count_decodeLossy {a : Char} {b : UInt8} (ha : String.utf8EncodeChar a = [b]) (hb : b < 0x80)
    (hr : a ≠ '\uFFFD') (bs : List UInt8) : (decodeLossy bs).count a = bs.count b :=
  count_decodeLossyCore ha hb hr (Nat.le_refl _)

end Utf8
