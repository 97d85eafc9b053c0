import JammVpn.Core.Base64
import JammVpn.Lib.Bytes

-- Base64 texts in either alphabet, padded or not, and in any lines.
namespace JammVpn.Base64

open Text

-- What the decoder leaves out.
def isFiller (c : Char) : Bool :=
  c ∈ ['=', '\r', '\n', ' ', '\t']

-- The symbol of the standard alphabet.
def standard (c : Char) : Char :=
  if c = '-' then '+' else if c = '_' then '/' else c

def symbols (t : List Char) : List Char :=
  (t.filter fun c => !isFiller c).map standard

-- A text that has the symbols of the encoded bytes.
def IsText (bytes : List UInt8) (t : List Char) : Prop :=
  symbols t = symbols (encodeChunks bytes)

section

variable {bytes : List UInt8} {t : List Char} {s : DecodeState} {c : Char}

theorem isText_encodeChunks (bytes : List UInt8) : IsText bytes (encodeChunks bytes) :=
  rfl

theorem foldlM_filler (h : isFiller c = true) : (String.utf8EncodeChar c).foldlM decodeStep s = .ok s := by
  have hc : c = '=' ∨ c = '\r' ∨ c = '\n' ∨ c = ' ' ∨ c = '\t' := by simpa [isFiller] using h
  rcases hc with rfl | rfl | rfl | rfl | rfl <;> rfl

theorem foldlM_standard (c : Char) :
    (String.utf8EncodeChar (standard c)).foldlM decodeStep s = (String.utf8EncodeChar c).foldlM decodeStep s := by
  rw [standard]
  split
  case isTrue h =>
    subst h
    rfl
  split
  case isTrue h =>
    subst h
    rfl
  case isFalse => rfl

theorem foldlM_encode_cons (c : Char) (t : List Char) (s : DecodeState) :
    (Utf8.encode (c :: t)).foldlM decodeStep s =
      (String.utf8EncodeChar c).foldlM decodeStep s >>= fun s => (Utf8.encode t).foldlM decodeStep s := by
  rw [Utf8.encode_cons, List.foldlM_append]

-- The decoder only sees the symbols.
theorem foldlM_symbols (t : List Char) (s : DecodeState) :
    (Utf8.encode (symbols t)).foldlM decodeStep s = (Utf8.encode t).foldlM decodeStep s := by
  induction t generalizing s
  case nil => rfl
  case cons c t hi =>
    rw [foldlM_encode_cons, symbols]
    by_cases hc : isFiller c = true
    case pos =>
      rw [List.filter_cons_of_neg (by simpa using hc), foldlM_filler hc]
      exact hi s
    case neg =>
      rw [List.filter_cons_of_pos (by simpa using hc), List.map_cons, foldlM_encode_cons, foldlM_standard]
      exact congrArg _ (funext hi)

theorem decodeLoose_isText (h : IsText bytes t) : decodeLoose (.ofList t) = .ok bytes := by
  have hs := foldlM_symbols t ⟨[], 0, 0⟩
  have he := foldlM_symbols (encodeChunks bytes) ⟨[], 0, 0⟩
  rw [h, he] at hs
  have hd := decodeLoose_encodeStandard bytes
  rw [encodeStandard, decodeLoose, String.toList_ofList, hs] at hd
  rw [decodeLoose, String.toList_ofList, hd]

theorem decodeToString_isText {text : List Char} (h : IsText (Utf8.encode text) t) :
    decodeToString (.ofList t) = .ok (.ofList text) := by
  rw [decodeToString, decodeLoose_isText h]
  simp only [bind, Except.bind, Utf8.decode_encode]
  rfl

theorem mem_encodeChunks (h : c ∈ encodeChunks bytes) : c ∈ alphabet ∨ c = '=' := by
  have hsym (n : Nat) : symbol n ∈ alphabet ∨ symbol n = '=' := by
    rw [symbol, List.getD_eq_getElem?_getD]
    cases hd : alphabet[n % 64]?
    case none   => exact .inr rfl
    case some d => exact .inl (List.mem_of_getElem? hd)
  fun_induction encodeChunks bytes
  case case1 => cases h
  case case2 =>
    simp only [List.mem_cons, List.not_mem_nil, or_false] at h
    rcases h with rfl | rfl | h | h
    · exact hsym _
    · exact hsym _
    · exact .inr h
    · exact .inr h
  case case3 =>
    simp only [List.mem_cons, List.not_mem_nil, or_false] at h
    rcases h with rfl | rfl | rfl | h
    · exact hsym _
    · exact hsym _
    · exact hsym _
    · exact .inr h
  case case4 hi =>
    simp only [List.mem_cons] at h
    rcases h with rfl | rfl | rfl | rfl | h
    · exact hsym _
    · exact hsym _
    · exact hsym _
    · exact hsym _
    · exact hi h

-- What such a text consists of.
theorem mem_isText (h : IsText bytes t) (hc : c ∈ t) :
    isFiller c = true ∨ c ∈ alphabet ∨ c = '-' ∨ c = '_' := by
  by_cases hf : isFiller c = true
  case pos => exact .inl hf
  case neg =>
    have hm : standard c ∈ symbols t := List.mem_map_of_mem (List.mem_filter.mpr ⟨hc, by simpa using hf⟩)
    rw [h] at hm
    obtain ⟨d, hd, he⟩ := List.mem_map.mp hm
    obtain ⟨hd, hdf⟩ := List.mem_filter.mp hd
    have hda : d ∈ alphabet := (mem_encodeChunks hd).resolve_right fun h => by simp [h, isFiller] at hdf
    have hsd : standard d = d := by
      have h₁ : d ≠ '-' := by
        rintro rfl
        exact absurd hda (by decide)
      have h₂ : d ≠ '_' := by
        rintro rfl
        exact absurd hda (by decide)
      rw [standard, if_neg h₁, if_neg h₂]
    rw [hsd] at he
    rw [standard] at he
    split at he
    case isTrue h₁ => exact .inr (.inr (.inl h₁))
    split at he
    case isTrue h₁ => exact .inr (.inr (.inr h₁))
    case isFalse => exact .inr (.inl (he ▸ hda))

theorem not_mem_isText (h : IsText bytes t) (hc : c ∉ '-' :: '_' :: '=' :: '\r' :: '\n' :: ' ' :: '\t' :: alphabet) :
    c ∉ t := by
  intro hm
  refine hc ?_
  rcases mem_isText h hm with hf | ha | rfl | rfl
  · have : c = '=' ∨ c = '\r' ∨ c = '\n' ∨ c = ' ' ∨ c = '\t' := by simpa [isFiller] using hf
    rcases this with rfl | rfl | rfl | rfl | rfl <;> simp
  · simp [ha]
  · simp
  · simp

-- One byte outside of the alphabet is enough to refuse a text.
theorem foldlM_invalid {b : UInt8} {bs : List UInt8} (hs : isSkipped b = false) (ht : decodeTable b = none)
    (hb : b ∈ bs) (s : DecodeState) : ∃ e, bs.foldlM decodeStep s = .error e := by
  induction bs generalizing s
  case nil => cases hb
  case cons b' bs hi =>
    rw [List.foldlM_cons]
    cases hd : decodeStep s b'
    case error e => exact ⟨e, rfl⟩
    case ok s' =>
      rcases List.mem_cons.mp hb with rfl | hb
      · simp [decodeStep, hs, ht] at hd
      · exact hi hb s'

theorem decodeToString_invalid {b : UInt8} (hs : isSkipped b = false) (ht : decodeTable b = none)
    (hb : b ∈ Utf8.encode t) : ∃ e, decodeToString (.ofList t) = .error e := by
  obtain ⟨e, he⟩ := foldlM_invalid hs ht hb ⟨[], 0, 0⟩
  refine ⟨e, ?_⟩
  rw [decodeToString, decodeLoose, String.toList_ofList, he]
  rfl

end

end JammVpn.Base64

-- What the decoder makes of a text: the bits of its symbols, cut into bytes.
namespace JammVpn.Base64

open Bytes Text

-- A text that has been moved to the other alphabet, stripped of padding and spread over lines, in part
-- or as a whole.
inductive Loosened : List Char → List Char → Prop
  | nil : Loosened [] []
  | keep {s t : List Char} (c : Char) : Loosened s t → Loosened (c :: s) (c :: t)
  | plus {s t : List Char} : Loosened s t → Loosened ('+' :: s) ('-' :: t)
  | slash {s t : List Char} : Loosened s t → Loosened ('/' :: s) ('_' :: t)
  | padding {s t : List Char} : Loosened s t → Loosened ('=' :: s) t
  | blank {s t : List Char} {c : Char} : c ∈ [' ', '\t', '\r', '\n'] → Loosened s t → Loosened s (c :: t)

-- The value of a byte, or the error that the decoder gives for it.
def valueOf (b : UInt8) : Except ParseError Nat :=
  match decodeTable b with
  | none   => .error (.base64 (.ofList ("недопустимый байт: 0x".toList ++ decodeStep.hex2 b.toNat)))
  | some v => .ok v

def valuesOf (bs : List UInt8) : Except ParseError (List Nat) :=
  (bs.filter fun b => !isSkipped b).mapM valueOf

-- The number that has these values as its digits.
def numberOf (vs : List Nat) : Nat :=
  vs.foldl (fun n v => n * 64 + v) 0

-- The bytes of this number, without the bits that do not fill one.
def bytesOf (vs : List Nat) : List UInt8 :=
  toBe (6 * vs.length / 8) (numberOf vs / 2 ^ (6 * vs.length % 8))

section Values

variable {vs : List Nat} {v : Nat} {b : UInt8} {s t : List Char}

theorem Loosened.symbols (h : Loosened s t) : symbols t = symbols s := by
  induction h
  case nil => rfl
  case keep c h hi =>
    simp only [Base64.symbols, List.filter_cons]
    split
    case isTrue =>
      rw [List.map_cons, List.map_cons]
      exact congrArg _ hi
    case isFalse => exact hi
  case plus h hi    => exact congrArg ('+' :: ·) hi
  case slash h hi   => exact congrArg ('/' :: ·) hi
  case padding h hi => exact hi
  case blank c hc h hi =>
    have hf : isFiller c = true := by
      simp only [List.mem_cons, List.not_mem_nil, or_false] at hc
      rcases hc with rfl | rfl | rfl | rfl <;> rfl
    rw [Base64.symbols, List.filter_cons_of_neg (by simpa using hf)]
    exact hi

theorem decodeTable_lt (h : decodeTable b = some v) : v < 64 := by
  simp only [decodeTable] at h
  split at h
  case isTrue =>
    cases h
    decide
  split at h
  case isTrue =>
    cases h
    decide
  case isFalse =>
    rw [List.idxOf?, List.findIdx?_eq_some_iff_findIdx_eq] at h
    exact h.1

theorem numberOf_append (vs : List Nat) (v : Nat) : numberOf (vs ++ [v]) = numberOf vs * 64 + v := by
  rw [numberOf, List.foldl_append]
  rfl

-- What the decoder holds after these values.
structure Holds (vs : List Nat) (s : DecodeState) : Prop where
  out  : s.out = bytesOf vs
  buf  : s.buf = numberOf vs % 2 ^ 32
  bits : s.bits = 6 * vs.length % 8

theorem holds_nil : Holds [] ⟨[], 0, 0⟩ :=
  ⟨rfl, rfl, rfl⟩

theorem bytesOf_append (hv : v < 64) :
    bytesOf (vs ++ [v]) =
      if 8 ≤ 6 * vs.length % 8 + 6 then
        bytesOf vs ++ [.ofNat (numberOf (vs ++ [v]) / 2 ^ (6 * vs.length % 8 + 6 - 8))]
      else bytesOf vs := by
  have hd : numberOf (vs ++ [v]) / 2 ^ 6 = numberOf vs := by
    rw [numberOf_append]
    omega
  have hp (r : Nat) : numberOf (vs ++ [v]) / 2 ^ (6 + r) = numberOf vs / 2 ^ r := by
    rw [Nat.pow_add, ← Nat.div_div_eq_div_mul, hd]
  simp only [bytesOf, List.length_append, List.length_singleton]
  split
  case isTrue h =>
    have hk : 6 * (vs.length + 1) / 8 = 6 * vs.length / 8 + 1 := by omega
    have hr : 6 * (vs.length + 1) % 8 = 6 * vs.length % 8 + 6 - 8 := by omega
    have hq : numberOf (vs ++ [v]) / 2 ^ (6 * vs.length % 8 + 6 - 8) / 256 =
        numberOf vs / 2 ^ (6 * vs.length % 8) := by
      rw [Nat.div_div_eq_div_mul, ← hp, show 256 = 2 ^ 8 from rfl, ← Nat.pow_add]
      congr 2
      omega
    rw [hk, hr, toBe, hq]
  case isFalse h =>
    have hk : 6 * (vs.length + 1) / 8 = 6 * vs.length / 8 := by omega
    have hr : 6 * (vs.length + 1) % 8 = 6 + 6 * vs.length % 8 := by omega
    rw [hk, hr, hp]

-- The bits above the 32 ones of the buffer are of no use: at most four bits wait below the next byte.
theorem Holds.push {s : DecodeState} (h : Holds vs s) (hv : v < 64) : Holds (vs ++ [v]) (s.push v) := by
  obtain ⟨ho, hu, hb⟩ := h
  have hbuf : s.buf * 64 % 2 ^ 32 + v = numberOf (vs ++ [v]) % 2 ^ 32 := by
    rw [numberOf_append, hu]
    omega
  have hl : 6 * (vs ++ [v]).length = 6 * vs.length + 6 := by
    rw [List.length_append]
    rfl
  simp only [DecodeState.push, hbuf, hb]
  split
  case isTrue h =>
    have hr : 6 * vs.length % 8 + 6 - 8 = 6 * (vs ++ [v]).length % 8 := by omega
    refine ⟨?_, rfl, hr⟩
    have hj : 6 * vs.length % 8 + 6 - 8 = 0 ∨ 6 * vs.length % 8 + 6 - 8 = 2 ∨
        6 * vs.length % 8 + 6 - 8 = 4 := by omega
    have hm : numberOf (vs ++ [v]) % 2 ^ 32 / 2 ^ (6 * vs.length % 8 + 6 - 8) % 256 =
        numberOf (vs ++ [v]) / 2 ^ (6 * vs.length % 8 + 6 - 8) % 256 := by
      rcases hj with hj | hj | hj
      all_goals
        rw [hj]
        omega
    rw [bytesOf_append hv, if_pos h, ho]
    refine congrArg (bytesOf vs ++ [·]) (ofNat_eq ?_)
    rw [UInt8.toNat_ofNat', hm]
  case isFalse h =>
    have hr : 6 * vs.length % 8 + 6 = 6 * (vs ++ [v]).length % 8 := by omega
    refine ⟨?_, rfl, hr⟩
    rw [bytesOf_append hv, if_neg h, ho]

theorem Holds.foldl {s : DecodeState} (h : Holds vs s) {ws : List Nat} (hw : ∀ w ∈ ws, w < 64) :
    Holds (vs ++ ws) (ws.foldl DecodeState.push s) := by
  induction ws generalizing vs s
  case nil => simpa using h
  case cons w ws hi =>
    rw [List.foldl_cons, ← List.singleton_append, ← List.append_assoc]
    exact hi (h.push (hw w List.mem_cons_self)) fun w' h' => hw w' (List.mem_cons_of_mem w h')

end Values

-- The decoder takes the values one by one.
section Decode

variable {bs : List UInt8} {b : UInt8} {vs : List Nat}

theorem decodeStep_eq (s : DecodeState) (hb : isSkipped b = false) :
    decodeStep s b = (valueOf b).map s.push := by
  rw [decodeStep, hb, valueOf]
  cases decodeTable b <;> rfl

theorem foldlM_decodeStep (bs : List UInt8) (s : DecodeState) :
    bs.foldlM decodeStep s = (valuesOf bs).map (·.foldl DecodeState.push s) := by
  induction bs generalizing s
  case nil => rfl
  case cons b bs hi =>
    rw [List.foldlM_cons, valuesOf]
    cases hb : isSkipped b
    case true =>
      rw [List.filter_cons_of_neg (by simp [hb])]
      have hs : decodeStep s b = .ok s := by simp [decodeStep, hb]
      rw [hs]
      exact hi s
    case false =>
      rw [List.filter_cons_of_pos (by simp [hb]), List.mapM_cons, decodeStep_eq s hb]
      cases valueOf b
      case error e => rfl
      case ok v =>
        refine (hi (s.push v)).trans ?_
        rw [valuesOf]
        cases (bs.filter fun b => !isSkipped b).mapM valueOf <;> rfl

theorem mapM_valueOf_lt (h : bs.mapM valueOf = .ok vs) : ∀ v ∈ vs, v < 64 := by
  induction bs generalizing vs
  case nil =>
    cases h
    exact fun v hv => nomatch hv
  case cons b bs hi =>
    rw [List.mapM_cons] at h
    cases hb : valueOf b
    case error e =>
      rw [hb] at h
      cases h
    case ok v =>
      cases hs : bs.mapM valueOf
      case error e =>
        rw [hb, hs] at h
        cases h
      case ok vs =>
        rw [hb, hs] at h
        cases h
        rw [valueOf] at hb
        split at hb
        case h_1 => cases hb
        case h_2 v' ht =>
          cases hb
          exact List.forall_mem_cons.mpr ⟨decodeTable_lt ht, hi hs⟩

theorem decodeLoose_eq (input : String) :
    decodeLoose input = (valuesOf (Utf8.encode input.toList)).map bytesOf := by
  rw [decodeLoose, foldlM_decodeStep]
  cases h : valuesOf (Utf8.encode input.toList)
  case error e => rfl
  case ok vs =>
    have hs := holds_nil.foldl (mapM_valueOf_lt h)
    rw [List.nil_append] at hs
    exact congrArg Except.ok hs.out

end Decode

-- The words of the source hold the same numbers.
section Words

variable {w : WordState} {s : DecodeState} {v : Nat}

structure Agrees (w : WordState) (s : DecodeState) : Prop where
  out  : w.out = s.out
  buf  : w.buf.toNat = s.buf
  bits : w.bits.toNat = s.bits
  lt   : s.bits < 8

theorem toNat_shiftLeft_or (buf : UInt32) (hv : v < 64) :
    (buf <<< 6 ||| (UInt8.ofNat v).toUInt32).toNat = buf.toNat * 64 % 2 ^ 32 + v := by
  have hn : (UInt8.ofNat v).toUInt32.toNat = v := by
    rw [UInt8.toNat_toUInt32, UInt8.toNat_ofNat']
    omega
  have hs : (buf <<< 6).toNat = buf.toNat <<< 6 % 2 ^ 32 := UInt32.toNat_shiftLeft buf 6
  rw [UInt32.toNat_or, hs, hn, Words.shiftLeft_mod_or (by decide) hv, Nat.shiftLeft_eq]

theorem Agrees.push (h : Agrees w s) (hv : v < 64) : Agrees (w.push (.ofNat v)) (s.push v) := by
  obtain ⟨ho, hu, hb, hl⟩ := h
  have hbuf := toNat_shiftLeft_or w.buf hv
  have hbits : (w.bits + 6).toNat = s.bits + 6 := by
    have hlt : s.bits + 6 < 2 ^ 32 := by omega
    rw [UInt32.toNat_add, hb]
    exact Nat.mod_eq_of_lt hlt
  rw [hu] at hbuf
  have hc : (8 ≤ w.bits + 6) = (8 ≤ s.bits + 6) := by
    rw [UInt32.le_iff_toNat_le, hbits]
    rfl
  simp only [WordState.push, DecodeState.push, hc]
  split
  case isTrue h =>
    have hsub : (w.bits + 6 - 8).toNat = s.bits + 6 - 8 := by
      rw [UInt32.toNat_sub_of_le _ _ (by rw [UInt32.le_iff_toNat_le, hbits]; exact h), hbits]
      rfl
    have hlt : s.bits + 6 - 8 < 8 := by omega
    refine ⟨?_, hbuf, hsub, hlt⟩
    refine congrArg₂ (· ++ [·]) ho ?_
    apply UInt8.toNat_inj.mp
    rw [UInt32.toNat_toUInt8, UInt32.toNat_shiftRight, hbuf, hsub, UInt8.toNat_ofNat', Nat.shiftRight_eq_div_pow,
      Nat.mod_eq_of_lt (by omega : s.bits + 6 - 8 < 32)]
  case isFalse h =>
    have hlt : s.bits + 6 < 8 := by omega
    exact ⟨ho, hbuf, hbits, hlt⟩

theorem foldlM_wordStep (h : Agrees w s) (bs : List UInt8) :
    (bs.foldlM wordStep w).map WordState.out = (bs.foldlM decodeStep s).map DecodeState.out := by
  induction bs generalizing w s
  case nil => exact congrArg Except.ok h.out
  case cons b bs hi =>
    rw [List.foldlM_cons, List.foldlM_cons, wordStep, decodeStep]
    split
    case isTrue => exact hi h
    case isFalse =>
      cases ht : decodeTable b
      case none   => rfl
      case some v => exact hi (h.push (decodeTable_lt ht))

theorem decodeWords_eq (input : String) : decodeWords input = decodeLoose input :=
  foldlM_wordStep (w := ⟨[], 0, 0⟩) (s := ⟨[], 0, 0⟩) ⟨rfl, rfl, rfl, by decide⟩ _

end Words

theorem encodeStandard_inj {bs bs' : List UInt8} (h : encodeStandard bs = encodeStandard bs') : bs = bs' := by
  have hd := congrArg decodeLoose h
  rw [decodeLoose_encodeStandard, decodeLoose_encodeStandard] at hd
  exact Except.ok.inj hd

-- The last part tells the whole output: the bits of all symbols, of which the buffer keeps 32.
theorem base64_codec :
    (∀ (bytes : List UInt8) (t : List Char), Loosened (encodeStandard bytes).toList t →
      decodeLoose (.ofList t) = .ok bytes) ∧
    Function.Injective encodeStandard ∧
    ∀ input : String, decodeWords input = decodeLoose input ∧
      decodeWords input = (valuesOf (Utf8.encode input.toList)).map bytesOf := by
  refine ⟨fun bytes t h => ?_, fun _ _ => encodeStandard_inj, fun input => ⟨decodeWords_eq input, ?_⟩⟩
  case refine_1 =>
    rw [encodeStandard, String.toList_ofList] at h
    exact decodeLoose_isText h.symbols
  case refine_2 => rw [decodeWords_eq, decodeLoose_eq]

end JammVpn.Base64
