import Mathlib.Data.List.Forall2
import JammVpn.Lib.Framed
import JammVpn.Net.RealityRecords

-- What has been encrypted into records is read back from them, and no nonce is used twice.
namespace JammVpn.Reality

open Bytes Framed

-- The length of a record behind its header.
def recordLen (bs : List UInt8) : Nat :=
  ofBe ((bs.drop 3).take 2)

def records : Framing UInt8 where
  size bs :=
    if tlsRecordHeaderSize ≤ bs.length ∧ tlsRecordHeaderSize + recordLen bs ≤ bs.length then
      some (tlsRecordHeaderSize + recordLen bs)
    else none
  size_pos h := by
    split at h
    case isTrue  => cases h; exact Nat.lt_of_lt_of_le (by decide : 0 < tlsRecordHeaderSize) (Nat.le_add_right _ _)
    case isFalse => cases h
  size_le h := by
    split at h
    case isTrue hl => cases h; exact hl.2
    case isFalse   => cases h
  size_append {bs n} h bs' := by
    split at h
    case isFalse => cases h
    case isTrue hl =>
      cases h
      have hr : recordLen (bs ++ bs') = recordLen bs := by
        have h5 : 5 ≤ bs.length := hl.1
        rw [recordLen, List.drop_append_of_le_length (by omega),
          List.take_append_of_le_length (by rw [List.length_drop]; omega)]
        rfl
      have hle : bs.length ≤ (bs ++ bs').length := by
        rw [List.length_append]
        exact Nat.le_add_right _ _
      rw [hr, if_pos ⟨Nat.le_trans hl.1 hle, Nat.le_trans hl.2 hle⟩]

section Frames

theorem recordLen_append {header : List UInt8} (h : header.length = 3) {n : Nat} (hn : n < 65536) (payload : List UInt8) :
    recordLen (header ++ toBe 2 n ++ payload) = n := by
  rw [recordLen, List.append_assoc, List.drop_left' h, List.take_left' (length_toBe 2 n)]
  exact ofBe_toBe_of_lt hn

theorem isFrame_record {header payload : List UInt8} (h : header.length = 3) (hn : payload.length < 65536) :
    IsFrame records (header ++ toBe 2 payload.length ++ payload) := by
  have hl : (header ++ toBe 2 payload.length ++ payload).length = tlsRecordHeaderSize + payload.length := by
    rw [List.length_append, List.length_append, length_toBe, h, tlsRecordHeaderSize]
  have hr := recordLen_append h hn payload
  show (if _ then _ else none) = _
  rw [hr, hl, if_pos ⟨Nat.le_add_right _ _, Nat.le_refl _⟩]

-- What is not a whole record is shorter than the longest one.
theorem length_lt_of_size_eq_none {bs : List UInt8} (h : records.size bs = none) :
    bs.length < tlsRecordHeaderSize ∨ bs.length < tlsRecordHeaderSize + recordLen bs := by
  simp only [records] at h
  split at h
  case isTrue => cases h
  case isFalse hn => omega

end Frames

section Nonces

theorem ofNat_xor_inj (a : UInt8) {x y : UInt8} (h : a ^^^ x = a ^^^ y) : x = y := by
  have hx := congrArg (a ^^^ ·) h
  simpa [← UInt8.xor_assoc] using hx

theorem zipWith_xor_inj {ks as bs : List UInt8} (ha : as.length = ks.length) (hb : bs.length = ks.length)
    (h : List.zipWith (· ^^^ ·) ks as = List.zipWith (· ^^^ ·) ks bs) : as = bs := by
  induction ks generalizing as bs
  case nil => rw [List.eq_nil_of_length_eq_zero ha, List.eq_nil_of_length_eq_zero hb]
  case cons k ks hi =>
    cases as
    case nil => cases ha
    case cons a as =>
      cases bs
      case nil => cases hb
      case cons b bs =>
        obtain ⟨hk, hks⟩ := List.cons.inj h
        rw [ofNat_xor_inj k hk, hi (Nat.succ.inj ha) (Nat.succ.inj hb) hks]

-- The nonce of a record, for a vector of the right length.
def nonce (iv : List UInt8) (seq : Nat) : List UInt8 :=
  iv.take 4 ++ List.zipWith (· ^^^ ·) (iv.drop 4) (toBe 8 seq)

theorem makeNonce_eq {iv : List UInt8} (h : iv.length = 12) (seq : Nat) : makeNonce iv seq = .ok (nonce iv seq) :=
  if_neg (fun hn => hn h)

theorem nonce_inj {iv : List UInt8} (h : iv.length = 12) {m n : Nat} (hm : m < 2 ^ 64) (hn : n < 2 ^ 64)
    (he : nonce iv m = nonce iv n) : m = n := by
  have hd : (iv.drop 4).length = 8 := by rw [List.length_drop, h]
  have hz := List.append_cancel_left he
  refine (@toBe_inj 8 m n hm hn).mp (zipWith_xor_inj ?_ ?_ hz)
  case refine_1 => rw [length_toBe, hd]
  case refine_2 => rw [length_toBe, hd]

end Nonces

section Strip

variable {content : List UInt8} {contentType : UInt8}

def isContentType (contentType : UInt8) : Bool :=
  contentType == contentTypeHandshake || contentType == contentTypeApplicationData || contentType == contentTypeAlert

theorem ne_zero_of_isContentType (h : isContentType contentType = true) : contentType ≠ 0 := by
  rintro rfl
  cases h

theorem stripContentType_of_isContentType (h : isContentType contentType = true) (content : List UInt8) (padding : Nat) :
    stripContentType (content ++ [contentType] ++ List.replicate padding 0) = .ok (contentType, content) := by
  have hz : (content ++ [contentType] ++ List.replicate padding 0).rdropWhile (· == 0) = content ++ [contentType] := by
    induction padding
    case zero =>
      rw [List.replicate_zero, List.append_nil]
      exact List.rdropWhile_concat_neg _ _ _ (by simpa using ne_zero_of_isContentType h)
    case succ padding hi =>
      rw [List.replicate_succ', ← List.append_assoc, List.rdropWhile_concat_pos _ _ _ (by rfl), hi]
  have hc : ¬(contentType ≠ contentTypeHandshake ∧ contentType ≠ contentTypeApplicationData ∧
      contentType ≠ contentTypeAlert) := by
    rintro ⟨h₁, h₂, h₃⟩
    simp [isContentType, h₁, h₂, h₃] at h
  simp only [stripContentType, hz, List.getLast?_concat, List.dropLast_concat, if_neg hc]

-- The type is one of three, and what follows it are zeros.
theorem stripContentType_eq_ok {plaintext : List UInt8} (h : stripContentType plaintext = .ok (contentType, content)) :
    isContentType contentType = true ∧ ∃ padding, plaintext = content ++ [contentType] ++ List.replicate padding 0 := by
  simp only [stripContentType] at h
  split at h
  case h_1 => cases h
  case h_2 t ht =>
    split at h
    case isTrue => cases h
    case isFalse hc =>
      cases h
      refine ⟨?_, (plaintext.rtakeWhile (· == 0)).length, ?_⟩
      case refine_1 =>
        simp only [isContentType, Bool.or_eq_true, beq_iff_eq]
        refine Classical.byContradiction fun hn => hc ?_
        simp only [not_or] at hn
        exact ⟨hn.1.1, hn.1.2, hn.2⟩
      case refine_2 =>
        have hne : plaintext.rdropWhile (· == 0) ≠ [] := by
          intro hnil
          rw [hnil] at ht
          cases ht
        have hlast := List.dropLast_concat_getLast hne
        rw [List.getLast?_eq_some_getLast hne] at ht
        rw [Option.some.inj ht] at hlast
        have hzeros : plaintext.rtakeWhile (· == 0) =
            List.replicate (plaintext.rtakeWhile (· == 0)).length 0 := by
          refine List.eq_replicate_iff.mpr ⟨rfl, fun b hb => ?_⟩
          have hz := List.mem_rtakeWhile_imp hb
          exact beq_iff_eq.mp hz
        rw [hlast, ← hzeros]
        exact List.rdropWhile_append_rtakeWhile.symm

end Strip

namespace RecordCipher

variable {aead : CipherSuite → Aead}

-- The record that is made of an inner plaintext.
def record (aead : CipherSuite → Aead) (c : RecordCipher) (inner : List UInt8) : List UInt8 :=
  makeRecordHeader (inner.length + 16) ++
    (aead c.key.suite).encrypt c.key.key (nonce c.iv c.seq) (makeRecordHeader (inner.length + 16)) inner

def next (c : RecordCipher) : RecordCipher :=
  { c with seq := c.seq + 1 }

-- Inner plaintexts that are encrypted one after the other, each under its own number.
inductive Seals (aead : CipherSuite → Aead) :
    RecordCipher → (inners : List (List UInt8)) → (wire : List UInt8) → RecordCipher → Prop
  | nil (c : RecordCipher) : Seals aead c [] [] c
  | cons {c inner inners wire c'} : inner.length + 16 ≤ maxTlsCiphertextLen → c.seq + 1 < 2 ^ 64 →
      Seals aead c.next inners wire c' → Seals aead c (inner :: inners) (c.record aead inner ++ wire) c'

-- All that can go wrong: there is no number left.
def Exhausted (f : Failure) (c : RecordCipher) : Prop :=
  f = .io ⟨.other, "TLS sequence number exhausted"⟩ ∧ 2 ^ 64 ≤ c.seq + 1

variable {c c' c'' : RecordCipher} {inner out out' buf wire wire' : List UInt8} {inners inners' : List (List UInt8)}

theorem Seals.append (h : Seals aead c inners wire c') (h' : Seals aead c' inners' wire' c'') :
    Seals aead c (inners ++ inners') (wire ++ wire') c'' := by
  induction h
  case nil => exact h'
  case cons hl hs _ hi =>
    rw [List.append_assoc]
    exact .cons hl hs (hi h')

theorem Seals.of_nil (h : Seals aead c [] wire c') : c' = c := by
  cases h
  rfl

theorem Seals.iv (h : Seals aead c inners wire c') : c'.iv = c.iv ∧ c'.key = c.key := by
  induction h
  case nil             => exact ⟨rfl, rfl⟩
  case cons hl hs _ hi => exact hi

theorem Seals.length_le (h : Seals aead c inners wire c') : ∀ inner ∈ inners, inner.length + 16 ≤ maxTlsCiphertextLen := by
  induction h
  case nil            => exact nofun
  case cons hl _ _ hi => exact List.forall_mem_cons.mpr ⟨hl, hi⟩

theorem Seals.single (hl : inner.length + 16 ≤ maxTlsCiphertextLen) (hs : c.seq + 1 < 2 ^ 64) :
    Seals aead c [inner] (c.record aead inner) c.next := by
  have := @Seals.cons aead c inner [] [] c.next hl hs (.nil c.next)
  rwa [List.append_nil] at this

-- One record is written, or there is no number left for another one.
theorem sealRecord_spec (hiv : c.iv.length = 12) (hl : inner.length + 16 ≤ maxTlsCiphertextLen)
    {r : Except Failure Unit} (h : c.sealRecord aead inner out = (r, c', buf, out')) :
    (r = .ok () ∧ c.seq + 1 < 2 ^ 64 ∧ c' = c.next ∧ out' = out ++ c.record aead inner) ∨
      (∃ f, r = .error f ∧ Exhausted f c) ∧ c' = c ∧ out' = out := by
  have hn : ¬maxTlsCiphertextLen < inner.length + 16 := Nat.not_lt_of_le hl
  simp only [sealRecord, if_neg hn, AeadKey.sealInPlace, makeNonce_eq hiv, bind, Except.bind, pure, Except.pure,
    advance] at h
  by_cases hs : c.seq + 1 < 2 ^ 64
  case pos =>
    rw [if_pos hs] at h
    cases h
    exact .inl ⟨rfl, hs, rfl, List.append_assoc _ _ _⟩
  case neg =>
    rw [if_neg hs] at h
    cases h
    exact .inr ⟨⟨_, rfl, rfl, Nat.le_of_not_lt hs⟩, rfl, rfl⟩

-- What a call of the encryptor does: it writes records of its pieces in their order, all of them if it succeeds.
def Writes (aead : CipherSuite → Aead) (c : RecordCipher) (inners : List (List UInt8)) (out : List UInt8)
    (r : Except Failure Unit) (c' : RecordCipher) (out' : List UInt8) : Prop :=
  ∃ sealed rest wire, inners = sealed ++ rest ∧ Seals aead c sealed wire c' ∧ out' = out ++ wire ∧
    (r = .ok () → rest = []) ∧ ∀ f, r = .error f → Exhausted f c'

theorem Writes.nil (aead : CipherSuite → Aead) (c : RecordCipher) (out : List UInt8) : Writes aead c [] out (.ok ()) c out :=
  ⟨[], [], [], rfl, .nil c, (List.append_nil _).symm, fun _ => rfl, nofun⟩

theorem Writes.append (h : Writes aead c inners out (.ok ()) c' out') {r : Except Failure Unit} {out'' : List UInt8}
    (h' : Writes aead c' inners' out' r c'' out'') : Writes aead c (inners ++ inners') out r c'' out'' := by
  obtain ⟨sealed, rest, wire, rfl, hs, rfl, hr, _⟩ := h
  obtain ⟨sealed', rest', wire', rfl, hs', rfl, hr', he'⟩ := h'
  rw [hr rfl, List.append_nil]
  exact ⟨_, rest', _, (List.append_assoc _ _ _).symm, hs.append hs', List.append_assoc _ _ _, hr', he'⟩

-- After a failure there is nothing more.
theorem Writes.of_error {f : Failure} (h : Writes aead c inners out (.error f) c' out') (more : List (List UInt8)) :
    Writes aead c (inners ++ more) out (.error f) c' out' := by
  obtain ⟨sealed, rest, wire, rfl, hs, ho, _, he⟩ := h
  exact ⟨sealed, rest ++ more, wire, List.append_assoc _ _ _, hs, ho, nofun, he⟩

theorem writes_sealRecord (hiv : c.iv.length = 12) (hl : inner.length + 16 ≤ maxTlsCiphertextLen)
    {r : Except Failure Unit} (h : c.sealRecord aead inner out = (r, c', buf, out')) :
    Writes aead c [inner] out r c' out' := by
  obtain ⟨rfl, hs, rfl, ho⟩ | ⟨⟨f, rfl, he⟩, rfl, rfl⟩ := sealRecord_spec hiv hl h
  case inl => exact ⟨[inner], [], _, rfl, .single hl hs, ho, fun _ => rfl, nofun⟩
  case inr => exact ⟨[], [inner], [], rfl, .nil c', (List.append_nil _).symm, nofun, fun f' hf => by cases hf; exact he⟩

theorem length_concat_le {piece : List UInt8} (h : piece.length ≤ maxTlsPlaintextLen) (contentType : UInt8) :
    (piece ++ [contentType]).length + 16 ≤ maxTlsCiphertextLen := by
  rw [List.length_append, List.length_singleton]
  simp only [maxTlsPlaintextLen] at h
  simp only [maxTlsCiphertextLen]
  omega

theorem writes_encryptRecordInPlace (hiv : c.iv.length = 12) {piece : List UInt8}
    (hl : piece.length ≤ maxTlsPlaintextLen) {contentType : UInt8} {r : Except Failure Unit}
    (h : c.encryptRecordInPlace aead piece out contentType = (r, c', buf, out')) :
    Writes aead c [piece ++ [contentType]] out r c' out' :=
  writes_sealRecord hiv (length_concat_le hl contentType) h

theorem writes_encryptPieces {contentType : UInt8} {pieces : List (List UInt8)} (hiv : c.iv.length = 12)
    (hl : ∀ piece ∈ pieces, piece.length ≤ maxTlsPlaintextLen) {r : Except Failure Unit}
    (h : c.encryptPieces aead contentType pieces out = (r, c', out')) :
    Writes aead c (pieces.map (· ++ [contentType])) out r c' out' := by
  induction pieces generalizing c out
  case nil =>
    cases h
    exact .nil aead _ _
  case cons piece pieces hi =>
    obtain ⟨hp, hps⟩ := List.forall_mem_cons.mp hl
    rw [encryptPieces] at h
    rcases he : c.encryptRecordInPlace aead piece out contentType with ⟨r₁, c₁, buf, out₁⟩
    have hw := writes_encryptRecordInPlace hiv hp he
    rw [he] at h
    cases r₁
    case error f =>
      cases h
      exact hw.of_error _
    case ok =>
      obtain ⟨_, _, _, _, hs, _⟩ := id hw
      exact hw.append (hi (hs.iv.1.symm ▸ hiv) hps h)

-- What is written into records.
inductive Message
  | appData (plaintext : List UInt8)
  | handshake (data : List UInt8)
  | padded (data : List UInt8) (targetRecordSize : Nat)
  | closeNotify

def write (aead : CipherSuite → Aead) (c : RecordCipher) (out : List UInt8) :
    Message → Except Failure Unit × RecordCipher × List UInt8
  | .appData plaintext =>
    let (r, c, _, out) := c.encryptAppData aead plaintext out
    (r, c, out)
  | .handshake data    => c.encryptHandshake aead data out
  | .padded data n     => c.encryptHandshakeWithPadding aead data out n
  | .closeNotify       => c.encryptCloseNotify aead out

def writeAll (aead : CipherSuite → Aead) (c : RecordCipher) (out : List UInt8) :
    List Message → Except Failure Unit × RecordCipher × List UInt8
  | []      => (.ok (), c, out)
  | m :: ms =>
    match c.write aead out m with
    | (.ok (), c, out)   => c.writeAll aead out ms
    | (.error f, c, out) => (.error f, c, out)

-- The pieces that go into a record each.
def pieces (data : List UInt8) : List (List UInt8) :=
  if data.isEmpty then []
  else if data.length ≤ maxTlsPlaintextLen then [data]
  else chunks maxTlsPlaintextLen data

def Message.parts : Message → List (UInt8 × List UInt8)
  | appData plaintext => (pieces plaintext).map (contentTypeApplicationData, ·)
  | handshake data    => (pieces data).map (contentTypeHandshake, ·)
  | padded data _     => (pieces data).map (contentTypeHandshake, ·)
  | closeNotify       => [(contentTypeAlert, [alertLevelWarning, alertDescCloseNotify])]

theorem flatten_pieces (data : List UInt8) : (pieces data).flatten = data := by
  rw [pieces]
  split
  case isTrue h => rw [List.isEmpty_iff.mp h]; rfl
  case isFalse =>
    split
    case isTrue  => exact List.append_nil _
    case isFalse => exact flatten_chunks (by decide) data

theorem length_le_of_mem_pieces {data piece : List UInt8} (h : piece ∈ pieces data) :
    piece.length ≤ maxTlsPlaintextLen := by
  rw [pieces] at h
  split at h
  case isTrue => cases h
  case isFalse =>
    split at h
    case isTrue hl => exact List.mem_singleton.mp h ▸ hl
    case isFalse =>
      obtain ⟨i, _, rfl⟩ := List.mem_map.mp h
      exact length_piece_le _ _ _

theorem ne_nil_of_mem_pieces {data piece : List UInt8} (h : piece ∈ pieces data) : piece ≠ [] := by
  rw [pieces] at h
  split at h
  case isTrue => cases h
  case isFalse he =>
    split at h
    case isTrue =>
      rw [List.mem_singleton.mp h]
      exact fun hnil => he (List.isEmpty_iff.mpr hnil)
    case isFalse => exact ne_nil_of_mem_chunks (by decide) h

-- An inner plaintext holds a part: the content, its type, and zeros.
def Holds (inner : List UInt8) (part : UInt8 × List UInt8) : Prop :=
  isContentType part.1 = true ∧ ∃ padding, inner = part.2 ++ [part.1] ++ List.replicate padding 0

theorem holds_concat {contentType : UInt8} (h : isContentType contentType = true) (piece : List UInt8) :
    Holds (piece ++ [contentType]) (contentType, piece) :=
  ⟨h, 0, (List.append_nil _).symm⟩

theorem forall₂_holds {contentType : UInt8} (h : isContentType contentType = true) (pieces : List (List UInt8)) :
    List.Forall₂ Holds (pieces.map (· ++ [contentType])) (pieces.map (contentType, ·)) := by
  induction pieces
  case nil            => exact .nil
  case cons piece _ hi => exact .cons (holds_concat h piece) hi

theorem encryptAppData_spec (hiv : c.iv.length = 12) {plaintext : List UInt8} {r : Except Failure Unit}
    (h : c.encryptAppData aead plaintext out = (r, c', buf, out')) :
    Writes aead c ((pieces plaintext).map (· ++ [contentTypeApplicationData])) out r c' out' ∧ (r = .ok () → buf = []) := by
  simp only [encryptAppData] at h
  split at h
  case isTrue he =>
    cases h
    rw [pieces, if_pos he]
    exact ⟨.nil aead _ _, fun _ => List.isEmpty_iff.mp he⟩
  case isFalse he =>
    split at h
    case isTrue hl =>
      rw [pieces, if_neg he, if_pos hl]
      rcases hr : c.encryptRecordInPlace aead plaintext out contentTypeApplicationData with ⟨r₁, c₁, buf₁, out₁⟩
      have hw := writes_encryptRecordInPlace hiv hl hr
      rw [hr] at h
      cases r₁ <;> cases h
      case ok    => exact ⟨hw, fun _ => rfl⟩
      case error => exact ⟨hw, nofun⟩
    case isFalse hl =>
      rw [pieces, if_neg he, if_neg hl]
      rcases hr : c.encryptPieces aead contentTypeApplicationData (chunks maxTlsPlaintextLen plaintext) out with ⟨r₁, c₁, out₁⟩
      have hp : ∀ piece ∈ chunks maxTlsPlaintextLen plaintext, piece.length ≤ maxTlsPlaintextLen := by
        intro piece hm
        exact @length_le_of_mem_pieces plaintext piece (by rwa [pieces, if_neg he, if_neg hl])
      have hw := writes_encryptPieces hiv hp hr
      rw [hr] at h
      cases r₁ <;> cases h
      case ok    => exact ⟨hw, fun _ => rfl⟩
      case error => exact ⟨hw, nofun⟩

theorem encryptHandshake_spec (hiv : c.iv.length = 12) {data : List UInt8} {r : Except Failure Unit}
    (h : c.encryptHandshake aead data out = (r, c', out')) :
    Writes aead c ((pieces data).map (· ++ [contentTypeHandshake])) out r c' out' := by
  simp only [encryptHandshake] at h
  split at h
  case isTrue he =>
    cases h
    rw [pieces, if_pos he]
    exact .nil aead _ _
  case isFalse he =>
    split at h
    case isTrue hl =>
      rw [pieces, if_neg he, if_pos hl]
      rcases hr : c.encryptRecordInPlace aead data out contentTypeHandshake with ⟨r₁, c₁, buf₁, out₁⟩
      rw [hr] at h
      cases h
      exact writes_encryptRecordInPlace hiv hl hr
    case isFalse hl =>
      rw [pieces, if_neg he, if_neg hl]
      refine writes_encryptPieces hiv (fun piece hm => ?_) h
      exact @length_le_of_mem_pieces data piece (by rwa [pieces, if_neg he, if_neg hl])

-- The padding never makes a record too long.
theorem writes_encryptRecordWithPadding (hiv : c.iv.length = 12) {piece : List UInt8}
    (hl : piece.length ≤ maxTlsPlaintextLen) {contentType : UInt8} {target : Nat} {r : Except Failure Unit}
    (h : c.encryptRecordWithPadding aead piece out contentType target = (r, c', buf, out')) :
    ∃ padding, Writes aead c [piece ++ [contentType] ++ List.replicate padding 0] out r c' out' := by
  refine ⟨_, writes_sealRecord hiv ?_ h⟩
  have hp := length_concat_le hl contentType
  split
  case isTrue hc =>
    rw [List.length_append, List.length_replicate]
    simp only [maxTlsPlaintextLen, maxTlsCiphertextLen] at hc ⊢
    omega
  case isFalse => rwa [List.replicate_zero, List.append_nil]

theorem encryptHandshakeWithPadding_spec (hiv : c.iv.length = 12) {data : List UInt8} {target : Nat}
    {r : Except Failure Unit} (h : c.encryptHandshakeWithPadding aead data out target = (r, c', out')) :
    ∃ inners, Writes aead c inners out r c' out' ∧
      List.Forall₂ Holds inners ((pieces data).map (contentTypeHandshake, ·)) := by
  simp only [encryptHandshakeWithPadding] at h
  split at h
  case isTrue he =>
    cases h
    rw [pieces, if_pos he]
    exact ⟨[], .nil aead _ _, .nil⟩
  case isFalse he =>
    have hps : (if maxTlsPlaintextLen < data.length then chunks maxTlsPlaintextLen data else [data]) = pieces data := by
      rw [pieces, if_neg he]
      split
      case isTrue hl  => rw [if_neg (Nat.not_le_of_lt hl)]
      case isFalse hl => rw [if_pos (Nat.le_of_not_lt hl)]
    rw [hps] at h
    have hne : pieces data ≠ [] := by
      intro hnil
      have hd := flatten_pieces data
      rw [hnil] at hd
      exact he (List.isEmpty_iff.mpr hd.symm)
    have hlast : (pieces data).dropLast ++ [(pieces data).getLastD []] = pieces data := by
      rw [List.getLastD_eq_getLast?, List.getLast?_eq_some_getLast hne]
      exact List.dropLast_concat_getLast hne
    have hlen : ((pieces data).getLastD []).length ≤ maxTlsPlaintextLen :=
      length_le_of_mem_pieces (hlast ▸ List.mem_append_right _ List.mem_cons_self)
    have hdrop : ∀ piece ∈ (pieces data).dropLast, piece.length ≤ maxTlsPlaintextLen := fun piece hm =>
      length_le_of_mem_pieces (List.mem_of_mem_dropLast hm)
    have hparts : ∀ padding, List.Forall₂ Holds ((pieces data).dropLast.map (· ++ [contentTypeHandshake]) ++
        [(pieces data).getLastD [] ++ [contentTypeHandshake] ++ List.replicate padding 0])
        ((pieces data).map (contentTypeHandshake, ·)) := by
      intro padding
      conv => rhs; rw [← hlast]
      rw [List.map_append]
      exact List.rel_append (forall₂_holds rfl _) (.cons ⟨rfl, padding, rfl⟩ .nil)
    rcases hp : c.encryptPieces aead contentTypeHandshake (pieces data).dropLast out with ⟨r₁, c₁, out₁⟩
    have hw := writes_encryptPieces hiv hdrop hp
    rw [hp] at h
    cases r₁
    case error f =>
      cases h
      exact ⟨_, hw.of_error _, hparts 0⟩
    case ok =>
      obtain ⟨_, _, _, _, hs, _⟩ := id hw
      have hiv₁ : c₁.iv.length = 12 := hs.iv.1.symm ▸ hiv
      dsimp only at h
      split at h
      case isTrue =>
        rcases hr : c₁.encryptRecordWithPadding aead ((pieces data).getLastD []) out₁ contentTypeHandshake target with
          ⟨r₂, c₂, buf₂, out₂⟩
        obtain ⟨padding, hw'⟩ := writes_encryptRecordWithPadding hiv₁ hlen hr
        rw [hr] at h
        cases h
        exact ⟨_, hw.append hw', hparts padding⟩
      case isFalse =>
        rcases hr : c₁.encryptRecordInPlace aead ((pieces data).getLastD []) out₁ contentTypeHandshake with
          ⟨r₂, c₂, buf₂, out₂⟩
        have hw' := writes_encryptRecordInPlace hiv₁ hlen hr
        have hz := hparts 0
        rw [List.replicate_zero, List.append_nil] at hz
        rw [hr] at h
        cases h
        exact ⟨_, hw.append hw', hz⟩

theorem write_spec (hiv : c.iv.length = 12) {m : Message} {r : Except Failure Unit}
    (h : c.write aead out m = (r, c', out')) :
    ∃ inners, Writes aead c inners out r c' out' ∧ List.Forall₂ Holds inners m.parts := by
  cases m
  case appData plaintext =>
    rcases hr : c.encryptAppData aead plaintext out with ⟨r₁, c₁, buf₁, out₁⟩
    simp only [write, hr] at h
    cases h
    exact ⟨_, (encryptAppData_spec hiv hr).1, forall₂_holds rfl _⟩
  case handshake data => exact ⟨_, encryptHandshake_spec hiv h, forall₂_holds rfl _⟩
  case padded data n  => exact encryptHandshakeWithPadding_spec hiv h
  case closeNotify =>
    rcases hr : c.encryptRecordInPlace aead [alertLevelWarning, alertDescCloseNotify] out contentTypeAlert with
      ⟨r₁, c₁, buf₁, out₁⟩
    simp only [write, encryptCloseNotify, hr] at h
    cases h
    exact ⟨_, writes_encryptRecordInPlace hiv (by decide) hr, .cons (holds_concat rfl _) .nil⟩

theorem encryptCloseNotify_spec (hiv : c.iv.length = 12) {r : Except Failure Unit}
    (h : c.encryptCloseNotify aead out = (r, c', out')) :
    (r = .ok () ∧ c.seq + 1 < 2 ^ 64 ∧ c' = c.next ∧
      out' = out ++ c.record aead ([alertLevelWarning, alertDescCloseNotify] ++ [contentTypeAlert])) ∨
      (∃ f, r = .error f ∧ Exhausted f c) ∧ c' = c ∧ out' = out := by
  rcases hr : c.encryptRecordInPlace aead [alertLevelWarning, alertDescCloseNotify] out contentTypeAlert with
    ⟨r₁, c₁, buf₁, out₁⟩
  simp only [encryptCloseNotify, hr] at h
  cases h
  exact sealRecord_spec hiv (length_concat_le (by decide) contentTypeAlert) hr

-- Where there is a number left, what fits into one record is encrypted.
theorem encryptAppData_short (hiv : c.iv.length = 12) (hs : c.seq + 1 < 2 ^ 64) {plaintext : List UInt8}
    (hl : plaintext.length ≤ maxTlsPlaintextLen) (out : List UInt8) :
    ∃ c' out', c.encryptAppData aead plaintext out = (.ok (), c', [], out') := by
  rw [encryptAppData]
  split
  case isTrue he => exact ⟨c, out, by rw [List.isEmpty_iff.mp he]⟩
  case isFalse =>
    rcases hr : c.encryptRecordInPlace aead plaintext out contentTypeApplicationData with ⟨r, c', buf, out'⟩
    obtain ⟨rfl, _⟩ | ⟨⟨_, _, hf⟩, _⟩ := sealRecord_spec hiv (length_concat_le hl _) hr
    case inl => exact ⟨c', out', rfl⟩
    case inr => exact absurd hs (Nat.not_lt_of_le hf.2)

theorem isContentType_of_mem_parts {m : Message} {part : UInt8 × List UInt8} (h : part ∈ m.parts) :
    isContentType part.1 = true := by
  cases m
  case closeNotify => rw [List.mem_singleton.mp h]; rfl
  all_goals
    obtain ⟨_, _, rfl⟩ := List.mem_map.mp h
    rfl

theorem exists_holds (ms : List Message) : ∃ inners, List.Forall₂ Holds inners (ms.flatMap Message.parts) := by
  refine ⟨(ms.flatMap Message.parts).map fun part => part.2 ++ [part.1], ?_⟩
  refine List.forall₂_map_left_iff.mpr (List.forall₂_same.mpr fun part hp => ?_)
  obtain ⟨m, _, hp⟩ := List.mem_flatMap.mp hp
  exact holds_concat (isContentType_of_mem_parts hp) part.2

theorem writeAll_spec (hiv : c.iv.length = 12) {ms : List Message} {r : Except Failure Unit}
    (h : c.writeAll aead out ms = (r, c', out')) :
    ∃ inners, Writes aead c inners out r c' out' ∧ List.Forall₂ Holds inners (ms.flatMap Message.parts) := by
  induction ms generalizing c out
  case nil =>
    cases h
    exact ⟨[], .nil aead _ _, .nil⟩
  case cons m ms hi =>
    rcases hm : c.write aead out m with ⟨r₁, c₁, out₁⟩
    obtain ⟨inners, hw, hh⟩ := write_spec hiv hm
    obtain ⟨_, _, _, _, hs, _⟩ := id hw
    rw [writeAll, hm] at h
    rw [List.flatMap_cons]
    cases r₁
    case ok =>
      obtain ⟨inners', hw', hh'⟩ := hi (hs.iv.1.symm ▸ hiv) h
      exact ⟨_, hw.append hw', List.rel_append hh hh'⟩
    case error f =>
      cases h
      obtain ⟨inners', hh'⟩ := exists_holds ms
      exact ⟨_, hw.of_error inners', List.rel_append hh hh'⟩

-- A reader of records: what they hold, up to the first that is refused.
structure Opened where
  cipher : RecordCipher
  parts  : List (UInt8 × List UInt8)
  error  : Option Error

def opener (aead : CipherSuite → Aead) : Consumer Opened UInt8 where
  live o := o.error.isNone
  step o record :=
    match o.cipher.decryptRecordInPlace aead (record.drop tlsRecordHeaderSize) (recordLen record) with
    | (.ok part, cipher, _) => { o with cipher, parts := o.parts ++ [part] }
    | (.error e, cipher, _) => { o with cipher, error := some e }

theorem length_record (c : RecordCipher) (inner : List UInt8) :
    (c.record aead inner).length = tlsRecordHeaderSize + (inner.length + 16) := by
  rw [record, List.length_append, (aead _).length, makeRecordHeader, List.length_append, length_toBe]
  rfl

theorem length_record_le (hl : inner.length + 16 ≤ maxTlsCiphertextLen) (c : RecordCipher) :
    (c.record aead inner).length ≤ tlsMaxRecordSize := by
  rw [length_record, tlsMaxRecordSize]
  omega

theorem recordLen_record (hl : inner.length + 16 ≤ maxTlsCiphertextLen) (c : RecordCipher) :
    recordLen (c.record aead inner) = inner.length + 16 := by
  simp only [maxTlsCiphertextLen] at hl
  exact recordLen_append (by rfl) (by omega) _

theorem isFrame_sealed (hl : inner.length + 16 ≤ maxTlsCiphertextLen) (c : RecordCipher) :
    IsFrame records (c.record aead inner) := by
  simp only [maxTlsCiphertextLen] at hl
  have hp := (aead c.key.suite).length c.key.key (nonce c.iv c.seq) (makeRecordHeader (inner.length + 16)) inner
  have := @isFrame_record [contentTypeApplicationData, 0x03, 0x03]
    ((aead c.key.suite).encrypt c.key.key (nonce c.iv c.seq) (makeRecordHeader (inner.length + 16)) inner) rfl
    (by rw [hp]; omega)
  rwa [hp] at this

-- The decryptor undoes a step of the encryptor.
theorem open_record (hiv : c.iv.length = 12) (inner : List UInt8) :
    c.key.open_ aead ((c.record aead inner).drop tlsRecordHeaderSize) c.iv c.seq (makeRecordHeader (inner.length + 16)) =
      .ok inner := by
  have hd : (c.record aead inner).drop tlsRecordHeaderSize =
      (aead c.key.suite).encrypt c.key.key (nonce c.iv c.seq) (makeRecordHeader (inner.length + 16)) inner := by
    rw [record]
    exact List.drop_left' (by rw [makeRecordHeader, List.length_append, length_toBe]; rfl)
  simp only [hd, AeadKey.open_, makeNonce_eq hiv, (aead c.key.suite).decrypt_encrypt, bind, Except.bind, pure, Except.pure]

theorem decrypt_record (hiv : c.iv.length = 12) (hs : c.seq + 1 < 2 ^ 64) (inner : List UInt8) :
    (c.decryptRecordInPlace aead ((c.record aead inner).drop tlsRecordHeaderSize) (inner.length + 16)).1 =
      stripContentType inner ∧
    (c.decryptRecordInPlace aead ((c.record aead inner).drop tlsRecordHeaderSize) (inner.length + 16)).2.1 = c.next := by
  simp only [decryptRecordInPlace, open_record hiv, advance, if_pos hs]
  exact ⟨trivial, rfl⟩

theorem opener_step {part : UInt8 × List UInt8} {o : Opened} (hiv : o.cipher.iv.length = 12)
    (hl : inner.length + 16 ≤ maxTlsCiphertextLen) (hs : o.cipher.seq + 1 < 2 ^ 64) (h : Holds inner part) :
    (opener aead).step o (o.cipher.record aead inner) =
      { o with cipher := o.cipher.next, parts := o.parts ++ [part] } := by
  obtain ⟨ht, padding, rfl⟩ := h
  have ⟨h₁, h₂⟩ := @decrypt_record aead o.cipher hiv hs (part.2 ++ [part.1] ++ List.replicate padding 0)
  rw [stripContentType_of_isContentType ht] at h₁
  simp only [opener, recordLen_record hl]
  split
  case h_1 he =>
    rw [he] at h₁ h₂
    cases h₁
    rw [← h₂]
  case h_2 he =>
    rw [he] at h₁
    cases h₁

-- Records are read in the order in which they were written.
theorem Seals.takes {parts : List (UInt8 × List UInt8)} (h : Seals aead c inners wire c')
    (hh : List.Forall₂ Holds inners parts) (hiv : c.iv.length = 12) (before : List (UInt8 × List UInt8)) :
    ∃ recs, recs.flatten = wire ∧
      Takes records (opener aead) ⟨c, before, none⟩ recs ⟨c', before ++ parts, none⟩ := by
  induction h generalizing parts before
  case nil =>
    cases hh
    exact ⟨[], rfl, (List.append_nil before).symm ▸ .nil _⟩
  case cons c inner inners wire c' hl hs _ hi =>
    cases hh
    case cons part parts hp hps =>
      obtain ⟨recs, rfl, ht⟩ := hi hps hiv (before ++ [part])
      refine ⟨c.record aead inner :: recs, rfl, .cons rfl (isFrame_sealed hl c) ?_⟩
      rw [opener_step hiv hl hs hp]
      rwa [List.append_assoc] at ht

theorem forall₂_append_left {α β : Type} {R : α → β → Prop} {as bs : List α} {cs : List β}
    (h : List.Forall₂ R (as ++ bs) cs) : ∃ ds es, cs = ds ++ es ∧ List.Forall₂ R as ds ∧ List.Forall₂ R bs es := by
  refine ⟨cs.take as.length, cs.drop as.length, (List.take_append_drop _ _).symm, ?_, ?_⟩
  case refine_1 => simpa using List.forall₂_take as.length h
  case refine_2 => simpa using List.forall₂_drop as.length h

-- What has been read is not forgotten.
theorem takes_opener {o o' : Opened} {recs : List (List UInt8)} (h : Takes records (opener aead) o recs o') :
    o.parts <+: o'.parts ∧ (o'.error = none → o.error = none) := by
  induction h
  case nil => exact ⟨List.prefix_rfl, id⟩
  case cons o record recs o' hl _ _ hi =>
    refine ⟨List.IsPrefix.trans ?_ hi.1, fun _ => Option.isNone_iff_eq_none.mp hl⟩
    simp only [opener]
    split
    case h_1 => exact List.prefix_append _ _
    case h_2 => exact List.prefix_rfl

-- A reader has the parts of the messages, in order, however far the stream has come. The writer fails only when
-- there is no number left, and never panics.
theorem readAll_writeAll {ms : List Message} (hiv : c.iv.length = 12) {r : Except Failure Unit}
    (h : c.writeAll aead [] ms = (r, c', out)) :
    (∀ f, r = .error f → Exhausted f c') ∧
      (r = .ok () → drain records (opener aead) ⟨c, [], none⟩ out = (⟨c', ms.flatMap Message.parts, none⟩, [])) ∧
      ∀ cut, cut <+: out → ∃ c₁ parts, (drain records (opener aead) ⟨c, [], none⟩ cut).1 = ⟨c₁, parts, none⟩ ∧
        parts <+: ms.flatMap Message.parts := by
  obtain ⟨inners, ⟨sealed, rest, wire, rfl, hs, rfl, hr, he⟩, hh⟩ := writeAll_spec hiv h
  obtain ⟨parts, parts', hp, hsp, hrp⟩ := forall₂_append_left hh
  rw [hp]
  obtain ⟨recs, rfl, ht⟩ := hs.takes hsp hiv []
  rw [List.nil_append] at ht
  refine ⟨he, fun hok => ?_, fun cut hc => ?_⟩
  case refine_1 =>
    rw [hr hok] at hrp
    cases hrp
    have hd := ht.drain []
    rw [List.append_nil] at hd
    rw [hd, drain_none rfl, List.append_nil]
  case refine_2 =>
    obtain ⟨_, _, ⟨c₁, parts₁, error⟩, _, _, _, h₂, hd, _⟩ := ht.of_prefix hc
    obtain ⟨hpre, hnone⟩ := takes_opener h₂
    cases hnone rfl
    exact ⟨c₁, parts₁, by rw [hd], hpre.trans (List.prefix_append _ _)⟩

def zeroCipher : RecordCipher where
  key := ⟨.aes128GcmSha256, List.replicate 16 0, rfl⟩
  iv := List.replicate 12 0
  seq := 0

theorem readAll_writeAll_zeroCipher :
    drain records (opener fun _ => .zeroTag) ⟨zeroCipher, [], none⟩
        (zeroCipher.writeAll (fun _ => .zeroTag) [] [.appData [1, 0], .padded [5] 40, .closeNotify]).2.2 =
      (⟨{ zeroCipher with seq := 3 }, [(0x17, [1, 0]), (0x16, [5]), (0x15, [1, 0])], none⟩, []) :=
  (@readAll_writeAll _ zeroCipher _ _ [.appData [1, 0], .padded [5] 40, .closeNotify] rfl _ rfl).2.1 rfl

-- What is sealed under which nonce.
theorem Seals.nonces (h : Seals aead c inners wire c') (hiv : c.iv.length = 12) :
    ∃ sealed : List (List UInt8 × List UInt8), sealed.map Prod.snd = inners ∧ (sealed.map Prod.fst).Nodup ∧
      (∀ n ∈ sealed.map Prod.fst, ∃ seq, n = nonce c.iv seq ∧ c.seq ≤ seq ∧ seq < 2 ^ 64) ∧
      wire = sealed.flatMap fun (n, inner) => makeRecordHeader (inner.length + 16) ++
        (aead c.key.suite).encrypt c.key.key n (makeRecordHeader (inner.length + 16)) inner := by
  induction h
  case nil => exact ⟨[], rfl, .nil, nofun, rfl⟩
  case cons c inner inners wire c' hl hs _ hi =>
    obtain ⟨sealed, hin, hnd, hr, hw⟩ := hi hiv
    refine ⟨(nonce c.iv c.seq, inner) :: sealed, congrArg _ hin, List.nodup_cons.mpr ⟨fun hm => ?_, hnd⟩, ?_, ?_⟩
    case refine_1 =>
      obtain ⟨seq, he, hle, hlt⟩ := hr _ hm
      have := nonce_inj hiv (by omega) hlt he
      simp only [next] at hle
      omega
    case refine_2 =>
      intro n hm
      obtain rfl | hm := List.mem_cons.mp hm
      case inl => exact ⟨c.seq, rfl, Nat.le_refl _, by omega⟩
      case inr =>
        obtain ⟨seq, he, hle, hlt⟩ := hr n hm
        exact ⟨seq, he, Nat.le_of_succ_le hle, hlt⟩
    case refine_3 => rw [hw]; rfl

-- Whatever is written, each record is sealed under a nonce of its own, and none is too long.
theorem nonces_of_writeAll {ms : List Message} (hiv : c.iv.length = 12) {r : Except Failure Unit}
    (h : c.writeAll aead [] ms = (r, c', out)) :
    ∃ sealed : List (List UInt8 × List UInt8), (sealed.map Prod.fst).Nodup ∧
      (∀ inner ∈ sealed.map Prod.snd, inner.length + 16 ≤ maxTlsCiphertextLen) ∧
      out = sealed.flatMap fun (n, inner) => makeRecordHeader (inner.length + 16) ++
        (aead c.key.suite).encrypt c.key.key n (makeRecordHeader (inner.length + 16)) inner := by
  obtain ⟨inners, ⟨inners', rest, wire, _, hs, rfl, _, _⟩, _⟩ := writeAll_spec hiv h
  obtain ⟨sealed, hin, hnd, _, hw⟩ := hs.nonces hiv
  exact ⟨sealed, hnd, hin ▸ hs.length_le, hw⟩

theorem nonces_of_zeroCipher :
    ∃ sealed : List (List UInt8 × List UInt8), (sealed.map Prod.fst).Nodup ∧
      (∀ inner ∈ sealed.map Prod.snd, inner.length + 16 ≤ maxTlsCiphertextLen) ∧
      (zeroCipher.writeAll (fun _ => .zeroTag) [] [.appData [1], .appData [1]]).2.2 =
        sealed.flatMap fun (n, inner) => makeRecordHeader (inner.length + 16) ++
          Aead.zeroTag.encrypt zeroCipher.key.key n (makeRecordHeader (inner.length + 16)) inner :=
  @nonces_of_writeAll (fun _ => .zeroTag) zeroCipher _ _ [.appData [1], .appData [1]] rfl _ rfl

end RecordCipher
end JammVpn.Reality
