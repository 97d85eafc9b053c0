import JammVpn.Lib.Protobuf
import JammVpn.Core.Geo.Protobuf
import Mathlib.Tactic.Ring

-- The reader reads every way to write a field, and only goes wrong by saying so.
namespace JammVpn.Geo.Reader

open Cursor Protobuf

section Varint

variable {r shift : Nat} {b : UInt8} {s : List UInt8}

-- What the digits of one more byte make of the number.
def withByte (r shift : Nat) (b : UInt8) : Nat :=
  r ||| ((b &&& 0x7f).toNat <<< shift) % 2 ^ 64

theorem varintTurn_long (h : 64 ≤ shift) :
    varintTurn (r, shift) (b :: s) = (.error (.error (.malformed "varint длиннее 10 байт")), s) := by
  have hrest : varintTurn (r, shift) (b :: s) =
      (if 64 ≤ shift then fail (.malformed "varint длиннее 10 байт")
      else if b &&& 0x80 = 0 then return .inr (withByte r shift b)
      else return .inl (withByte r shift b, shift + 7) : Reader ((Nat × Nat) ⊕ Nat)) s := rfl
  rw [hrest, if_pos h]
  rfl

theorem varintTurn_cons (h : shift < 64) : varintTurn (r, shift) (b :: s) =
    (.ok (if b &&& 0x80 = 0 then .inr (withByte r shift b) else .inl (withByte r shift b, shift + 7)), s) := by
  have hrest : varintTurn (r, shift) (b :: s) =
      (if 64 ≤ shift then fail (.malformed "varint длиннее 10 байт")
      else if b &&& 0x80 = 0 then return .inr (withByte r shift b)
      else return .inl (withByte r shift b, shift + 7) : Reader ((Nat × Nat) ⊕ Nat)) s := rfl
  rw [hrest, if_neg (Nat.not_le_of_lt h)]
  split <;> rfl

theorem toNat_and_low (b : UInt8) : (b &&& 0x7f).toNat = b.toNat % 128 := by
  rw [UInt8.toNat_and]
  exact Nat.and_two_pow_sub_one_eq_mod b.toNat 7

theorem and_high_eq_zero_iff (b : UInt8) : b &&& 0x80 = 0 ↔ b.toNat < 128 := by
  have h : ∀ n < 256, n &&& 128 = 0 ↔ n < 128 := by decide +kernel
  rw [← UInt8.toNat_inj, UInt8.toNat_and]
  exact h b.toNat b.toNat_lt

-- The bits of the byte go where none are yet.
theorem withByte_eq (hr : r < 2 ^ shift) (hs : shift < 64) :
    withByte r shift b = (r + 2 ^ shift * (b.toNat % 128)) % 2 ^ 64 := by
  obtain ⟨k, hk⟩ := Nat.exists_eq_add_of_lt hs
  have hpow : 2 ^ 64 = 2 ^ shift * 2 ^ (k + 1) := by rw [← Nat.pow_add, hk, Nat.add_assoc]
  have hor : withByte r shift b = r + 2 ^ shift * (b.toNat % 128 % 2 ^ (k + 1)) := by
    rw [withByte, toNat_and_low, Nat.shiftLeft_eq, Nat.mul_comm, hpow, Nat.mul_mod_mul_left, Nat.or_comm,
      ← Nat.two_pow_add_eq_or_of_lt hr, Nat.add_comm]
  have hlt : r + 2 ^ shift * (b.toNat % 128 % 2 ^ (k + 1)) < 2 ^ 64 := by
    have hx := Nat.mod_lt (b.toNat % 128) (Nat.two_pow_pos (k + 1))
    calc r + 2 ^ shift * (b.toNat % 128 % 2 ^ (k + 1))
        < 2 ^ shift + 2 ^ shift * (b.toNat % 128 % 2 ^ (k + 1)) := Nat.add_lt_add_right hr _
      _ = 2 ^ shift * (b.toNat % 128 % 2 ^ (k + 1) + 1) := by ring
      _ ≤ 2 ^ shift * 2 ^ (k + 1) := Nat.mul_le_mul_left _ hx
      _ = 2 ^ 64 := hpow.symm
  rw [hor, ← Nat.mod_eq_of_lt hlt, Nat.add_mod, ← Nat.mul_mod_mul_left, ← hpow, Nat.mod_mod, ← Nat.add_mod]

theorem forward_varintTurn (x : Nat × Nat) : Forward (varintTurn x) := by
  intro s
  cases s
  case nil => exact Nat.le_refl _
  case cons b s =>
    have hle := Nat.le_succ s.length
    by_cases hs : 64 ≤ x.2
    case pos => rwa [show x = (x.1, x.2) from rfl, varintTurn_long hs]
    case neg => rwa [show x = (x.1, x.2) from rfl, varintTurn_cons (Nat.lt_of_not_le hs)]

theorem eats_varintTurn (x : Nat × Nat) : Eats (varintTurn x) := by
  intro s a rest h
  cases s
  case nil => cases h
  case cons b s =>
    by_cases hs : 64 ≤ x.2
    case pos =>
      rw [show x = (x.1, x.2) from rfl, varintTurn_long hs] at h
      cases h
    case neg =>
      rw [show x = (x.1, x.2) from rfl, varintTurn_cons (Nat.lt_of_not_le hs)] at h
      cases (Prod.mk.inj h).2
      exact Nat.lt_succ_self _

theorem sound_varintTurn (x : Nat × Nat) (n : Nat) : Sound (varintTurn x) n where
  forward := forward_varintTurn x
  safe s _ f h := by
    cases s
    case nil =>
      cases h
      exact ⟨.truncated, rfl⟩
    case cons b s =>
      by_cases hs : 64 ≤ x.2
      case pos =>
        rw [show x = (x.1, x.2) from rfl, varintTurn_long hs] at h
        cases h
        exact ⟨.malformed "varint длиннее 10 байт", rfl⟩
      case neg =>
        rw [show x = (x.1, x.2) from rfl, varintTurn_cons (Nat.lt_of_not_le hs)] at h
        cases h

theorem iterate_varintTurn {front : List UInt8} {last : UInt8} (hf : ∀ b ∈ front, 128 ≤ b.toNat)
    (hl : last.toNat < 128) (hr : r < 2 ^ shift) (hs : shift + 7 * front.length < 64) (s : List UInt8) :
    iterate varintTurn (r, shift) (front ++ last :: s) =
      (.ok ((r + 2 ^ shift * ofBase128 (front ++ [last])) % 2 ^ 64), s) := by
  induction front generalizing r shift
  case nil =>
    have hs : shift < 64 := hs
    have hturn : varintTurn (r, shift) (last :: s) = (.ok (.inr (withByte r shift last)), s) := by
      rw [varintTurn_cons hs, if_pos ((and_high_eq_zero_iff last).mpr hl)]
    rw [List.nil_append, iterate_inr hturn, withByte_eq hr hs]
    simp [ofBase128]
  case cons b front hi =>
    obtain ⟨hb, hf⟩ := List.forall_mem_cons.mp hf
    rw [List.length_cons] at hs
    have hb : ¬b &&& 0x80 = 0 := mt (and_high_eq_zero_iff b).mp (Nat.not_lt_of_le hb)
    have hturn : varintTurn (r, shift) (b :: (front ++ last :: s)) =
        (.ok (.inl (withByte r shift b, shift + 7)), front ++ last :: s) := by
      rw [varintTurn_cons (by omega), if_neg hb]
    have hlt : r + 2 ^ shift * (b.toNat % 128) < 2 ^ (shift + 7) := by
      have hx := Nat.mod_lt b.toNat (by decide : 0 < 128)
      calc r + 2 ^ shift * (b.toNat % 128) < 2 ^ shift + 2 ^ shift * (b.toNat % 128) := Nat.add_lt_add_right hr _
        _ = 2 ^ shift * (b.toNat % 128 + 1) := by ring
        _ ≤ 2 ^ shift * 2 ^ 7 := Nat.mul_le_mul_left _ hx
        _ = 2 ^ (shift + 7) := (Nat.pow_add 2 shift 7).symm
    have hbyte : withByte r shift b = r + 2 ^ shift * (b.toNat % 128) := by
      rw [withByte_eq hr (by omega), Nat.mod_eq_of_lt]
      exact Nat.lt_of_lt_of_le hlt (Nat.pow_le_pow_right (by decide) (by omega))
    rw [List.cons_append, iterate_inl (progresses_of_eats eats_varintTurn) hturn, hbyte, hi hf hlt (by omega)]
    congr 3
    simp only [List.cons_append, ofBase128]
    ring

theorem reads_varint {bs : List UInt8} {v : Nat} (h : Varint bs v) : Reads readVarint bs v := by
  obtain ⟨front, last, rfl, hf, hl⟩ := h.ends
  have hlen := h.le
  rw [List.length_append, List.length_singleton] at hlen
  intro rest
  have hi := @iterate_varintTurn 0 0 front last hf hl (by decide) (by omega) rest
  rw [List.append_assoc, List.singleton_append]
  refine hi.trans ?_
  rw [Nat.zero_add, Nat.pow_zero, Nat.one_mul, h.value]

end Varint

section Reads

variable {bs tag b body : List UInt8} {f : Field}

theorem reads_tag (h : 0 < f.number) (ht : Varint tag (8 * f.number + f.payload.wire)) :
    Reads readTag tag (f.number, f.payload.wire) := by
  have hwire : f.payload.wire < 8 := by cases f.payload <;> simp [Payload.wire]
  have hfield : (8 * f.number + f.payload.wire) >>> 3 = f.number := by
    rw [Nat.shiftRight_eq_div_pow]
    omega
  have hlow : (8 * f.number + f.payload.wire) &&& 0x07 = f.payload.wire := by
    rw [Nat.and_two_pow_sub_one_eq_mod _ 3]
    omega
  refine (reads_varint ht).last ?_
  simp only [hfield, hlow, if_neg (Nat.ne_of_gt h)]

-- There is room for what is read.
theorem reads_slice (b : List UInt8) :
    Reads (do
      if (← remaining) < b.length then fail .truncated
      else
        let b' ← slice b.length
        Cursor.advance b.length
        return b' : Reader (List UInt8)) b b := by
  intro rest
  have hle : b.length ≤ (b ++ rest).length := by simp
  have hs : (slice b.length : Reader (List UInt8)) (b ++ rest) = (.ok b, b ++ rest) := by
    rw [slice, if_pos hle, List.take_left]
  rw [bind_eq (show (remaining : Reader Nat) (b ++ rest) = (.ok (b ++ rest).length, b ++ rest) from rfl),
    if_neg (Nat.not_lt_of_le hle), bind_eq hs]
  show (Except.ok b, (b ++ rest).drop b.length) = _
  rw [List.drop_left]

theorem reads_bytes (h : Varint bs b.length) : Reads readBytes (bs ++ b) b :=
  (reads_varint h).bind (reads_slice b)

theorem reads_string (h : Varint bs b.length) : Reads readString (bs ++ b) (.ofList (Utf8.decodeLossy b)) :=
  (reads_bytes h).last rfl

theorem reads_advance (b : List UInt8) : Reads (advance b.length) b () := by
  intro rest
  have hle : b.length ≤ (b ++ rest).length := by simp
  rw [advance, bind_eq (show (remaining : Reader Nat) (b ++ rest) = (.ok (b ++ rest).length, b ++ rest) from rfl),
    if_neg (Nat.not_lt_of_le hle)]
  show (Except.ok (), (b ++ rest).drop b.length) = _
  rw [List.drop_left]

theorem reads_skip (h : PayloadText f.payload body) : Reads (skip f.payload.wire) body () := by
  obtain ⟨number, payload⟩ := f
  cases h
  case varint h => exact (reads_varint h).last rfl
  case len h    => exact (reads_bytes h).last rfl
  case i64 h =>
    have hr := reads_advance body
    rwa [h] at hr
  case i32 h =>
    have hr := reads_advance body
    rwa [h] at hr

-- The reader that is told what the tag is decides how a field is read.
theorem reads_field {α : Type} {next : Nat × Nat → Reader α} {a : α} (hf : FieldText f bs)
    (h : ∀ body, PayloadText f.payload body → Reads (next (f.number, f.payload.wire)) body a) :
    Reads (readTag >>= next) bs a := by
  obtain ⟨h0, ht, hb⟩ := hf
  exact (reads_tag h0 ht).bind (h _ hb)

-- A reader that knows fields with two tags, and skips the others.
theorem reads_twoFields {σ : Type} {k₁ w₁ k₂ w₂ : Nat} {m₁ m₂ : Reader σ} {x y : σ} (hf : FieldText f bs)
    (h₁ : f.number = k₁ ∧ f.payload.wire = w₁ → ∀ body, PayloadText f.payload body → Reads m₁ body y)
    (h₂ : ¬(f.number = k₁ ∧ f.payload.wire = w₁) → f.number = k₂ ∧ f.payload.wire = w₂ →
      ∀ body, PayloadText f.payload body → Reads m₂ body y)
    (h₃ : ¬(f.number = k₁ ∧ f.payload.wire = w₁) → ¬(f.number = k₂ ∧ f.payload.wire = w₂) → x = y) :
    Reads (do
      let tag ← readTag
      if tag = (k₁, w₁) then m₁
      else if tag = (k₂, w₂) then m₂
      else
        skip tag.2
        return x) bs y := by
  refine reads_field hf fun body hb => ?_
  by_cases ht₁ : f.number = k₁ ∧ f.payload.wire = w₁
  case pos =>
    rw [if_pos (Prod.ext ht₁.1 ht₁.2)]
    exact h₁ ht₁ body hb
  case neg =>
    rw [if_neg fun he => ht₁ ⟨congrArg Prod.fst he, congrArg Prod.snd he⟩]
    by_cases ht₂ : f.number = k₂ ∧ f.payload.wire = w₂
    case pos =>
      rw [if_pos (Prod.ext ht₂.1 ht₂.2)]
      exact h₂ ht₁ ht₂ body hb
    case neg =>
      rw [if_neg fun he => ht₂ ⟨congrArg Prod.fst he, congrArg Prod.snd he⟩, ← h₃ ht₁ ht₂]
      exact (reads_skip hb).last rfl

theorem reads_message {σ : Type} {body : σ → Reader σ} {step : σ → Field → σ} {fs : List Field}
    (he : ∀ x, Eats (body x)) (h : ∀ f ∈ fs, ∀ bs x, FieldText f bs → Reads (body x) bs (step x f))
    (ht : MessageText fs bs) (x : σ) : untilEof body x bs = (.ok (fs.foldl step x), []) := by
  obtain ⟨ts, rfl, rfl, hts⟩ := ht.pieces
  rw [List.foldl_map]
  exact untilEof_reads he (fun t hm x => h t.1 (List.mem_map_of_mem hm) t.2 x (hts t hm)) x

end Reads

section Sound

variable {n : Nat}

theorem sound_readVarint : Sound readVarint n :=
  sound_iterate (fun x => sound_varintTurn x n) (progresses_of_eats eats_varintTurn) _

theorem eats_readVarint : Eats readVarint :=
  eats_iterate eats_varintTurn forward_varintTurn _

theorem sound_readTag : Sound readTag n :=
  sound_readVarint.bind fun _ => .ite (sound_fail _) (sound_pure _)

theorem eats_readTag : Eats readTag :=
  eats_readVarint.bind fun _ => .ite (forward_throw _) (forward_pure _)

-- Nothing is taken that is not there.
theorem sound_slice (len : Nat) : Sound (do
    if (← remaining) < len then fail .truncated
    else
      let b ← slice len
      Cursor.advance len
      return b : Reader (List UInt8)) n where
  forward := forward_remaining.bind fun _ =>
    .ite (forward_throw _) ((forward_slice len).bind fun _ => (forward_advance len).bind fun _ => forward_pure _)
  safe s _ f hf := by
    rw [bind_eq (show (remaining : Reader Nat) s = (.ok s.length, s) from rfl)] at hf
    by_cases hl : s.length < len
    case pos =>
      rw [if_pos hl] at hf
      cases hf
      exact ⟨.truncated, rfl⟩
    case neg =>
      have hs : (slice len : Reader (List UInt8)) s = (.ok (s.take len), s) := if_pos (Nat.le_of_not_lt hl)
      rw [if_neg hl, bind_eq hs] at hf
      cases hf

theorem sound_readBytes : Sound readBytes n :=
  sound_readVarint.bind sound_slice

theorem sound_readString : Sound readString n :=
  sound_readBytes.bind fun _ => sound_pure _

theorem sound_advance (k : Nat) : Sound (advance k) n :=
  sound_remaining.bind fun _ => .ite (sound_fail _) (Cursor.sound_advance k)

theorem sound_skip (wire : Nat) : Sound (skip wire) n :=
  .ite (sound_readVarint.bind fun _ => sound_pure _) <|
  .ite (sound_advance 8) <|
  .ite (sound_readBytes.bind fun _ => sound_pure _) <|
  .ite (sound_advance 4) (sound_fail _)

theorem sound_nested {α : Type} {m : Reader α} (h : ∀ k, Sound m k) (bytes : List UInt8) :
    Sound (nested m bytes) n where
  forward _ := Nat.le_refl _
  safe _ _ f hf := (h (bytes.length + 1)).safe bytes (Nat.lt_succ_self _) f hf

-- A reader of fields uses something up and only goes wrong by saying so.
structure OfFields {σ : Type} (body : σ → Reader σ) : Prop where
  eats  : ∀ x, Eats (body x)
  sound : ∀ x k, Sound (body x) k

theorem ofFields_readTag {σ : Type} {next : σ → Nat × Nat → Reader σ} (h : ∀ x tag k, Sound (next x tag) k) :
    OfFields fun x => readTag >>= next x where
  eats x    := eats_readTag.bind fun tag => (h x tag 0).forward
  sound x _ := sound_readTag.bind fun tag => h x tag _

theorem OfFields.message {σ : Type} {body : σ → Reader σ} (h : OfFields body) (x : σ) :
    Sound (untilEof body x) n :=
  sound_untilEof (fun x => h.sound x n) h.eats x

end Sound
end JammVpn.Geo.Reader
