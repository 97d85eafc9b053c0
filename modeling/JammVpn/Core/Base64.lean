import JammVpn.Lib.Utf8
import JammVpn.Core.Model

namespace JammVpn.Base64

open Text

def alphabet : List Char :=
  "ABCDEFGHIJKLMNOPQRSTUVWXYZabcdefghijklmnopqrstuvwxyz0123456789+/".toList

-- The value of a byte in either alphabet; `none` stands for `INVALID`.
def decodeTable (b : UInt8) : Option Nat :=
  let c := Char.ofNat b.toNat
  if c = '-' then some 62
  else if c = '_' then some 63
  else alphabet.idxOf? c

structure DecodeState where
  out  : List UInt8
  buf  : Nat
  bits : Nat

def isSkipped (b : UInt8) : Bool :=
  b ∈ [0x3d, 0x0d, 0x0a, 0x20, 0x09]

-- Takes six bits more. The buffer is a `u32`, whose upper bits are shifted out; the new value fills
-- the bits that the shift has cleared.
def DecodeState.push (s : DecodeState) (v : Nat) : DecodeState :=
  let buf := s.buf * 64 % 2 ^ 32 + v
  let bits := s.bits + 6
  if 8 ≤ bits then
    { out := s.out ++ [.ofNat (buf / 2 ^ (bits - 8))], buf, bits := bits - 8 }
  else
    { s with buf, bits }

def decodeStep (s : DecodeState) (b : UInt8) : Except ParseError DecodeState :=
  if isSkipped b then .ok s
  else match decodeTable b with
  | none   => .error (.base64 (.ofList ("недопустимый байт: 0x".toList ++ hex2 b.toNat)))
  | some v => .ok (s.push v)
where
  hex2 (n : Nat) : List Char :=
    [Nat.digitChar (n / 16), Nat.digitChar (n % 16)]

def decodeLoose (input : String) : Except ParseError (List UInt8) := do
  let s ← (Utf8.encode input.toList).foldlM decodeStep ⟨[], 0, 0⟩
  return s.out

-- The same with the words of the source.
structure WordState where
  out  : List UInt8
  buf  : UInt32
  bits : UInt32

def WordState.push (s : WordState) (v : UInt8) : WordState :=
  let buf := s.buf <<< 6 ||| v.toUInt32
  let bits := s.bits + 6
  if 8 ≤ bits then
    { out := s.out ++ [(buf >>> (bits - 8)).toUInt8], buf, bits := bits - 8 }
  else
    { s with buf, bits }

def wordStep (s : WordState) (b : UInt8) : Except ParseError WordState :=
  if isSkipped b then .ok s
  else match decodeTable b with
  | none   => .error (.base64 (.ofList ("недопустимый байт: 0x".toList ++ decodeStep.hex2 b.toNat)))
  | some v => .ok (s.push (.ofNat v))

def decodeWords (input : String) : Except ParseError (List UInt8) := do
  let s ← (Utf8.encode input.toList).foldlM wordStep ⟨[], 0, 0⟩
  return s.out

def decodeToString (input : String) : Except ParseError String := do
  match Utf8.decode (← decodeLoose input) with
  | some s => return .ofList s
  | none   => .error .utf8

def symbol (n : Nat) : Char :=
  alphabet.getD (n % 64) '='

def encodeChunks : List UInt8 → List Char
  | [] => []
  | [b₀] =>
    let n := b₀.toNat * 65536
    [symbol (n / 262144), symbol (n / 4096), '=', '=']
  | [b₀, b₁] =>
    let n := b₀.toNat * 65536 + b₁.toNat * 256
    [symbol (n / 262144), symbol (n / 4096), symbol (n / 64), '=']
  | b₀ :: b₁ :: b₂ :: bs =>
    let n := b₀.toNat * 65536 + b₁.toNat * 256 + b₂.toNat
    symbol (n / 262144) :: symbol (n / 4096) :: symbol (n / 64) :: symbol n :: encodeChunks bs

def encodeStandard (input : List UInt8) : String :=
  .ofList (encodeChunks input)

theorem encode_alphabet : ∀ i < 64, ∀ c, c = alphabet.getD i '=' →
    String.utf8EncodeChar c = [.ofNat c.toNat] ∧ isSkipped (.ofNat c.toNat) = false ∧
      decodeTable (.ofNat c.toNat) = some i := by
  simp only [forall_eq]
  decide +kernel

-- The decoder reads a symbol as its six bits.
theorem foldlM_symbol (s : DecodeState) (n : Nat) (cs : List Char) :
    (Utf8.encode (symbol n :: cs)).foldlM decodeStep s =
      (Utf8.encode cs).foldlM decodeStep (s.push (n % 64)) := by
  have ⟨he, hs, ht⟩ := encode_alphabet (n % 64) (Nat.mod_lt _ (by decide)) (symbol n) rfl
  rw [Utf8.encode_cons, he, List.singleton_append, List.foldlM_cons]
  simp only [decodeStep, hs, ht]
  rfl

theorem foldlM_padding (s : DecodeState) (cs : List Char) :
    (Utf8.encode ('=' :: cs)).foldlM decodeStep s = (Utf8.encode cs).foldlM decodeStep s :=
  rfl

theorem ofNat_eq {b : UInt8} {n : Nat} (h : n % 256 = b.toNat) : UInt8.ofNat n = b := by
  rw [← UInt8.toNat_inj, UInt8.toNat_ofNat', h]

-- Two, three and four symbols give one, two and three bytes. What the buffer holds when the bits are
-- used up is shifted out of the bytes that follow.
section Chunks

variable {s : DecodeState} {b₀ b₁ b₂ : UInt8} {n : Nat}

theorem push_two (h : s.bits = 0) (hn : n / 65536 = b₀.toNat) :
    ((s.push (n / 262144 % 64)).push (n / 4096 % 64)).out = s.out ++ [b₀] := by
  have := b₀.toNat_lt
  have h₀ : ((s.buf * 64 % 2 ^ 32 + n / 262144 % 64) * 64 % 2 ^ 32 + n / 4096 % 64) / 2 ^ 4 % 256 =
    b₀.toNat := by omega
  simp only [DecodeState.push, h]
  exact congrArg (s.out ++ [·]) (ofNat_eq h₀)

theorem push_three (h : s.bits = 0) (hn : n / 256 = b₀.toNat * 256 + b₁.toNat) :
    (((s.push (n / 262144 % 64)).push (n / 4096 % 64)).push (n / 64 % 64)).out =
      s.out ++ [b₀, b₁] := by
  have := b₁.toNat_lt
  have ho := @push_two s b₀ n h (by omega)
  generalize hs : (s.push (n / 262144 % 64)).push (n / 4096 % 64) = s₂ at ho ⊢
  have hb : s₂.bits = 4 := by simp [← hs, DecodeState.push, h]
  have hv : s₂.buf % 16 = n / 4096 % 16 := by simp [← hs, DecodeState.push, h]; omega
  have h₁ : (s₂.buf * 64 % 2 ^ 32 + n / 64 % 64) / 2 ^ 2 % 256 = b₁.toNat := by omega
  simp only [DecodeState.push, hb, ho]
  rw [← ofNat_eq h₁]
  simp

theorem push_four (h : s.bits = 0) (hn : n = b₀.toNat * 65536 + b₁.toNat * 256 + b₂.toNat) :
    let s' := (((s.push (n / 262144 % 64)).push (n / 4096 % 64)).push (n / 64 % 64)).push (n % 64)
    s'.out = s.out ++ [b₀, b₁, b₂] ∧ s'.bits = 0 := by
  have := b₂.toNat_lt
  have ho := @push_three s b₀ b₁ n h (by omega)
  generalize hs : ((s.push (n / 262144 % 64)).push (n / 4096 % 64)).push (n / 64 % 64) = s₃ at ho ⊢
  have hb : s₃.bits = 2 := by simp [← hs, DecodeState.push, h]
  have hv : s₃.buf % 4 = n / 64 % 4 := by simp [← hs, DecodeState.push, h]; omega
  have h₂ : (s₃.buf * 64 % 2 ^ 32 + n % 64) / 2 ^ 0 % 256 = b₂.toNat := by omega
  simp only [DecodeState.push, hb, ho]
  rw [← ofNat_eq h₂]
  simp

end Chunks

theorem foldlM_encodeChunks (bs : List UInt8) (s : DecodeState) (h : s.bits = 0) :
    ∃ s', (Utf8.encode (encodeChunks bs)).foldlM decodeStep s = .ok s' ∧ s'.out = s.out ++ bs := by
  fun_induction encodeChunks bs generalizing s
  case case1 => exact ⟨s, rfl, by simp⟩
  case case2 b₀ n =>
    refine ⟨_, by rw [foldlM_symbol, foldlM_symbol, foldlM_padding, foldlM_padding]; rfl, ?_⟩
    exact push_two h (by omega)
  case case3 b₀ b₁ n =>
    have := b₁.toNat_lt
    refine ⟨_, by rw [foldlM_symbol, foldlM_symbol, foldlM_symbol, foldlM_padding]; rfl, ?_⟩
    exact push_three h (by omega)
  case case4 b₀ b₁ b₂ bs n hi =>
    have ⟨ho, hb⟩ := push_four (n := n) h rfl
    have ⟨s', hs, ho'⟩ := hi _ hb
    refine ⟨s', ?_, by rw [ho', ho]; simp⟩
    rw [foldlM_symbol, foldlM_symbol, foldlM_symbol, foldlM_symbol]
    exact hs

theorem decodeLoose_encodeStandard (bs : List UInt8) : decodeLoose (encodeStandard bs) = .ok bs := by
  have ⟨s, hs, ho⟩ := foldlM_encodeChunks bs ⟨[], 0, 0⟩ rfl
  simp only [decodeLoose, encodeStandard, String.toList_ofList, hs]
  exact congrArg Except.ok ho

end JammVpn.Base64
