import JammVpn.Lib.PollPipe
import JammVpn.Net.Shadowsocks
import JammVpn.Net.Theorems.Xor

-- Records that look like those of TLS, with a new key after each record at the highest nonce.
namespace JammVpn.VlessEnc

open Bytes PollIo JammVpn.Xor
open Shadowsocks (incrNonce incrNonce_toLe)

def maxData : Nat := 8192
def tag : Nat := 16
def maxNonce : List UInt8 := List.replicate 12 0xff

theorem length_incrNonce (bs : List UInt8) : (incrNonce bs).length = bs.length := by
  induction bs
  case nil => rfl
  case cons b bs hi =>
    rw [incrNonce]
    split
    case isTrue  => rfl
    case isFalse => exact congrArg (· + 1) hi

-- A cipher and the last nonce that it was used with. (`Aead` is the cipher here.)
structure AeadState where
  key    : List UInt8
  useAes : Bool
  nonce  : List UInt8
  length : nonce.length = 12

variable (p : Primitives)

namespace AeadState

def new (ctx key : List UInt8) (useAes : Bool) : AeadState where
  key := p.blake3DeriveKey ctx key
  useAes := useAes
  nonce := List.replicate 12 0
  length := rfl

variable (s : AeadState)

def cipher : Aead :=
  if s.useAes then p.aes256Gcm else p.chacha20Poly1305

def atMax : Bool :=
  s.nonce = maxNonce

-- A counter whose last byte is the lowest.
def increase : AeadState where
  key := s.key
  useAes := s.useAes
  nonce := (incrNonce s.nonce.reverse).reverse
  length := by rw [List.length_reverse, length_incrNonce, List.length_reverse, s.length]

def sealRecord (plain aad : List UInt8) : List UInt8 × AeadState :=
  ((s.cipher p).encrypt s.key s.increase.nonce aad plain, s.increase)

def openRecord (ct aad : List UInt8) : Except IoError (List UInt8) × AeadState :=
  match (s.cipher p).decrypt s.key s.increase.nonce aad ct with
  | some plain => (.ok plain, s.increase)
  | none       => (.error (.other "VLESS encryption: ошибка расшифровки (AEAD)"), s.increase)

end AeadState

variable (unitedKey : List UInt8) (useAes : Bool)

-- The key after a record is made from the record, if its nonce came after the highest one.
def rekey (before after : AeadState) (record : List UInt8) : AeadState :=
  if before.atMax then .new p record unitedKey useAes else after

inductive ReadStage
  | padding (len : Nat) (pos : 0 < len)
  | header
  | data (hdr : List UInt8) (len : Nat) (min : 17 ≤ len)

structure ReadState where
  stage : ReadStage
  peer  : AeadState

-- The padding comes before the first record, if there is any.
def ReadState.new (paddingLen : Nat) (peer : AeadState) : ReadState where
  stage := if h : 0 < paddingLen then .padding paddingLen h else .header
  peer := peer

def ReadState.need (s : ReadState) : Nat :=
  match s.stage with
  | .padding len _ => len
  | .header        => 5
  | .data _ len _  => len

def ReadState.clean (s : ReadState) : Bool :=
  match s.stage with
  | .data .. => false
  | _        => true

def ReadState.next (s : ReadState) (frame : List UInt8) :
    Except IoError (Option (List UInt8)) × ReadState :=
  match s.stage with
  | .padding .. =>
    match s.peer.openRecord p frame [] with
    | (.error e, peer) => (.error e, { s with peer })
    | (.ok _, peer)    => (.ok none, { stage := .header, peer })
  | .header =>
    let len := ofBe (frame.drop 3)
    if h : frame.take 3 = [23, 3, 3] ∧ 17 ≤ len ∧ len ≤ 16640 then
      (.ok none, { s with stage := .data frame len h.2.1 })
    else (.error (.other "vless-enc: неверный заголовок записи"), s)
  | .data hdr .. =>
    match s.peer.openRecord p frame hdr with
    | (.error e, peer) => (.error e, { s with peer })
    | (.ok pt, peer)   =>
      (.ok (some pt), { stage := .header, peer := rekey p unitedKey useAes s.peer peer (hdr ++ frame) })

theorem length_of_openRecord {s s' : AeadState} {ct aad plain : List UInt8}
    (h : s.openRecord p ct aad = (.ok plain, s')) : ct.length = plain.length + 16 := by
  rw [AeadState.openRecord] at h
  split at h
  case h_1 plain' hd =>
    cases h
    exact Aead.length_of_decrypt _ hd
  case h_2 => cases h

def framing : Framing ReadState where
  need := ReadState.need
  next := ReadState.next p unitedKey useAes
  clean := ReadState.clean
  need_pos s := by
    obtain ⟨stage, peer⟩ := s
    cases stage
    case padding len pos  => exact pos
    case header           => exact Nat.succ_pos _
    case data hdr len min => exact Nat.lt_of_lt_of_le (by decide) min
  next_ne := by
    intro s frame pt s' hl hn
    obtain ⟨stage, peer⟩ := s
    cases stage
    case padding =>
      simp only [ReadState.next] at hn
      split at hn <;> cases hn
    case header =>
      simp only [ReadState.next] at hn
      split at hn <;> cases hn
    case data hdr len min =>
      simp only [ReadState.next] at hn
      split at hn
      case h_1 => cases hn
      case h_2 pt' peer' ho =>
        cases hn
        have hlen : len = pt.length + 16 := hl.symm.trans (length_of_openRecord p ho)
        exact List.ne_nil_of_length_pos (by omega)

theorem transformRead_eq (x : XorState) (bs : List UInt8) :
    x.transformRead bs = ((Transducer.run (Direction.step .read) x.incoming bs).1,
      { x with incoming := (Transducer.run (Direction.step .read) x.incoming bs).2 }) := by
  rw [XorState.transformRead, transform_eq_run]

-- In the random mode the headers of records are restored as the bytes come in.
def headers : PollIo.Filter (Option XorState) where
  apply x bs :=
    match x with
    | none   => (bs, none)
    | some x => ((x.transformRead bs).1, some (x.transformRead bs).2)
  apply_nil x := by
    cases x
    case none   => rfl
    case some x => simp only [transformRead_eq, Transducer.run]
  apply_append x as bs := by
    cases x
    case none   => rfl
    case some x => simp only [transformRead_eq, Transducer.run_append]
  length x as := by
    cases x
    case none   => rfl
    case some x => simp only [transformRead_eq, Transducer.length_run]

structure WriteState where
  aead : AeadState
  xor  : Option XorState

def encode (s : WriteState) (buf : List UInt8) : Except IoError Nat × List UInt8 × WriteState :=
  let take := min buf.length maxData
  let hdr := [23, 3, 3] ++ toBe 2 (take + tag)
  let (ct, after) := s.aead.sealRecord p (buf.take take) hdr
  let record := hdr ++ ct
  let aead := rekey p unitedKey useAes s.aead after record
  -- The new key is made from the record as it is before its header is hidden.
  match s.xor with
  | none   => (.ok take, record, { aead, xor := none })
  | some x =>
    let (record, x) := x.transformWrite record
    (.ok take, record, { aead, xor := some x })

def encoder : Encoder WriteState Unit where
  direct _ := false
  encode s _ := encode p unitedKey useAes s

def pollWrite : Writer WriteState → Sink → Unit → List UInt8 → Poll Nat × Writer WriteState × Sink :=
  (encoder p unitedKey useAes).pollWrite

def pollRead : Reader ReadState (Option XorState) → Source → Nat →
    Poll (List UInt8) × Reader ReadState (Option XorState) × Source :=
  (framing p unitedKey useAes).pollRead headers

end JammVpn.VlessEnc
