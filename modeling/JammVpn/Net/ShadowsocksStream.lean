import JammVpn.Lib.PollPipe
import JammVpn.Net.Shadowsocks

-- A stream of sealed chunks: a salt, and for each chunk its sealed length and its sealed bytes.
namespace JammVpn.ShadowsocksStream

open Bytes PollIo Shadowsocks

def maxChunk : Nat := 0x3fff
def tagLen : Nat := 16

-- The state of the cipher is there as soon as the salt is.
inductive ReadStage
  | salt
  | len (recv : Crypto)
  | data (recv : Crypto) (len : Nat) (pos : 0 < len)

variable (p : Primitives) (method : Method) (master : List UInt8)

def newCrypto (salt : List UInt8) : Except IoError Crypto :=
  (Crypto.new method (sessionSubkey p method master salt)).mapError .other

def ReadStage.need : ReadStage → Nat
  | salt       => method.saltLen
  | len _      => 2 + tagLen
  | data _ n _ => n + tagLen

-- The stream may end before its salt, and between two chunks.
def ReadStage.clean : ReadStage → Bool
  | data .. => false
  | _       => true

def ReadStage.next (stage : ReadStage) (frame : List UInt8) :
    Except IoError (Option (List UInt8)) × ReadStage :=
  match stage with
  | salt =>
    match newCrypto p method master frame with
    | .error e => (.error e, stage)
    | .ok recv => (.ok none, .len recv)
  | len recv =>
    match recv.openBytes p frame with
    | .error e       => (.error (.other e), stage)
    | .ok (pt, recv) =>
      let len := ofBe (pt.take 2)
      if h : 0 < len ∧ len ≤ maxChunk then (.ok none, .data recv len h.1)
      else (.error (.other "ss: неверная длина чанка"), .len recv)
  | data recv .. =>
    match recv.openBytes p frame with
    | .error e       => (.error (.other e), stage)
    | .ok (pt, recv) => (.ok (some pt), .len recv)

def framing : Framing ReadStage where
  need := ReadStage.need method
  next := ReadStage.next p method master
  clean := ReadStage.clean
  need_pos stage := by
    cases stage
    case salt => cases method <;> decide
    case len  => exact Nat.succ_pos _
    case data => exact Nat.succ_pos _
  next_ne := by
    intro stage frame pt stage' hl hn
    cases stage
    case salt =>
      simp only [ReadStage.next] at hn
      split at hn <;> cases hn
    case len recv =>
      simp only [ReadStage.next] at hn
      split at hn
      case h_1 => cases hn
      case h_2 => split at hn <;> cases hn
    case data recv len pos =>
      simp only [ReadStage.next] at hn
      split at hn
      case h_1 => cases hn
      case h_2 pt' recv' ho =>
        cases hn
        have hlen := Crypto.length_of_openBytes ho
        rw [hl, ReadStage.need, tagLen] at hlen
        exact List.ne_nil_of_length_pos (by omega)

-- What the source of random bytes gives, if it gives anything.
abbrev Random :=
  Option (Nat → UInt8)

-- The first call draws the salt, which goes before its chunk.
def openSend (send : Option Crypto) (random : Random) : Except IoError (List UInt8 × Crypto) :=
  match send, random with
  | some send, _     => .ok ([], send)
  | none, none       => .error (.other "getrandom")
  | none, some bytes =>
    let salt := (List.range method.saltLen).map bytes
    (newCrypto p method master salt).map (salt, ·)

def encode (send : Option Crypto) (random : Random) (buf : List UInt8) :
    Except IoError Nat × List UInt8 × Option Crypto :=
  match openSend p method master send random with
  | .error e          => (.error e, [], send)
  | .ok (salt, send)  =>
    let take := min buf.length maxChunk
    let (len, send) := send.sealBytes p (toBe 2 take)
    let (data, send) := send.sealBytes p (buf.take take)
    (.ok take, salt ++ len ++ data, some send)

def encoder : Encoder (Option Crypto) Random where
  direct _ := false
  encode := encode p method master

-- The nonces of the frames that a call seals.
def nonces : Option Crypto × Random × List UInt8 → List (List UInt8)
  | (send, random, buf) =>
    match openSend p method master send random with
    | .error _       => []
    | .ok (_, send)  => [send.nonce, (send.sealBytes p (toBe 2 (min buf.length maxChunk))).2.nonce]

def pollWrite : Writer (Option Crypto) → Sink → Random → List UInt8 →
    Poll Nat × Writer (Option Crypto) × Sink :=
  (encoder p method master).pollWrite

def pollFlush : Writer (Option Crypto) → Sink → Poll Unit × Writer (Option Crypto) × Sink :=
  Encoder.pollFlush

def pollRead : Reader ReadStage Unit → Source → Nat → Poll (List UInt8) × Reader ReadStage Unit × Source :=
  (framing p method master).pollRead .id

end JammVpn.ShadowsocksStream
