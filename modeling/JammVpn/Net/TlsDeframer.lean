import JammVpn.Lib.Bytes
import JammVpn.Lib.PollWrite

-- Records of TLS out of a stream that comes in pieces, and the search for the first of them.
namespace JammVpn.Vision

open Bytes PollIo

def tlsRecordHeaderSize : Nat := 5
def maxTlsCiphertextLen : Nat := 16384 + 2048
def minTlsHandshakePatternLen : Nat := 6

inductive DeframerState
  | readingHeader
  | readingPayload (payloadLen : Nat)
  deriving DecidableEq

structure TlsDeframer where
  buffer : List UInt8
  state  : DeframerState
  deriving DecidableEq

-- `{:02x}`.
def hex (b : UInt8) : String :=
  let digits := Nat.toDigits 16 b.toNat
  String.ofList (if digits.length < 2 then '0' :: digits else digits)

-- The length of the payload.
def checkHeader (contentType major minor hi lo : UInt8) : Except IoError Nat :=
  let payloadLen := hi.toNat * 256 + lo.toNat
  if major ≠ 0x03 ∨ ¬(0x01 ≤ minor ∧ minor ≤ 0x03) then
    .error (.other s!"Invalid TLS protocol version: 0x{hex major}{hex minor} (expected 0x0301 to 0x0303)")
  else if maxTlsCiphertextLen < payloadLen then
    .error (.other s!"TLS record ciphertext length {payloadLen} exceeds maximum {maxTlsCiphertextLen} (TLS 1.2 limit)")
  else if ¬(0x14 ≤ contentType ∧ contentType ≤ 0x18) then
    .error (.other s!"Invalid TLS content type: 0x{hex contentType}")
  else .ok payloadLen

namespace TlsDeframer

def new : TlsDeframer where
  buffer := []
  state := .readingHeader

def feed (d : TlsDeframer) (data : List UInt8) : TlsDeframer :=
  { d with buffer := d.buffer ++ data }

-- The record, when all of it has come.
def readPayload (d : TlsDeframer) (payloadLen : Nat) : Option (List UInt8) × TlsDeframer :=
  let totalLen := tlsRecordHeaderSize + payloadLen
  if d.buffer.length < totalLen then (none, { d with state := .readingPayload payloadLen })
  else (some (d.buffer.take totalLen), { buffer := d.buffer.drop totalLen, state := .readingHeader })

def nextRecord (d : TlsDeframer) : Except IoError (Option (List UInt8)) × TlsDeframer :=
  match d.state with
  | .readingPayload payloadLen =>
    let (record, d) := d.readPayload payloadLen
    (.ok record, d)
  | .readingHeader =>
    match d.buffer with
    | contentType :: major :: minor :: hi :: lo :: _ =>
      match checkHeader contentType major minor hi lo with
      | .error e       => (.error e, d)
      | .ok payloadLen =>
        let (record, d) := d.readPayload payloadLen
        (.ok record, d)
    | _ => (.ok none, d)

end TlsDeframer

-- Data that a handshake can begin with.
def isValidTlsHandshakePrefix : List UInt8 → Bool
  | []               => true
  | [a]              => a = 0x16
  | [a, b]           => a = 0x16 ∧ b = 0x03
  | a :: b :: c :: _ => a = 0x16 ∧ b = 0x03 ∧ 0x01 ≤ c ∧ c ≤ 0x03

-- A client hello or a server hello. The search gives up where too little is left after the first two bytes.
def findTlsHandshakeStart : List UInt8 → Option Nat
  | []           => none
  | a :: data => do
    if a = 0x16 ∧ data.head? = some 0x03 then
      match data with
      | _ :: minor :: _ :: _ :: kind :: _ =>
        if 0x01 ≤ minor ∧ minor ≤ 0x03 ∧ (kind = 0x01 ∨ kind = 0x02) then return 0
        else return (← findTlsHandshakeStart data) + 1
      | _ => none
    else return (← findTlsHandshakeStart data) + 1

-- The longest end of the data that a handshake can begin with.
def findPotentialTlsSuffixLen (data : List UInt8) : Nat :=
  let lens := (List.range (min data.length 5)).reverse.map (· + 1)
  (lens.find? fun len => isValidTlsHandshakePrefix (data.drop (data.length - len))).getD 0

inductive DeframeResult
  | tlsRecord (record : List UInt8)
  | unknownPrefix (before : List UInt8)
  | needData
  deriving DecidableEq

def DeframeResult.bytes : DeframeResult → List UInt8
  | tlsRecord record     => record
  | unknownPrefix before => before
  | needData             => []

-- The deframer is not fed before the first record has been found, and the search buffer is not used any
-- more after that.
inductive FuzzyTlsDeframer
  | searching (searchBuffer : List UInt8)
  | deframing (inner : TlsDeframer)
  deriving DecidableEq

namespace FuzzyTlsDeframer

def new : FuzzyTlsDeframer :=
  searching []

def feed (data : List UInt8) : FuzzyTlsDeframer → FuzzyTlsDeframer
  | searching searchBuffer => searching (searchBuffer ++ data)
  | deframing inner        => deframing (inner.feed data)

-- The next record of a stream whose first record has been found.
def deframe (inner : TlsDeframer) : Except IoError DeframeResult × FuzzyTlsDeframer :=
  match inner.nextRecord with
  | (.error e, inner)          => (.error e, deframing inner)
  | (.ok (some record), inner) => (.ok (.tlsRecord record), deframing inner)
  | (.ok none, inner)          => (.ok .needData, deframing inner)

def search (buffer : List UInt8) : Except IoError DeframeResult × FuzzyTlsDeframer :=
  if buffer.isEmpty then (.ok .needData, searching buffer)
  else
    match if minTlsHandshakePatternLen ≤ buffer.length then findTlsHandshakeStart buffer else none with
    | some 0            => deframe (TlsDeframer.new.feed buffer)
    | some (offset + 1) =>
      (.ok (.unknownPrefix (buffer.take (offset + 1))), deframing (TlsDeframer.new.feed (buffer.drop (offset + 1))))
    | none              =>
      let suffixLen := findPotentialTlsSuffixLen buffer
      let prefixLen := buffer.length - suffixLen
      if suffixLen < buffer.length then
        (.ok (.unknownPrefix (buffer.take prefixLen)), searching (buffer.drop prefixLen))
      else (.ok .needData, searching buffer)

def nextRecord : FuzzyTlsDeframer → Except IoError DeframeResult × FuzzyTlsDeframer
  | searching buffer => search buffer
  | deframing inner  => deframe inner

def remainingData : FuzzyTlsDeframer → List UInt8
  | searching buffer => buffer
  | deframing inner  => inner.buffer

def pendingBytes (d : FuzzyTlsDeframer) : Nat :=
  d.remainingData.length

def clear (_ : FuzzyTlsDeframer) : FuzzyTlsDeframer :=
  new

end FuzzyTlsDeframer

theorem TlsDeframer.readPayload_remaining (d : TlsDeframer) (n : Nat) :
    (d.readPayload n).1.getD [] ++ (d.readPayload n).2.buffer = d.buffer := by
  rw [readPayload]
  split
  case isTrue  => rfl
  case isFalse => exact List.take_append_drop _ _

theorem TlsDeframer.readPayload_some {d d' : TlsDeframer} {n : Nat} {record : List UInt8}
    (h : d.readPayload n = (some record, d')) :
    record = d.buffer.take (tlsRecordHeaderSize + n) ∧ d' = ⟨d.buffer.drop (tlsRecordHeaderSize + n), .readingHeader⟩ ∧
      tlsRecordHeaderSize + n ≤ d.buffer.length := by
  rw [readPayload] at h
  split at h
  case isTrue => cases h
  case isFalse hl =>
    cases h
    exact ⟨rfl, rfl, Nat.le_of_not_lt hl⟩

-- Nothing is lost or made up.
theorem TlsDeframer.nextRecord_remaining {d d' : TlsDeframer} {record : Option (List UInt8)}
    (h : d.nextRecord = (.ok record, d')) :
    record.getD [] ++ d'.buffer = d.buffer ∧ ∀ r, record = some r → r ≠ [] := by
  have hne {n : Nat} {r : List UInt8} {d₁ : TlsDeframer} (h : d.readPayload n = (some r, d₁)) : r ≠ [] := by
    have ⟨hr, _, hl⟩ := readPayload_some h
    rw [tlsRecordHeaderSize] at hr hl
    exact List.ne_nil_of_length_pos (by rw [hr, List.length_take]; omega)
  have hread {n : Nat} (h : (.ok (d.readPayload n).1, (d.readPayload n).2) = ((.ok record, d') : Except IoError _ × _)) :
      record.getD [] ++ d'.buffer = d.buffer ∧ ∀ r, record = some r → r ≠ [] := by
    cases h
    exact ⟨d.readPayload_remaining n, fun r hr => hne (Prod.ext hr rfl)⟩
  rw [nextRecord] at h
  split at h
  case h_1 => exact hread h
  case h_2 =>
    split at h
    case h_1 =>
      split at h
      case h_1 => cases h
      case h_2 => exact hread h
    case h_2 =>
      cases h
      exact ⟨rfl, nofun⟩

namespace FuzzyTlsDeframer

variable {d d' : FuzzyTlsDeframer} {r : DeframeResult}

theorem deframe_remaining {inner : TlsDeframer} (h : deframe inner = (.ok r, d')) :
    r.bytes ++ d'.remainingData = inner.buffer ∧ (r ≠ .needData → r.bytes ≠ []) := by
  rw [deframe] at h
  split at h
  case h_1 => cases h
  case h_2 record inner' hn =>
    cases h
    have ⟨hr, hne⟩ := TlsDeframer.nextRecord_remaining hn
    exact ⟨hr, fun _ => hne record rfl⟩
  case h_3 inner' hn =>
    cases h
    exact ⟨(TlsDeframer.nextRecord_remaining hn).1, fun h => absurd rfl h⟩

theorem nextRecord_remaining (h : d.nextRecord = (.ok r, d')) :
    r.bytes ++ d'.remainingData = d.remainingData ∧ (r ≠ .needData → r.bytes ≠ []) := by
  cases d
  case deframing inner => exact deframe_remaining h
  case searching buffer =>
    simp only [nextRecord, search] at h
    split at h
    case isTrue =>
      cases h
      exact ⟨rfl, fun h => absurd rfl h⟩
    case isFalse hb =>
      have hne : buffer ≠ [] := fun he => hb (List.isEmpty_iff.mpr he)
      split at h
      case h_1 => exact deframe_remaining h
      case h_2 offset _ =>
        cases h
        exact ⟨List.take_append_drop _ _, fun _ he => (List.take_eq_nil_iff.mp he).elim (Nat.succ_ne_zero _) hne⟩
      case h_3 =>
        split at h
        case isTrue hl =>
          cases h
          refine ⟨List.take_append_drop _ _, fun _ he => ?_⟩
          exact (List.take_eq_nil_iff.mp he).elim (Nat.sub_ne_zero_of_lt hl) hne
        case isFalse =>
          cases h
          exact ⟨rfl, fun h => absurd rfl h⟩

-- Whatever is found takes bytes out.
theorem pendingBytes_lt (h : d.nextRecord = (.ok r, d')) (hr : r ≠ .needData) : d'.pendingBytes < d.pendingBytes := by
  have ⟨hrem, hne⟩ := nextRecord_remaining h
  have := List.length_pos_iff.mpr (hne hr)
  rw [pendingBytes, pendingBytes, ← hrem, List.length_append]
  omega

end FuzzyTlsDeframer
end JammVpn.Vision
