import JammVpn.Lib.PollRead
import JammVpn.Net.Ss2022Udp

-- The reader of a response: a salt, a header that is checked, a first payload, and chunks as in the older
-- format.
namespace JammVpn.Ss2022Stream

open Bytes PollIo Shadowsocks
open Ss2022Udp.Session (absDiff)

def maxChunk : Nat := 0xffff
def tag : Nat := 16
def typeResponse : UInt8 := 1

-- The cipher is there as soon as the salt is.
inductive ReadStage
  | serverSalt
  | respHeader (recv : Crypto)
  | firstPayload (recv : Crypto) (len : Nat)
  | len (recv : Crypto)
  | data (recv : Crypto) (len : Nat) (pos : 0 < len)

-- The clock is read once, when the header has come.
variable (p : Primitives) (method : Method) (psk clientSalt : List UInt8) (now : Nat)

def headerLen : Nat :=
  1 + 8 + method.saltLen + 2

-- Returns the length of the first payload.
def checkHeader (pt : List UInt8) : Except String Nat :=
  if pt.length ≠ headerLen method then .error "ss2022: размер заголовка"
  else if pt.head? ≠ some typeResponse then .error "ss2022: не ответ (type)"
  else if 30 < absDiff now (ofBe ((pt.drop 1).take 8)) then .error "ss2022: timestamp вне окна"
  else if (pt.drop 9).take method.saltLen ≠ clientSalt then
    .error "ss2022: соль запроса в ответе не совпала"
  else .ok (ofBe ((pt.drop (9 + method.saltLen)).take 2))

def ReadStage.need : ReadStage → Nat
  | serverSalt       => method.saltLen
  | respHeader _     => headerLen method + tag
  | firstPayload _ n => n + tag
  | len _            => 2 + tag
  | data _ n _       => n + tag

-- An end after the header or after the length of a chunk is an error.
def ReadStage.clean : ReadStage → Bool
  | firstPayload .. | data .. => false
  | _                         => true

def ReadStage.next (stage : ReadStage) (frame : List UInt8) :
    Except IoError (Option (List UInt8)) × ReadStage :=
  match stage with
  | serverSalt =>
    match Crypto.new method (sessionSubkey2022 p method psk frame) with
    | .error e => (.error (.other e), stage)
    | .ok recv => (.ok none, .respHeader recv)
  | respHeader recv =>
    match recv.openBytes p frame with
    | .error e       => (.error (.other e), stage)
    | .ok (pt, recv) =>
      match checkHeader method clientSalt now pt with
      | .error e => (.error (.other e), .respHeader recv)
      | .ok n    => (.ok none, .firstPayload recv n)
  | firstPayload recv _ =>
    match recv.openBytes p frame with
    | .error e       => (.error (.other e), stage)
    -- An empty one is not handed on, where it would be taken for the end of the stream.
    | .ok (pt, recv) => (.ok (if pt.isEmpty then none else some pt), .len recv)
  | len recv =>
    match recv.openBytes p frame with
    | .error e       => (.error (.other e), stage)
    | .ok (pt, recv) =>
      let len := ofBe (pt.take 2)
      if h : 0 < len ∧ len ≤ maxChunk then (.ok none, .data recv len h.1)
      else (.error (.other "ss2022: неверная длина чанка"), .len recv)
  | data recv .. =>
    match recv.openBytes p frame with
    | .error e       => (.error (.other e), stage)
    | .ok (pt, recv) => (.ok (some pt), .len recv)

def framing : Framing ReadStage where
  need := ReadStage.need method
  next := ReadStage.next p method psk clientSalt now
  clean := ReadStage.clean
  need_pos stage := by
    cases stage
    case serverSalt => cases method <;> decide
    all_goals exact Nat.succ_pos _
  next_ne := by
    intro stage frame pt stage' hl hn
    cases stage
    case serverSalt =>
      simp only [ReadStage.next] at hn
      split at hn <;> cases hn
    case respHeader recv =>
      simp only [ReadStage.next] at hn
      split at hn
      case h_1 => cases hn
      case h_2 => split at hn <;> cases hn
    case firstPayload recv len =>
      simp only [ReadStage.next] at hn
      split at hn
      case h_1 => cases hn
      case h_2 pt' recv' ho =>
        split at hn
        case isTrue => cases hn
        case isFalse he =>
          cases hn
          exact fun h => he (List.isEmpty_iff.mpr h)
    case len recv =>
      simp only [ReadStage.next] at hn
      split at hn
      case h_1 => cases hn
      case h_2 => split at hn <;> cases hn
    case data recv len pos =>
      simp only [ReadStage.next] at hn
      split at hn
      case h_1 => cases hn
      case h_2 pt' recv' ho =>
        cases hn
        have hlen := Crypto.length_of_openBytes ho
        rw [hl, ReadStage.need, tag] at hlen
        exact List.ne_nil_of_length_pos (by omega)

def pollRead : Reader ReadStage Unit → Source → Nat → Poll (List UInt8) × Reader ReadStage Unit × Source :=
  (framing p method psk clientSalt now).pollRead .id

-- The plaintexts of a stream, sealed one after another.
def sealAll (p : Primitives) : Crypto → List (List UInt8) → List UInt8
  | _, []        => []
  | c, pt :: pts => (c.sealBytes p pt).1 ++ sealAll p (c.sealBytes p pt).2 pts

-- A chunk goes after its length.
def chunkFrames (chunks : List (List UInt8)) : List (List UInt8) :=
  chunks.flatMap fun chunk => [toBe 2 chunk.length, chunk]

-- A response to the request with this salt, as it is to be at this time.
structure ServerResponse (method : Method) (clientSalt : List UInt8) (now : Nat) where
  salt              : List UInt8
  timestamp         : Nat
  requestSalt       : List UInt8
  first             : List UInt8
  chunks            : List (List UInt8)
  length_salt       : salt.length = method.saltLen
  timestamp_lt      : timestamp < 2 ^ 64
  fresh             : absDiff now timestamp ≤ 30
  requestSalt_eq    : requestSalt = clientSalt
  length_reqSalt    : requestSalt.length = method.saltLen
  length_first      : first.length ≤ maxChunk
  length_chunks     : ∀ chunk ∈ chunks, 0 < chunk.length ∧ chunk.length ≤ maxChunk

namespace ServerResponse

variable {method : Method} {clientSalt : List UInt8} {now : Nat} (r : ServerResponse method clientSalt now)

def header : List UInt8 :=
  typeResponse :: (toBe 8 r.timestamp ++ r.requestSalt ++ toBe 2 r.first.length)

def wire : List UInt8 :=
  r.salt ++ sealAll p (sessionCrypto p method psk r.salt) (r.header :: r.first :: chunkFrames r.chunks)

def payload : List UInt8 :=
  r.first ++ r.chunks.flatten

end ServerResponse
end JammVpn.Ss2022Stream
