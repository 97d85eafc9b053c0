import Mathlib.Data.List.DropRight
import JammVpn.Lib.Aead
import JammVpn.Lib.Bytes
import JammVpn.Net.TlsDeframer

-- The record layer of TLS 1.3 under REALITY.
namespace JammVpn.Reality

open Bytes

def contentTypeChangeCipherSpec : UInt8 := 0x14
def contentTypeAlert : UInt8 := 0x15
def contentTypeHandshake : UInt8 := 0x16
def contentTypeApplicationData : UInt8 := 0x17

def alertLevelWarning : UInt8 := 0x01
def alertDescCloseNotify : UInt8 := 0x00

def maxTlsCiphertextLen : Nat := 16384 + 256
def maxTlsPlaintextLen : Nat := 16384
def tlsRecordHeaderSize : Nat := 5
def tlsMaxRecordSize : Nat := maxTlsCiphertextLen + tlsRecordHeaderSize
def ciphertextReadBufCapacity : Nat := tlsMaxRecordSize * 2
def plaintextReadBufCapacity : Nat := tlsMaxRecordSize * 2

inductive ErrorKind
  | invalidData
  | invalidInput
  | permissionDenied
  | connectionAborted
  | unexpectedEof
  | wouldBlock
  | other
  deriving DecidableEq

structure Error where
  kind : ErrorKind
  msg  : String
  deriving DecidableEq

-- A call that does not succeed panics or reports an error.
inductive Failure
  | panic
  | io (e : Error)
  deriving DecidableEq

inductive CipherSuite
  | aes128GcmSha256
  | aes256GcmSha384
  | chacha20Poly1305Sha256
  deriving DecidableEq

namespace CipherSuite

def default : List CipherSuite :=
  [aes128GcmSha256, aes256GcmSha384, chacha20Poly1305Sha256]

def fromId : Nat → Option CipherSuite
  | 0x1301 => some aes128GcmSha256
  | 0x1302 => some aes256GcmSha384
  | 0x1303 => some chacha20Poly1305Sha256
  | _      => none

def id : CipherSuite → Nat
  | aes128GcmSha256        => 0x1301
  | aes256GcmSha384        => 0x1302
  | chacha20Poly1305Sha256 => 0x1303

def name : CipherSuite → String
  | aes128GcmSha256        => "TLS_AES_128_GCM_SHA256"
  | aes256GcmSha384        => "TLS_AES_256_GCM_SHA384"
  | chacha20Poly1305Sha256 => "TLS_CHACHA20_POLY1305_SHA256"

def keyLen : CipherSuite → Nat
  | aes128GcmSha256        => 16
  | aes256GcmSha384        => 32
  | chacha20Poly1305Sha256 => 32

def nonceLen (_ : CipherSuite) : Nat :=
  12

def hashLen : CipherSuite → Nat
  | aes128GcmSha256        => 32
  | aes256GcmSha384        => 48
  | chacha20Poly1305Sha256 => 32

end CipherSuite

structure AeadKey where
  suite  : CipherSuite
  key    : List UInt8
  length : key.length = suite.keyLen

def AeadKey.new (suite : CipherSuite) (key : List UInt8) : Except Error AeadKey :=
  if h : key.length = suite.keyLen then .ok ⟨suite, key, h⟩
  else .error ⟨.invalidInput,
    s!"Invalid key length for {suite.name}: {key.length} (expected {suite.keyLen})"⟩

-- The last eight bytes are combined with the number of the record.
def makeNonce (iv : List UInt8) (seq : Nat) : Except Error (List UInt8) :=
  if iv.length ≠ 12 then .error ⟨.invalidInput, s!"Invalid IV length: {iv.length} (expected 12)"⟩
  else .ok (iv.take 4 ++ List.zipWith (· ^^^ ·) (iv.drop 4) (toBe 8 seq))

def makeRecordHeader (ciphertextLen : Nat) : List UInt8 :=
  [contentTypeApplicationData, 0x03, 0x03] ++ toBe 2 ciphertextLen

-- The type of a record is the last byte that is not zero.
def stripContentType (plaintext : List UInt8) : Except Error (UInt8 × List UInt8) :=
  let valid := plaintext.rdropWhile (· == 0)
  match valid.getLast? with
  | none             => .error ⟨.invalidData, "Plaintext is all zeros"⟩
  | some contentType =>
    if contentType ≠ contentTypeHandshake ∧ contentType ≠ contentTypeApplicationData ∧ contentType ≠ contentTypeAlert then
      .error ⟨.invalidData, s!"Invalid content type: 0x{Vision.hex contentType}"⟩
    else .ok (contentType, valid.dropLast)

def stripContentTypeWithPadding (plaintext : List UInt8) : Except Error (UInt8 × List UInt8) :=
  if plaintext.isEmpty then .error ⟨.invalidData, "Empty plaintext"⟩
  else stripContentType plaintext

section

variable (aead : CipherSuite → Aead)

namespace AeadKey

def sealInPlace (k : AeadKey) (buf iv : List UInt8) (seq : Nat) (aad : List UInt8) : Except Error (List UInt8) := do
  let nonce ← makeNonce iv seq
  return (aead k.suite).encrypt k.key nonce aad buf

def open_ (k : AeadKey) (buf iv : List UInt8) (seq : Nat) (aad : List UInt8) : Except Error (List UInt8) := do
  let nonce ← makeNonce iv seq
  match (aead k.suite).decrypt k.key nonce aad buf with
  | some plaintext => return plaintext
  | none           => throw ⟨.invalidData, "Decryption failed: Unspecified"⟩

end AeadKey

def decryptHandshakeMessage (suite : CipherSuite) (key iv : List UInt8) (seq : Nat) (ciphertext : List UInt8)
    (recordLen : Nat) : Except Error (List UInt8) := do
  let k ← AeadKey.new suite key
  let plaintext ← k.open_ aead ciphertext iv seq (makeRecordHeader recordLen)
  let (_, content) ← stripContentTypeWithPadding plaintext
  return content

-- One direction of a connection: the key and the number of the next record.
structure RecordCipher where
  key : AeadKey
  iv  : List UInt8
  seq : Nat

namespace RecordCipher

-- `checked_add`.
def advance (c : RecordCipher) : Except Error RecordCipher :=
  if c.seq + 1 < 2 ^ 64 then .ok { c with seq := c.seq + 1 }
  else .error ⟨.other, "TLS sequence number exhausted"⟩

-- What a call of the encryptor leaves: its result, the number, the buffer it worked in and the output.
abbrev Sealed := Except Failure Unit × RecordCipher × List UInt8 × List UInt8

-- The buffer is encrypted in place. The number goes up before anything is written.
def sealRecord (c : RecordCipher) (inner out : List UInt8) : Sealed :=
  let ciphertextLen := inner.length + 16
  if maxTlsCiphertextLen < ciphertextLen then (.error .panic, c, inner, out)
  else
    let header := makeRecordHeader ciphertextLen
    match c.key.sealInPlace aead inner c.iv c.seq header with
    | .error e => (.error (.io e), c, inner, out)
    | .ok buf  =>
      match c.advance with
      | .error e => (.error (.io e), c, buf, out)
      | .ok c    => (.ok (), c, buf, out ++ header ++ buf)

def encryptRecordInPlace (c : RecordCipher) (buf out : List UInt8) (contentType : UInt8) : Sealed :=
  c.sealRecord aead (buf ++ [contentType]) out

def encryptRecordWithPadding (c : RecordCipher) (buf out : List UInt8) (contentType : UInt8) (targetRecordSize : Nat) :
    Sealed :=
  let inner := buf ++ [contentType]
  let targetInnerLen := targetRecordSize - (tlsRecordHeaderSize + 16)
  let padding :=
    if inner.length < targetInnerLen ∧ targetInnerLen ≤ maxTlsPlaintextLen + 1 then targetInnerLen - inner.length
    else 0
  c.sealRecord aead (inner ++ List.replicate padding 0) out

-- One record for each piece, up to the first that fails.
def encryptPieces (c : RecordCipher) (contentType : UInt8) :
    (pieces : List (List UInt8)) → (out : List UInt8) → Except Failure Unit × RecordCipher × List UInt8
  | [], out              => (.ok (), c, out)
  | piece :: pieces, out =>
    match c.encryptRecordInPlace aead piece out contentType with
    | (.ok (), c, _, out)   => c.encryptPieces contentType pieces out
    | (.error f, c, _, out) => (.error f, c, out)

-- The buffer is cleared when all of it has been encrypted.
def encryptAppData (c : RecordCipher) (plaintext out : List UInt8) : Sealed :=
  if plaintext.isEmpty then (.ok (), c, plaintext, out)
  else if plaintext.length ≤ maxTlsPlaintextLen then
    match c.encryptRecordInPlace aead plaintext out contentTypeApplicationData with
    | (.ok (), c, _, out)     => (.ok (), c, [], out)
    | (.error f, c, buf, out) => (.error f, c, buf, out)
  else
    match c.encryptPieces aead contentTypeApplicationData (chunks maxTlsPlaintextLen plaintext) out with
    | (.ok (), c, out)   => (.ok (), c, [], out)
    | (.error f, c, out) => (.error f, c, plaintext, out)

def encryptHandshake (c : RecordCipher) (data out : List UInt8) : Except Failure Unit × RecordCipher × List UInt8 :=
  if data.isEmpty then (.ok (), c, out)
  else if data.length ≤ maxTlsPlaintextLen then
    let (r, c, _, out) := c.encryptRecordInPlace aead data out contentTypeHandshake
    (r, c, out)
  else c.encryptPieces aead contentTypeHandshake (chunks maxTlsPlaintextLen data) out

-- Only the last record is padded.
def encryptHandshakeWithPadding (c : RecordCipher) (data out : List UInt8) (targetRecordSize : Nat) :
    Except Failure Unit × RecordCipher × List UInt8 :=
  if data.isEmpty then (.ok (), c, out)
  else
    let pieces := if maxTlsPlaintextLen < data.length then chunks maxTlsPlaintextLen data else [data]
    match c.encryptPieces aead contentTypeHandshake pieces.dropLast out with
    | (.error f, c, out) => (.error f, c, out)
    | (.ok (), c, out)   =>
      let last := pieces.getLastD []
      let (r, c, _, out) :=
        if 0 < targetRecordSize then c.encryptRecordWithPadding aead last out contentTypeHandshake targetRecordSize
        else c.encryptRecordInPlace aead last out contentTypeHandshake
      (r, c, out)

def encryptCloseNotify (c : RecordCipher) (out : List UInt8) : Except Failure Unit × RecordCipher × List UInt8 :=
  let (r, c, _, out) := c.encryptRecordInPlace aead [alertLevelWarning, alertDescCloseNotify] out contentTypeAlert
  (r, c, out)

-- The result, the number, and the buffer: it is decrypted in place, and the tag stays behind the plaintext.
def decryptRecordInPlace (c : RecordCipher) (ciphertext : List UInt8) (recordLen : Nat) :
    Except Error (UInt8 × List UInt8) × RecordCipher × List UInt8 :=
  match c.key.open_ aead ciphertext c.iv c.seq (makeRecordHeader recordLen) with
  | .error e      => (.error e, c, ciphertext)
  | .ok plaintext =>
    let buf := plaintext ++ ciphertext.drop plaintext.length
    match c.advance with
    | .error e => (.error e, c, buf)
    | .ok c    => (stripContentType plaintext, c, buf)

end RecordCipher
end
end JammVpn.Reality
