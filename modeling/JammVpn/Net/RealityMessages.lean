import JammVpn.Lib.Cursor
import JammVpn.Lib.Utf8
import JammVpn.Net.RealityRecords

-- The messages of the handshake, what both sides read out of them, and the keys.
namespace JammVpn.Reality

open Bytes

-- What the cryptographic libraries and the parser of certificates provide. A certificate has a public key
-- and a signature.
structure Crypto where
  aead          : CipherSuite → Aead
  digest        : CipherSuite → List UInt8 → List UInt8
  hmac          : CipherSuite → (key msg : List UInt8) → List UInt8
  hmacSha512    : (key msg : List UInt8) → List UInt8
  hkdfSha256    : (salt ikm info : List UInt8) → List UInt8
  aes256Gcm     : Aead
  publicKey     : (secret : List UInt8) → List UInt8
  agree         : (secret peer : List UInt8) → Option (List UInt8)
  signEd25519   : (secret msg : List UInt8) → List UInt8
  verifyEd25519 : (key msg signature : List UInt8) → Bool
  certificate   : List UInt8 → Except String (List UInt8 × List UInt8)
  length_digest : ∀ s m, (digest s m).length = s.hashLen
  length_hmac   : ∀ s k m, (hmac s k m).length = s.hashLen

def handshakeTypeServerHello : UInt8 := 2
def handshakeTypeEncryptedExtensions : UInt8 := 8
def handshakeTypeCertificate : UInt8 := 11
def handshakeTypeCertificateVerify : UInt8 := 15
def handshakeTypeFinished : UInt8 := 20

def version : List UInt8 := [0x03, 0x03]

-- A message with its header.
def message (kind : UInt8) (payload : List UInt8) : List UInt8 :=
  kind :: (toBe 3 payload.length ++ payload)

def writeRecordHeader (recordType : UInt8) (length : Nat) : List UInt8 :=
  recordType :: (version ++ toBe 2 length)

def extension (kind : Nat) (data : List UInt8) : List UInt8 :=
  toBe 2 kind ++ toBe 2 data.length ++ data

def constructServerHello (serverRandom sessionId : List UInt8) (cipherSuite : Nat) (keyShareData : List UInt8) :
    List UInt8 :=
  let extensions := extension 43 [0x03, 0x04] ++
    extension 51 (toBe 2 0x001d ++ toBe 2 keyShareData.length ++ keyShareData)
  message handshakeTypeServerHello <|
    version ++ serverRandom ++ field sessionId ++ toBe 2 cipherSuite ++ [0x00] ++ toBe 2 extensions.length ++ extensions

def constructEncryptedExtensions : List UInt8 :=
  message handshakeTypeEncryptedExtensions (toBe 2 0)

def constructCertificate (certDer : List UInt8) : List UInt8 :=
  let certList := toBe 3 certDer.length ++ certDer ++ [0x00, 0x00]
  message handshakeTypeCertificate ([0x00] ++ toBe 3 certList.length ++ certList)

def signedContent (handshakeHash : List UInt8) : List UInt8 :=
  List.replicate 64 0x20 ++ Utf8.encode "TLS 1.3, server CertificateVerify".toList ++ [0x00] ++ handshakeHash

def constructCertificateVerify (C : Crypto) (signingKey handshakeHash : List UInt8) : List UInt8 :=
  let signature := C.signEd25519 signingKey (signedContent handshakeHash)
  message handshakeTypeCertificateVerify ([0x08, 0x07] ++ toBe 2 signature.length ++ signature)

def constructFinished (verifyData : List UInt8) : List UInt8 :=
  message handshakeTypeFinished verifyData

def defaultAlpnProtocols : List String :=
  ["h2", "http/1.1"]

def constructClientHello (clientRandom sessionId clientPublicKey : List UInt8) (serverName : String)
    (cipherSuites : List Nat) (alpnProtocols : List String) : List UInt8 :=
  let name := Utf8.encode serverName.toList
  let protocols := alpnProtocols.flatMap fun p => field (Utf8.encode p.toList)
  let extensions :=
    extension 0 (toBe 2 (name.length + 3) ++ [0x00] ++ toBe 2 name.length ++ name) ++
    extension 43 [0x02, 0x03, 0x04] ++
    extension 10 [0x00, 0x02, 0x00, 0x1d] ++
    extension 51 (toBe 2 (4 + clientPublicKey.length) ++ toBe 2 0x001d ++ toBe 2 clientPublicKey.length ++
      clientPublicKey) ++
    extension 13 [0x00, 0x10, 0x04, 0x03, 0x08, 0x04, 0x04, 0x01, 0x05, 0x03, 0x08, 0x05, 0x05, 0x01, 0x08, 0x06,
      0x06, 0x01] ++
    if alpnProtocols.isEmpty then [] else extension 16 (toBe 2 protocols.length ++ protocols)
  message 0x01 <|
    version ++ clientRandom ++ [32] ++ sessionId ++ toBe 2 (cipherSuites.length * 2) ++ cipherSuites.flatMap (toBe 2) ++
      [0x01, 0x00] ++ toBe 2 extensions.length ++ extensions

section Reading

-- The errors of the readers below.
def invalidData (msg : String) : Error :=
  ⟨.invalidData, msg⟩

abbrev BufReader := Cursor UInt8 Error

namespace BufReader

def pastEnd : Error :=
  ⟨.unexpectedEof, "Read past end of buffer"⟩

def readU8 : BufReader Nat := do
  return ofBe (← Cursor.take pastEnd 1)

def readU16Be : BufReader Nat := do
  return ofBe (← Cursor.take pastEnd 2)

def readU24Be : BufReader Nat := do
  return ofBe (← Cursor.take pastEnd 3)

def readSlice (len : Nat) : BufReader (List UInt8) :=
  Cursor.take pastEnd len

def skip (amount : Nat) : BufReader Unit := do
  let _ ← Cursor.take pastEnd amount
  return ()

-- Up to the random bytes of a hello, and past its session id.
def skipToSuites : BufReader Unit := do
  let _ ← readU8
  let _ ← readU24Be
  let _ ← readU16Be
  skip 32
  skip (← readU8)

-- The data of the first key share among extensions of this length.
def findKeyShare (left : Nat) : BufReader (Option (List UInt8)) :=
  if left = 0 then return none
  else do
    let extType ← readU16Be
    let extLen ← readU16Be
    if extType = 51 then return some (← readSlice extLen)
    else
      skip extLen
      findKeyShare (left - (4 + extLen))
termination_by left
decreasing_by omega

-- The key of a share for X25519.
def readKey (keyLen : Nat) : BufReader (List UInt8) :=
  if keyLen ≠ 32 then Cursor.throw (invalidData s!"Invalid X25519 key length: {keyLen}")
  else readSlice 32

def serverKeyShare : BufReader (List UInt8) := do
  let group ← readU16Be
  let keyLen ← readU16Be
  if group = 29 then readKey keyLen
  else Cursor.throw (invalidData "X25519 key share not found in ServerHello KeyShare extension")

def run {α : Type} (m : BufReader α) (buf : List UInt8) : Except Error α :=
  (m buf).1

end BufReader

open BufReader

def parseServerKeyshareExtension (data : List UInt8) : Except Error (List UInt8) :=
  serverKeyShare.run data

def extractServerPublicKey (serverHello : List UInt8) : Except Error (List UInt8) := do
  if serverHello.length < tlsRecordHeaderSize then throw (invalidData "ServerHello too short")
  let share ← BufReader.run (do
    skipToSuites
    skip 2
    skip 1
    findKeyShare (← readU16Be)) (serverHello.drop tlsRecordHeaderSize)
  match share with
  | some data => parseServerKeyshareExtension data
  | none      => throw (invalidData "KeyShare extension not found in ServerHello")

def extractServerCipherSuite (serverHello : List UInt8) : Except Error Nat := do
  if serverHello.length < tlsRecordHeaderSize then throw (invalidData "ServerHello too short")
  BufReader.run (do skipToSuites; readU16Be) (serverHello.drop tlsRecordHeaderSize)

def extractCertificateDer (msg : List UInt8) : Except Error (List UInt8) :=
  if msg.length < 4 then .error (invalidData "Certificate message too short")
  else if msg.length ≤ 4 then .error (invalidData "Certificate message truncated at context length")
  else
    let listPos := 4 + 1 + ofBe ((msg.drop 4).take 1)
    let certPos := listPos + 3
    let certLen := ofBe ((msg.drop certPos).take 3)
    if msg.length < certPos then .error (invalidData "Certificate message truncated at list length")
    else if msg.length < certPos + 3 then .error (invalidData "Certificate message truncated at cert length")
    else if msg.length < certPos + 3 + certLen then .error (invalidData "Certificate message truncated at cert data")
    else .ok ((msg.drop (certPos + 3)).take certLen)

def extractCertificateVerifySignature (msg : List UInt8) : Except Error (List UInt8) :=
  let kind := msg.headD 0
  let sigAlg := (msg.drop 4).take 2
  let sigLen := ofBe ((msg.drop 6).take 2)
  if msg.length < 72 then .error (invalidData s!"CertificateVerify message too short: {msg.length} bytes")
  else if kind ≠ 0x0f then
    .error (invalidData s!"Expected CertificateVerify type (0x0f), got 0x{Vision.hex kind}")
  else if sigAlg ≠ [0x08, 0x07] then
    .error (invalidData
      s!"Unsupported signature algorithm: 0x{String.join (sigAlg.map Vision.hex)}, expected Ed25519 (0x0807)")
  else if sigLen ≠ 64 then .error (invalidData s!"Invalid Ed25519 signature length: {sigLen}, expected 64")
  else if msg.length < 8 + sigLen then .error (invalidData "CertificateVerify message truncated")
  else .ok ((msg.drop 8).take sigLen)

end Reading

section Verification

variable (C : Crypto)

def parseCertificate (certDer : List UInt8) : Except Error (List UInt8 × List UInt8) :=
  match C.certificate certDer with
  | .ok cert => .ok cert
  | .error e => .error (invalidData s!"Failed to parse X.509 certificate: {e}")

def checkKeyLength (pubkey : List UInt8) : Except Error Unit :=
  if pubkey.length ≠ 32 then
    .error (invalidData s!"Expected Ed25519 public key (32 bytes), got {pubkey.length} bytes")
  else .ok ()

def verifyCertificateHmac (certDer authKey : List UInt8) : Except Error Unit := do
  let (pubkey, signature) ← parseCertificate C certDer
  checkKeyLength pubkey
  if signature.length ≠ 64 then
    throw (invalidData
      s!"Expected 64-byte signature for HMAC-SHA512 verification, got {signature.length} bytes")
  if C.hmacSha512 authKey pubkey ≠ signature then
    throw ⟨.permissionDenied, "Certificate HMAC verification failed - not a REALITY-signed certificate"⟩

def extractEd25519PublicKey (certDer : List UInt8) : Except Error (List UInt8) := do
  let (pubkey, _) ← parseCertificate C certDer
  checkKeyLength pubkey
  return pubkey

def verifyCertificateVerifySignature (publicKey signature transcriptHash : List UInt8) : Except Error Unit := do
  if signature.length ≠ 64 then
    throw (invalidData s!"Invalid signature length: {signature.length}, expected 64")
  if ¬C.verifyEd25519 publicKey (signedContent transcriptHash) signature then
    throw ⟨.permissionDenied, "CertificateVerify signature verification failed"⟩

end Verification

section Keys

variable (C : Crypto)

-- The blocks of `hkdf_expand` from this number on, each made from the one before.
def hkdfBlocks (suite : CipherSuite) (prk info : List UInt8) : (count i : Nat) → (prev : List UInt8) → List UInt8
  | 0, _, _            => []
  | count + 1, i, prev =>
    let tag := C.hmac suite prk (prev ++ info ++ [.ofNat i])
    tag ++ hkdfBlocks suite prk info count (i + 1) tag

def hkdfExpand (suite : CipherSuite) (prk info : List UInt8) (length : Nat) : Except Error (List UInt8) :=
  let n := divCeil length suite.hashLen
  if 255 < n then .error (invalidData "HKDF output too long")
  else .ok ((hkdfBlocks C suite prk info n 1 []).take length)

def hkdfExpandLabel (suite : CipherSuite) (secret : List UInt8) (label : String) (context : List UInt8) (length : Nat) :
    Except Error (List UInt8) :=
  hkdfExpand C suite secret
    (toBe 2 length ++ field (Utf8.encode ("tls13 " ++ label).toList) ++ field context) length

def deriveSecret (suite : CipherSuite) (secret : List UInt8) (label : String) (messagesHash : List UInt8) :
    Except Error (List UInt8) :=
  hkdfExpandLabel C suite secret label messagesHash suite.hashLen

def hkdfExtract (suite : CipherSuite) (salt ikm : List UInt8) : List UInt8 :=
  C.hmac suite salt ikm

-- A key and a vector.
def deriveTrafficKeys (trafficSecret : List UInt8) (suite : CipherSuite) : Except Error (List UInt8 × List UInt8) := do
  let key ← hkdfExpandLabel C suite trafficSecret "key" [] suite.keyLen
  let iv ← hkdfExpandLabel C suite trafficSecret "iv" [] suite.nonceLen
  return (key, iv)

structure HandshakeKeys where
  clientHandshakeTrafficSecret : List UInt8
  serverHandshakeTrafficSecret : List UInt8
  masterSecret                 : List UInt8

def deriveHandshakeKeys (suite : CipherSuite) (sharedSecret serverHelloHash : List UInt8) :
    Except Error HandshakeKeys := do
  if sharedSecret.length ≠ 32 then
    throw ⟨.invalidInput, s!"Invalid shared_secret length: {sharedSecret.length} (expected 32)"⟩
  if serverHelloHash.length ≠ suite.hashLen then
    throw ⟨.invalidInput, s!"Hash length mismatch: {serverHelloHash.length} (expected {suite.hashLen})"⟩
  let zeroSalt := List.replicate suite.hashLen 0
  let earlySecret := hkdfExtract C suite zeroSalt zeroSalt
  let derivedSecret ← deriveSecret C suite earlySecret "derived" (C.digest suite [])
  let handshakeSecret := hkdfExtract C suite derivedSecret sharedSecret
  let client ← deriveSecret C suite handshakeSecret "c hs traffic" serverHelloHash
  let server ← deriveSecret C suite handshakeSecret "s hs traffic" serverHelloHash
  let derivedSecret₂ ← deriveSecret C suite handshakeSecret "derived" (C.digest suite [])
  return {
    clientHandshakeTrafficSecret := client
    serverHandshakeTrafficSecret := server
    masterSecret := hkdfExtract C suite derivedSecret₂ zeroSalt
  }

-- For the client and for the server.
def deriveApplicationSecrets (suite : CipherSuite) (masterSecret handshakeHash : List UInt8) :
    Except Error (List UInt8 × List UInt8) := do
  if masterSecret.length ≠ suite.hashLen ∨ handshakeHash.length ≠ suite.hashLen then
    throw ⟨.invalidInput, s!"Master secret and handshake hash must be {suite.hashLen} bytes"⟩
  let client ← deriveSecret C suite masterSecret "c ap traffic" handshakeHash
  let server ← deriveSecret C suite masterSecret "s ap traffic" handshakeHash
  return (client, server)

def computeFinishedVerifyData (suite : CipherSuite) (baseKey handshakeHash : List UInt8) : Except Error (List UInt8) := do
  let finishedKey ← hkdfExpandLabel C suite baseKey "finished" [] suite.hashLen
  return C.hmac suite finishedKey handshakeHash

def performEcdh (privateKey publicKey : List UInt8) : Except Error (List UInt8) :=
  match C.agree privateKey publicKey with
  | some secret => .ok secret
  | none        => .error (invalidData "ECDH key exchange failed")

def deriveAuthKey (sharedSecret salt info : List UInt8) : List UInt8 :=
  C.hkdfSha256 salt sharedSecret info

def encryptSessionId (plaintext authKey nonce aad : List UInt8) : Except Error (List UInt8) :=
  let sealed := C.aes256Gcm.encrypt authKey nonce aad plaintext
  if sealed.length ≠ 32 then .error (invalidData "Encryption failed") else .ok sealed

end Keys
end JammVpn.Reality
