import JammVpn.Net.RealityMessages
import JammVpn.Net.SlideBuffer

-- The client's side of a connection: it is given what comes from the network and gives what goes there.
namespace JammVpn.Reality

open Bytes

structure RealityClientConfig where
  publicKey    : List UInt8
  shortId      : List UInt8
  serverName   : String
  cipherSuites : List CipherSuite

-- What the client makes up for a connection, and the time in seconds.
structure Entropy where
  privateKey   : List UInt8
  clientRandom : List UInt8
  timestamp    : Nat

structure AwaitingServerHello where
  clientHelloBytes : List UInt8
  clientPrivateKey : List UInt8
  authKey          : List UInt8

structure ProcessingHandshake where
  clientHandshakeTrafficSecret : List UInt8
  serverHandshakeTrafficSecret : List UInt8
  masterSecret                 : List UInt8
  cipherSuite                  : CipherSuite
  handshakeTranscriptBytes     : List UInt8
  authKey                      : List UInt8
  handshakeSeq                 : Nat
  accumulatedPlaintext         : List UInt8
  messagesFound                : Nat
  certificateVerified          : Bool
  ed25519PublicKey             : Option (List UInt8)
  certVerifyOffset             : Option Nat

-- Once the handshake is complete there are keys for both directions.
structure Complete where
  read        : RecordCipher
  write       : RecordCipher
  cipherSuite : CipherSuite

inductive HandshakeState
  | awaitingServerHello (a : AwaitingServerHello)
  | processingHandshake (p : ProcessingHandshake)
  | complete (c : Complete)

structure RealityClientConnection where
  handshakeState      : HandshakeState
  ciphertextReadBuf   : SlideBuffer
  ciphertextWriteBuf  : List UInt8
  plaintextReadBuf    : SlideBuffer
  plaintextWriteBuf   : List UInt8
  receivedCloseNotify : Bool
  fatalError          : Option ErrorKind

-- A call has a result and leaves a connection, unless it panics.
abbrev Result (α : Type) := Except Error α × RealityClientConnection

variable (C : Crypto)

-- The errors that a result reports, as in `?`.
def ofExcept (r : Except Error α) (conn : RealityClientConnection) (f : α → Option (Result β)) :
    Option (Result β) :=
  match r with
  | .ok a    => f a
  | .error e => some (.error e, conn)

-- The session id says who the client is. It is encrypted with the rest of the message as associated data.
def sessionIdPlaintext (cfg : RealityClientConfig) (timestamp : Nat) : List UInt8 :=
  [1, 8, 0, 0] ++ toBe 4 timestamp ++ cfg.shortId

-- The message and the key it is authenticated with.
def generateClientHello (cfg : RealityClientConfig) (e : Entropy) : Except Error (List UInt8 × List UInt8) := do
  let sharedSecret ← performEcdh C e.privateKey cfg.publicKey
  let authKey := deriveAuthKey C sharedSecret (e.clientRandom.take 20) (Utf8.encode "REALITY".toList)
  let plaintext := sessionIdPlaintext cfg e.timestamp
  let suites := if cfg.cipherSuites.isEmpty then CipherSuite.default else cfg.cipherSuites
  let hello := constructClientHello e.clientRandom (plaintext ++ List.replicate 16 0) (C.publicKey e.privateKey)
    cfg.serverName (suites.map CipherSuite.id) defaultAlpnProtocols
  let hello := SlideBuffer.overwrite hello 39 (List.replicate 32 0)
  let sessionId ← encryptSessionId C plaintext authKey ((e.clientRandom.drop 20).take 12) hello
  return (SlideBuffer.overwrite hello 39 sessionId, authKey)

-- The memory of the two buffers is not initialized.
structure Memory where
  ciphertext : List UInt8
  plaintext  : List UInt8
  length_ciphertext : ciphertext.length = ciphertextReadBufCapacity
  length_plaintext  : plaintext.length = plaintextReadBufCapacity

namespace RealityClientConnection

def new (m : Memory) (cfg : RealityClientConfig) (e : Entropy) : Except Error RealityClientConnection := do
  let (hello, authKey) ← generateClientHello C cfg e
  return {
    handshakeState := .awaitingServerHello {
      clientHelloBytes := hello
      clientPrivateKey := e.privateKey
      authKey
    }
    ciphertextReadBuf := .new m.ciphertext
    ciphertextWriteBuf := writeRecordHeader contentTypeHandshake hello.length ++ hello
    plaintextReadBuf := .new m.plaintext
    plaintextWriteBuf := []
    receivedCloseNotify := false
    fatalError := none
  }

-- Takes at most one record of the greatest length from a reader that has these bytes. Tells how many.
def readTls (conn : RealityClientConnection) (rd : List UInt8) : Option (Nat × RealityClientConnection) := do
  let buf :=
    if conn.ciphertextReadBuf.remainingCapacity < tlsMaxRecordSize then conn.ciphertextReadBuf.compact
    else conn.ciphertextReadBuf
  let bs := rd.take tlsMaxRecordSize
  if bs.isEmpty then return (0, { conn with ciphertextReadBuf := buf })
  else return (bs.length, { conn with ciphertextReadBuf := ← buf.extendFromSlice bs })

-- The next record as far as it has come: its whole length, when all of it is there.
def wholeRecord (conn : RealityClientConnection) : Option Nat :=
  let buf := conn.ciphertextReadBuf
  if buf.len < tlsRecordHeaderSize then none
  else
    match buf.getU16Be 3 with
    | none           => none
    | some recordLen =>
      if buf.len < tlsRecordHeaderSize + recordLen then none else some (tlsRecordHeaderSize + recordLen)

-- What the hello of the server makes of the state.
def acceptServerHello (a : AwaitingServerHello) (record : List UInt8) : Except Error ProcessingHandshake := do
  let serverHello := record.drop tlsRecordHeaderSize
  let serverPublicKey ← extractServerPublicKey record
  let cipherSuiteId ← extractServerCipherSuite record
  let suite ← match CipherSuite.fromId cipherSuiteId with
    | some suite => pure suite
    | none       => throw (invalidData
      s!"Server selected unsupported cipher suite: 0x{String.join ((toBe 2 cipherSuiteId).map Vision.hex)}")
  let sharedSecret ← match C.agree a.clientPrivateKey serverPublicKey with
    | some secret => pure secret
    | none        => throw ⟨.other, "ECDH failed"⟩
  let keys ← deriveHandshakeKeys C suite sharedSecret (C.digest suite (a.clientHelloBytes ++ serverHello))
  return {
    clientHandshakeTrafficSecret := keys.clientHandshakeTrafficSecret
    serverHandshakeTrafficSecret := keys.serverHandshakeTrafficSecret
    masterSecret := keys.masterSecret
    cipherSuite := suite
    handshakeTranscriptBytes := a.clientHelloBytes ++ serverHello
    authKey := a.authKey
    handshakeSeq := 0
    accumulatedPlaintext := []
    messagesFound := 0
    certificateVerified := false
    ed25519PublicKey := none
    certVerifyOffset := none
  }

-- Whether a whole record has been processed.
def processServerHello (conn : RealityClientConnection) (a : AwaitingServerHello) : Option (Result Bool) :=
  match conn.wholeRecord with
  | none   => some (.ok false, conn)
  | some n =>
    let record := conn.ciphertextReadBuf.asSlice.take n
    let conn := { conn with ciphertextReadBuf := conn.ciphertextReadBuf.consume n }
    ofExcept (acceptServerHello C a record) conn fun p =>
      some (.ok true, { conn with handshakeState := .processingHandshake p })

-- One message of the server, which begins at this offset.
def acceptMessage (p : ProcessingHandshake) (offset len : Nat) : Except Error ProcessingHandshake := do
  let msg := (p.accumulatedPlaintext.drop offset).take len
  let kind := msg.headD 0
  let p ←
    if kind = handshakeTypeCertificate then do
      let certDer ← extractCertificateDer msg
      verifyCertificateHmac C certDer p.authKey
      let key ← extractEd25519PublicKey C certDer
      pure { p with ed25519PublicKey := some key, certificateVerified := true }
    else pure p
  let p := if kind = handshakeTypeCertificateVerify then { p with certVerifyOffset := some offset } else p
  return { p with messagesFound := p.messagesFound + 1 }

-- The messages from this offset on, as many as are missing. The next record is looked at from its beginning, also
-- when it goes on with a message.
def acceptMessages (p : ProcessingHandshake) (offset : Nat) : (missing : Nat) → Except Error ProcessingHandshake
  | 0           => .ok p
  | missing + 1 =>
    let acc := p.accumulatedPlaintext
    let len := 4 + ofBe ((acc.drop (offset + 1)).take 3)
    if offset + 4 ≤ acc.length ∧ offset + len ≤ acc.length then do
      let p ← acceptMessage C p offset len
      acceptMessages p (offset + len) missing
    else .ok p

-- A record under the keys of the handshake.
def acceptRecord (p : ProcessingHandshake) (ciphertext : List UInt8) : Except Error ProcessingHandshake := do
  let (key, iv) ← deriveTrafficKeys C p.serverHandshakeTrafficSecret p.cipherSuite
  let plaintext ← decryptHandshakeMessage C.aead p.cipherSuite key iv p.handshakeSeq ciphertext ciphertext.length
  let offset := p.accumulatedPlaintext.length
  let p := {
    p with
    handshakeSeq := p.handshakeSeq + 1
    accumulatedPlaintext := p.accumulatedPlaintext ++ plaintext
  }
  acceptMessages C p offset (4 - p.messagesFound)

def handshakeFailed (msg : String) : Error :=
  ⟨.permissionDenied, s!"REALITY handshake failed: {msg}"⟩

-- The server has to have proved that it has the key of its certificate.
def checkCertificateVerify (p : ProcessingHandshake) : Except Error Unit := do
  if ¬p.certificateVerified then
    throw (handshakeFailed "Certificate message not received or not verified")
  match p.ed25519PublicKey, p.certVerifyOffset with
  | some publicKey, some offset =>
    let acc := p.accumulatedPlaintext
    let msg := (acc.drop offset).take (4 + ofBe ((acc.drop (offset + 1)).take 3))
    let signature ← extractCertificateVerifySignature msg
    verifyCertificateVerifySignature C publicKey signature
      (C.digest p.cipherSuite (p.handshakeTranscriptBytes ++ acc.take offset))
  | _, _ => throw (handshakeFailed "CertificateVerify not verified")

def newCipher (suite : CipherSuite) (trafficSecret : List UInt8) : Except Error RecordCipher := do
  let (key, iv) ← deriveTrafficKeys C trafficSecret suite
  return { key := ← AeadKey.new suite key, iv, seq := 0 }

-- What the last message of the client is sent under, with its hash of the handshake.
def clientFinished (p : ProcessingHandshake) : Except Error (RecordCipher × List UInt8 × List UInt8) := do
  let handshakeHash := C.digest p.cipherSuite (p.handshakeTranscriptBytes ++ p.accumulatedPlaintext)
  let verifyData ← computeFinishedVerifyData C p.cipherSuite p.clientHandshakeTrafficSecret handshakeHash
  return (← newCipher C p.cipherSuite p.clientHandshakeTrafficSecret, constructFinished verifyData, handshakeHash)

def applicationKeys (p : ProcessingHandshake) (handshakeHash : List UInt8) : Except Error Complete := do
  let (client, server) ← deriveApplicationSecrets C p.cipherSuite p.masterSecret handshakeHash
  return {
    write := ← newCipher C p.cipherSuite client
    read := ← newCipher C p.cipherSuite server
    cipherSuite := p.cipherSuite
  }

-- All four messages have come. What is written before an error stays written.
def finish (conn : RealityClientConnection) (p : ProcessingHandshake) : Option (Result Bool) :=
  ofExcept (do checkCertificateVerify C p; clientFinished C p) conn fun (cipher, finished, handshakeHash) =>
    match cipher.encryptHandshake C.aead finished conn.ciphertextWriteBuf with
    | (.error .panic, _, _)    => none
    | (.error (.io e), _, out) => some (.error e, { conn with ciphertextWriteBuf := out })
    | (.ok (), _, out)         =>
      let conn := { conn with ciphertextWriteBuf := out }
      ofExcept (applicationKeys C p handshakeHash) conn fun c =>
        some (.ok true, { conn with handshakeState := .complete c })

-- Whether a whole record has been processed. Changes of the cipher are skipped.
def processEncryptedHandshake (conn : RealityClientConnection) (p : ProcessingHandshake) :
    (turns : Nat) → Option (Result Bool)
  | 0         => some (.ok false, conn)
  | turns + 1 =>
    match conn.wholeRecord with
    | none   => some (.ok false, conn)
    | some n =>
      let record := conn.ciphertextReadBuf.asSlice.take n
      let recordType := record.headD 0
      if recordType = contentTypeChangeCipherSpec then
        let conn := { conn with ciphertextReadBuf := conn.ciphertextReadBuf.consume n }
        processEncryptedHandshake conn p turns
      else if recordType ≠ contentTypeApplicationData then
        some (.error (invalidData s!"Expected Application Data record, got 0x{Vision.hex recordType}"), conn)
      else
        let conn := { conn with ciphertextReadBuf := conn.ciphertextReadBuf.consume n }
        ofExcept (acceptRecord C p (record.drop tlsRecordHeaderSize)) conn fun p =>
          if p.messagesFound < 4 then some (.ok true, { conn with handshakeState := .processingHandshake p })
          else finish C conn p

-- The records of application data, one after the other. A notification that the server closes stays in the buffer,
-- decrypted.
def processApplicationData (conn : RealityClientConnection) (c : Complete) : (turns : Nat) → Option (Result Unit)
  | 0         => some (.ok (), conn)
  | turns + 1 =>
    match conn.wholeRecord with
    | none   => some (.ok (), conn)
    | some n => do
      let ciphertext := (conn.ciphertextReadBuf.asSlice.take n).drop tlsRecordHeaderSize
      let (r, read, decrypted) := c.read.decryptRecordInPlace C.aead ciphertext ciphertext.length
      let c := { c with read }
      let conn := {
        conn with
        handshakeState := .complete c
        ciphertextReadBuf := ← conn.ciphertextReadBuf.sliceMut tlsRecordHeaderSize decrypted
      }
      match r with
      | .error e => some (.error e, conn)
      | .ok (contentType, plaintext) =>
        if contentType = contentTypeApplicationData then
          let conn := {
            conn with
            plaintextReadBuf := ← (conn.plaintextReadBuf.maybeCompact 4096).extendFromSlice plaintext
            ciphertextReadBuf := conn.ciphertextReadBuf.consume n
          }
          processApplicationData conn c turns
        else if contentType = contentTypeAlert then
          match plaintext with
          | alertLevel :: alertDesc :: _ =>
            if alertDesc = alertDescCloseNotify then some (.ok (), { conn with receivedCloseNotify := true })
            else if alertLevel ≠ alertLevelWarning then
              some (.error ⟨.connectionAborted, s!"received fatal alert: {alertDesc.toNat}"⟩, conn)
            else
              let conn := { conn with ciphertextReadBuf := conn.ciphertextReadBuf.consume n }
              processApplicationData conn c turns
          | _ =>
            let conn := { conn with ciphertextReadBuf := conn.ciphertextReadBuf.consume n }
            processApplicationData conn c turns
        -- `unreachable!`: a message of a handshake after its end.
        else none

-- Goes on until more data is needed. Tells how many bytes there are to read.
def processNewPacketsInner (conn : RealityClientConnection) : (turns : Nat) → Option (Result Nat)
  | 0         => some (.ok conn.plaintextReadBuf.len, conn)
  | turns + 1 =>
    let again : Option (Result Bool) → Option (Result Nat)
      | none                   => none
      | some (.error e, conn)  => some (.error e, conn)
      | some (.ok false, conn) => some (.ok conn.plaintextReadBuf.len, conn)
      | some (.ok true, conn)  => processNewPacketsInner conn turns
    match conn.handshakeState with
    | .awaitingServerHello a => again (processServerHello C conn a)
    | .processingHandshake p => again (processEncryptedHandshake C conn p conn.ciphertextReadBuf.len)
    | .complete c            =>
      match processApplicationData C conn c conn.ciphertextReadBuf.len with
      | none                  => none
      | some (.error e, conn) => some (.error e, conn)
      | some (.ok (), conn)   => some (.ok conn.plaintextReadBuf.len, conn)

-- The errors after which a connection cannot be used any more.
def isFatal (kind : ErrorKind) : Bool :=
  kind = .invalidData ∨ kind = .permissionDenied ∨ kind = .connectionAborted

-- Each turn but the last takes a record.
def processNewPackets (conn : RealityClientConnection) : Option (Result Nat) :=
  match conn.fatalError with
  | some kind => some (.error ⟨kind, "connection previously failed"⟩, conn)
  | none      =>
    if conn.receivedCloseNotify then some (.ok conn.plaintextReadBuf.len, conn)
    else
      match processNewPacketsInner C conn (conn.ciphertextReadBuf.len + 1) with
      | some (.error e, conn) =>
        some (.error e, if isFatal e.kind then { conn with fatalError := some e.kind } else conn)
      | r => r

-- `reader`, and what it reads into a buffer of this length.
def read (conn : RealityClientConnection) (cap : Nat) : List UInt8 × RealityClientConnection :=
  let buf := conn.plaintextReadBuf.maybeCompact 4096
  let bs := buf.asSlice.take cap
  if bs.isEmpty then ([], { conn with plaintextReadBuf := buf })
  else (bs, { conn with plaintextReadBuf := buf.consume bs.length })

def reader (conn : RealityClientConnection) : RealityClientConnection :=
  { conn with plaintextReadBuf := conn.plaintextReadBuf.maybeCompact 4096 }

-- `fill_buf` and `consume` of the reader.
def fillBuf (conn : RealityClientConnection) : Except ErrorKind (List UInt8) :=
  if ¬conn.plaintextReadBuf.isEmpty then .ok conn.plaintextReadBuf.asSlice
  else if conn.receivedCloseNotify then .ok []
  else .error .wouldBlock

def consume (conn : RealityClientConnection) (amt : Nat) : RealityClientConnection :=
  { conn with plaintextReadBuf := conn.plaintextReadBuf.consume (min amt conn.plaintextReadBuf.len) }

-- `writer`, and what is written to it.
def write (conn : RealityClientConnection) (buf : List UInt8) : RealityClientConnection :=
  { conn with plaintextWriteBuf := conn.plaintextWriteBuf ++ buf }

def isHandshaking (conn : RealityClientConnection) : Bool :=
  match conn.handshakeState with
  | .complete _ => false
  | _           => true

def wantsWrite (conn : RealityClientConnection) : Bool :=
  !conn.ciphertextWriteBuf.isEmpty || !conn.plaintextWriteBuf.isEmpty

-- What is encrypted before anything is written.
def encryptPending (conn : RealityClientConnection) : Option (Result Unit) :=
  match conn.handshakeState with
  | .complete c =>
    match c.write.encryptAppData C.aead conn.plaintextWriteBuf conn.ciphertextWriteBuf with
    | (.error .panic, _, _, _)            => none
    | (.error (.io e), write, plain, out) => some (.error e, { conn with
        handshakeState := .complete { c with write }, plaintextWriteBuf := plain, ciphertextWriteBuf := out })
    | (.ok (), write, plain, out)         => some (.ok (), { conn with
        handshakeState := .complete { c with write }, plaintextWriteBuf := plain, ciphertextWriteBuf := out })
  | _ => some (.ok (), conn)

-- Into a writer that takes so many of the bytes that it is given.
def writeTls (conn : RealityClientConnection) (writer : List UInt8 → Nat) : Option (Result (List UInt8)) :=
  match encryptPending C conn with
  | none                  => none
  | some (.error e, conn) => some (.error e, conn)
  | some (.ok (), conn)   =>
    let n := writer conn.ciphertextWriteBuf
    some (.ok (conn.ciphertextWriteBuf.take n), { conn with ciphertextWriteBuf := conn.ciphertextWriteBuf.drop n })

-- What cannot be encrypted is not queued.
def sendCloseNotify (conn : RealityClientConnection) : Option RealityClientConnection :=
  match conn.handshakeState with
  | .complete c =>
    match c.write.encryptCloseNotify C.aead conn.ciphertextWriteBuf with
    | (.error .panic, _, _) => none
    | (_, write, out)       =>
      some { conn with handshakeState := .complete { c with write }, ciphertextWriteBuf := out }
  | _ => some conn

-- `feed_reality_client_connection`.
def feed (conn : RealityClientConnection) (data : List UInt8) : Option RealityClientConnection :=
  if _h : data = [] then some conn
  else do
    let (n, conn) ← conn.readTls data
    feed conn (data.drop (max n 1))
termination_by data.length
decreasing_by
  have := List.length_pos_iff.mpr _h
  rw [List.length_drop]
  omega

end RealityClientConnection
end JammVpn.Reality
