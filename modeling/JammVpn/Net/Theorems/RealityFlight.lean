import JammVpn.Net.Theorems.RealityEstablished
import JammVpn.Net.Theorems.RealityHandshake

-- A server that answers as it should gets through to the client, and what it sends then.
namespace JammVpn.Reality

open Bytes Framed Machine
open RealityClientConnection (acceptServerHello acceptMessage acceptMessages acceptRecord checkCertificateVerify
  clientFinished newCipher applicationKeys)

-- The answer of a server to the hello of a client: it has the key of the client, which it proves by its certificate.
-- What it says in its last message is not looked at.
structure Answer (C : Crypto) (a : AwaitingServerHello) where
  random     : List UInt8
  sessionId  : List UInt8
  publicKey  : List UInt8
  suite      : CipherSuite
  shared     : List UInt8
  keys       : HandshakeKeys
  certDer    : List UInt8
  certKey    : List UInt8
  signingKey : List UInt8
  verifyData : List UInt8
  length_random     : random.length = 32
  length_sessionId  : sessionId.length < 256
  length_publicKey  : publicKey.length = 32
  length_shared     : shared.length = 32
  length_certDer    : certDer.length < 16777000
  length_certKey    : certKey.length = 32
  length_hmac       : (C.hmacSha512 a.authKey certKey).length = 64
  length_verifyData : verifyData.length < 16777216
  agree             : C.agree a.clientPrivateKey publicKey = some shared
  derived : deriveHandshakeKeys C suite shared
    (C.digest suite (a.clientHelloBytes ++ constructServerHello random sessionId suite.id publicKey)) = .ok keys
  certified : C.certificate certDer = .ok (certKey, C.hmacSha512 a.authKey certKey)
  signed : ∀ hash, (C.signEd25519 signingKey (signedContent hash)).length = 64 ∧
    C.verifyEd25519 certKey (signedContent hash) (C.signEd25519 signingKey (signedContent hash)) = true

namespace Answer

variable {C : Crypto} {a : AwaitingServerHello}

def hello (A : Answer C a) : List UInt8 :=
  constructServerHello A.random A.sessionId A.suite.id A.publicKey

def transcript (A : Answer C a) : List UInt8 :=
  a.clientHelloBytes ++ A.hello

-- The messages in front of the signature.
def head (A : Answer C a) : List (List UInt8) :=
  [constructEncryptedExtensions, constructCertificate A.certDer]

def messages (A : Answer C a) : List (List UInt8) :=
  A.head ++ [constructCertificateVerify C A.signingKey (C.digest A.suite (A.transcript ++ A.head.flatten)),
    constructFinished A.verifyData]

def helloRecord (A : Answer C a) : List UInt8 :=
  writeRecordHeader contentTypeHandshake A.hello.length ++ A.hello

-- What the client knows after so many records and messages, when these bytes of the flight have come.
def known (A : Answer C a) (seq found : Nat) (flight : List UInt8) : ProcessingHandshake where
  clientHandshakeTrafficSecret := A.keys.clientHandshakeTrafficSecret
  serverHandshakeTrafficSecret := A.keys.serverHandshakeTrafficSecret
  masterSecret := A.keys.masterSecret
  cipherSuite := A.suite
  handshakeTranscriptBytes := A.transcript
  authKey := a.authKey
  handshakeSeq := seq
  accumulatedPlaintext := flight
  messagesFound := found
  certificateVerified := decide (2 ≤ found)
  ed25519PublicKey := if 2 ≤ found then some A.certKey else none
  certVerifyOffset := if 3 ≤ found then some A.head.flatten.length else none

theorem acceptServerHello_hello (A : Answer C a) : acceptServerHello C a A.helloRecord = .ok (A.known 0 0 []) := by
  have hid : A.suite.id < 65536 := by cases A.suite <;> decide
  have hfrom : CipherSuite.fromId A.suite.id = some A.suite := by cases A.suite <;> rfl
  have hkey : extractServerPublicKey A.helloRecord = .ok A.publicKey :=
    extractServerPublicKey_constructServerHello A.length_random A.length_sessionId A.length_publicKey _ _ _
  have hsuite : extractServerCipherSuite A.helloRecord = .ok A.suite.id :=
    extractServerCipherSuite_constructServerHello A.length_random A.length_sessionId A.length_publicKey hid _ _
  have hdrop : A.helloRecord.drop tlsRecordHeaderSize = A.hello := drop_writeRecordHeader _ _ _
  have hder : deriveHandshakeKeys C A.suite A.shared (C.digest A.suite (a.clientHelloBytes ++ A.hello)) = .ok A.keys :=
    A.derived
  simp only [acceptServerHello, hdrop, hkey, hsuite, hfrom, A.agree, hder, bind, Except.bind, pure, Except.pure]
  rfl

-- A message is whole where its header says so.
theorem length_of_message {kind : UInt8} {payload : List UInt8} (h : payload.length < 16777216) (rest : List UInt8) :
    4 + ofBe (((message kind payload ++ rest).drop 1).take 3) = (message kind payload).length := by
  have hd : ((message kind payload ++ rest).drop 1).take 3 = toBe 3 payload.length := by
    rw [message, List.cons_append, List.drop_one, List.tail_cons, List.append_assoc]
    exact List.take_left' (length_toBe 3 _)
  rw [hd, ofBe_toBe_of_lt h, length_message]

-- The messages that the client takes are whole and begin with their kinds.
structure Whole (msg : List UInt8) : Prop where
  length : ∀ rest, 4 + ofBe (((msg ++ rest).drop 1).take 3) = msg.length
  four   : 4 ≤ msg.length

theorem whole_message {kind : UInt8} {payload : List UInt8} (h : payload.length < 16777216) :
    Whole (message kind payload) :=
  ⟨length_of_message h, by rw [length_message]; omega⟩

-- Each message is accepted where it begins.
def acceptEach (p : ProcessingHandshake) (offset : Nat) : List (List UInt8) → Except Error ProcessingHandshake
  | []          => .ok p
  | msg :: msgs => do acceptEach (← acceptMessage C p offset msg.length) (offset + msg.length) msgs

theorem acceptMessages_flatten {msgs : List (List UInt8)} (hw : ∀ msg ∈ msgs, Whole msg) {p : ProcessingHandshake}
    {before : List UInt8} (hacc : p.accumulatedPlaintext = before ++ msgs.flatten) {missing : Nat}
    (hm : msgs.length ≤ missing) :
    acceptMessages C p before.length missing = acceptEach (C := C) p before.length msgs := by
  induction msgs generalizing p before missing
  case nil =>
    cases missing
    case zero => rfl
    case succ missing =>
      rw [acceptMessages, hacc, if_neg]
      case hnc =>
        rw [List.flatten_nil, List.append_nil]
        omega
      rfl
  case cons msg msgs hi =>
    obtain ⟨hmsg, hmsgs⟩ := List.forall_mem_cons.mp hw
    cases missing
    case zero => cases hm
    case succ missing =>
      have hd : (p.accumulatedPlaintext.drop (before.length + 1)).take 3 =
          ((msg ++ msgs.flatten).drop 1).take 3 := by
        rw [hacc, List.drop_length_add_append, List.flatten_cons]
      have hlen : p.accumulatedPlaintext.length = before.length + (msg.length + msgs.flatten.length) := by
        rw [hacc, List.length_append, List.flatten_cons, List.length_append]
      have hfour := hmsg.four
      rw [acceptMessages, acceptEach, hd, hmsg.length, if_pos (by omega)]
      cases ha : acceptMessage C p before.length msg.length
      case error e => rfl
      case ok p' =>
        have hacc' : p'.accumulatedPlaintext = (before ++ msg) ++ msgs.flatten := by
          rw [(acceptMessage_spec ha).rest, List.append_assoc, ← List.flatten_cons, ← hacc]
        have := hi hmsgs hacc' (Nat.le_of_succ_le_succ hm)
        rwa [List.length_append] at this

theorem verify_certificate (A : Answer C a) : verifyCertificateHmac C A.certDer a.authKey = .ok () ∧
    extractEd25519PublicKey C A.certDer = .ok A.certKey := by
  have hparse : parseCertificate C A.certDer = .ok (A.certKey, C.hmacSha512 a.authKey A.certKey) := by
    rw [parseCertificate, A.certified]
  have hcheck : checkKeyLength A.certKey = .ok () := if_neg (not_not_intro A.length_certKey)
  constructor
  case left =>
    simp only [verifyCertificateHmac, hparse, hcheck, bind, Except.bind, A.length_hmac, ne_eq, not_true_eq_false, if_false,
      pure, Except.pure]
  case right => simp only [extractEd25519PublicKey, hparse, hcheck, bind, Except.bind, pure, Except.pure]

theorem acceptMessage_known (A : Answer C a) {k : Nat} {msg rest acc : List UInt8} (hk : A.messages[k]? = some msg)
    (hacc : acc = (A.messages.take k).flatten ++ (msg ++ rest)) (seq : Nat) :
    acceptMessage C (A.known seq k acc) (A.messages.take k).flatten.length msg.length = .ok (A.known seq (k + 1) acc) := by
  have hmsg : (acc.drop (A.messages.take k).flatten.length).take msg.length = msg := by
    rw [hacc, List.drop_left, List.take_left]
  have hslice : (((A.known seq k acc).accumulatedPlaintext.drop (A.messages.take k).flatten.length).take msg.length) = msg :=
    hmsg
  have hlt : k < 4 := (List.getElem?_eq_some_iff.mp hk).1
  simp only [acceptMessage, hslice]
  obtain rfl | rfl | rfl | rfl : k = 0 ∨ k = 1 ∨ k = 2 ∨ k = 3 := by omega
  case inl =>
    cases hk
    rfl
  case inr.inl =>
    cases hk
    have hlen := A.length_certDer
    have hder := @extractCertificateDer_constructCertificate A.certDer (by omega)
    have hkey : (A.known seq 1 acc).authKey = a.authKey := rfl
    obtain ⟨hmac, hpub⟩ := A.verify_certificate
    rw [if_pos (by rfl), hder, hkey]
    simp only [bind, Except.bind, hmac, hpub, pure, Except.pure]
    rfl
  case inr.inr.inl =>
    cases hk
    rfl
  case inr.inr.inr =>
    cases hk
    rfl

theorem length_messages (A : Answer C a) : A.messages.length = 4 :=
  rfl

theorem acceptEach_known (A : Answer C a) {k j : Nat} (hk : k + j ≤ 4) (seq : Nat) {acc : List UInt8}
    (hacc : acc = (A.messages.take (k + j)).flatten) :
    acceptEach (C := C) (A.known seq k acc) (A.messages.take k).flatten.length ((A.messages.drop k).take j) =
      .ok (A.known seq (k + j) acc) := by
  induction j generalizing k
  case zero => rfl
  case succ j hi =>
    have hlt : k < A.messages.length := by
      rw [length_messages]
      omega
    have hget : A.messages[k]? = some A.messages[k] := List.getElem?_eq_getElem hlt
    have hcons : (A.messages.drop k).take (j + 1) = A.messages[k] :: (A.messages.drop (k + 1)).take j := by
      rw [List.drop_eq_getElem_cons hlt, List.take_succ_cons]
    have hacc' : acc = (A.messages.take k).flatten ++ (A.messages[k] ++ ((A.messages.drop (k + 1)).take j).flatten) := by
      rw [hacc, List.take_add, hcons, List.flatten_append, List.flatten_cons]
    rw [hcons, acceptEach, A.acceptMessage_known hget hacc' seq]
    have hnext : (A.messages.take (k + 1)).flatten.length = (A.messages.take k).flatten.length + A.messages[k].length := by
      rw [List.take_succ_eq_append_getElem hlt, List.flatten_append, List.length_append, List.flatten_singleton]
    have hi := hi (k := k + 1) (by omega) (by rw [hacc, Nat.add_right_comm, Nat.add_assoc])
    rw [hnext, Nat.add_right_comm, Nat.add_assoc] at hi
    exact hi

theorem whole_of_mem (A : Answer C a) : ∀ msg ∈ A.messages, Whole msg := by
  have hlen := A.length_certDer
  have hfin := A.length_verifyData
  intro msg hm
  simp only [messages, head, List.cons_append, List.nil_append, List.mem_cons, List.not_mem_nil, or_false] at hm
  obtain rfl | rfl | rfl | rfl := hm
  · exact whole_message (by decide)
  · refine whole_message ?_
    simp only [List.length_append, length_toBe, List.length_cons, List.length_nil]
    omega
  · refine whole_message ?_
    simp only [List.length_append, length_toBe, List.length_cons, List.length_nil, (A.signed _).1]
    omega
  · exact whole_message hfin

-- The signature is found where it was put, and is one of what came before it.
theorem checkCertificateVerify_known (A : Answer C a) (seq : Nat) :
    checkCertificateVerify C (A.known seq 4 A.messages.flatten) = .ok () := by
  obtain ⟨hlen, hverify⟩ := A.signed (C.digest A.suite (A.transcript ++ A.head.flatten))
  have hflight : A.messages.flatten = A.head.flatten ++
      (constructCertificateVerify C A.signingKey (C.digest A.suite (A.transcript ++ A.head.flatten)) ++
        constructFinished A.verifyData) := by
    rw [messages, List.flatten_append, List.flatten_cons, List.flatten_singleton]
  have hwhole := A.whole_of_mem (constructCertificateVerify C A.signingKey
    (C.digest A.suite (A.transcript ++ A.head.flatten))) (List.mem_append_right _ (List.mem_cons_self ..))
  have hmsg : (A.messages.flatten.drop A.head.flatten.length).take
      (4 + ofBe ((A.messages.flatten.drop (A.head.flatten.length + 1)).take 3)) =
        constructCertificateVerify C A.signingKey (C.digest A.suite (A.transcript ++ A.head.flatten)) := by
    rw [hflight, List.drop_length_add_append, hwhole.length, List.drop_left, List.take_left]
  have hbefore : A.messages.flatten.take A.head.flatten.length = A.head.flatten := by rw [hflight, List.take_left]
  have hsig := @extractCertificateVerifySignature_constructCertificateVerify C A.signingKey _ hlen
  have hok : verifyCertificateVerifySignature C A.certKey
      (C.signEd25519 A.signingKey (signedContent (C.digest A.suite (A.transcript ++ A.head.flatten))))
      (C.digest A.suite (A.transcript ++ A.head.flatten)) = .ok () := by
    simp only [verifyCertificateVerifySignature, hlen, hverify, ne_eq, not_true_eq_false, if_false, pure, Except.pure]
  show (do
    let signature ← extractCertificateVerifySignature ((A.messages.flatten.drop A.head.flatten.length).take
      (4 + ofBe ((A.messages.flatten.drop (A.head.flatten.length + 1)).take 3)))
    verifyCertificateVerifySignature C A.certKey signature
      (C.digest A.suite (A.transcript ++ A.messages.flatten.take A.head.flatten.length))) = _
  rw [hmsg, hbefore, hsig]
  exact hok

theorem exists_applicationKeys (A : Answer C a) (hash : List UInt8) (h : hash.length = A.suite.hashLen) :
    ∃ c, applicationKeys C (A.known 0 0 []) hash = .ok c := by
  obtain ⟨keys, hk, hm⟩ := @deriveHandshakeKeys_ok C A.suite _ _ A.length_shared (C.length_digest A.suite _)
  cases A.derived.symm.trans hk
  obtain ⟨secrets, hs⟩ := deriveApplicationSecrets_ok (C := C) hm h
  obtain ⟨w, hw, _⟩ := newCipher_ok C A.suite secrets.1
  obtain ⟨r, hr, _⟩ := newCipher_ok C A.suite secrets.2
  refine ⟨⟨r, w, A.suite⟩, ?_⟩
  simp only [applicationKeys, known, hs, hw, hr, bind, Except.bind, pure, Except.pure]

theorem finish_known (A : Answer C a) (seq : Nat) : ∃ c finished,
    Session.finish C (A.known seq 4 A.messages.flatten) = .ok (c, finished) ∧
      applicationKeys C (A.known 0 0 []) (C.digest A.suite (A.transcript ++ A.messages.flatten)) = .ok c := by
  obtain ⟨c, hc⟩ := A.exists_applicationKeys (C.digest A.suite (A.transcript ++ A.messages.flatten)) (C.length_digest _ _)
  obtain ⟨cipher, data, hash, hfin, _⟩ := clientFinished_ok C (A.known seq 4 A.messages.flatten)
  have hhash : hash = C.digest A.suite (A.transcript ++ A.messages.flatten) := by
    obtain ⟨_, _, h⟩ := bind_eq_ok hfin
    obtain ⟨_, _, h⟩ := bind_eq_ok h
    cases h
    rfl
  have hk : applicationKeys C (A.known seq 4 A.messages.flatten) hash = .ok c := by
    rw [hhash, ← hc]
    exact applicationKeys_congr rfl rfl _
  refine ⟨c, (cipher.encryptHandshake C.aead data []).2.2, ?_, hc⟩
  simp only [Session.finish, A.checkCertificateVerify_known seq, hfin, hk, bind, Except.bind, pure, Except.pure]

-- The messages in groups of these lengths.
def cut (msgs : List (List UInt8)) : List Nat → List (List UInt8)
  | []      => []
  | j :: js => (msgs.take j).flatten :: cut (msgs.drop j) js

-- All of the messages are cut, when so many are done, and the last piece is not empty.
inductive Cuts : Nat → List Nat → Prop
  | last {k j} : 0 < j → k + j = 4 → Cuts k [j]
  | more {k j js} : k + j < 4 → Cuts (k + j) js → Cuts k (j :: js)

def session (A : Answer C a) (seq k : Nat) : Session where
  phase := .handshake (A.known seq k (A.messages.take k).flatten)
  plaintext := []
  status := .live

theorem newCipher_eq_ok {suite : CipherSuite} {secret : List UInt8} {c : RecordCipher}
    (h : newCipher C suite secret = .ok c) : deriveTrafficKeys C secret suite = .ok (c.key.key, c.iv) ∧
      AeadKey.new suite c.key.key = .ok c.key ∧ c.seq = 0 ∧ c.iv.length = 12 := by
  obtain ⟨c', hc', hiv, _⟩ := newCipher_ok C suite secret
  cases h.symm.trans hc'
  obtain ⟨⟨key, iv⟩, hk, h⟩ := bind_eq_ok h
  obtain ⟨k, hnew, h⟩ := bind_eq_ok h
  cases h
  have hkey : k.key = key := by
    rw [AeadKey.new] at hnew
    split at hnew
    case isTrue  => cases hnew; rfl
    case isFalse => cases hnew
  dsimp only
  rw [hkey]
  exact ⟨hk, hnew, rfl, hiv⟩

-- What the server seals under the keys of the handshake, the client opens.
theorem decryptHandshakeMessage_record {suite : CipherSuite} {secret : List UInt8} {c₀ : RecordCipher}
    (hc : newCipher C suite secret = .ok c₀) (seq : Nat) {inner content : List UInt8} {contentType : UInt8}
    (hh : RecordCipher.Holds inner (contentType, content)) :
    decryptHandshakeMessage C.aead suite c₀.key.key c₀.iv seq
      ((({ c₀ with seq } : RecordCipher).record C.aead inner).drop tlsRecordHeaderSize)
      ((({ c₀ with seq } : RecordCipher).record C.aead inner).drop tlsRecordHeaderSize).length = .ok content := by
  obtain ⟨_, hnew, _, hiv⟩ := newCipher_eq_ok hc
  have hopen := @RecordCipher.open_record C.aead { c₀ with seq } hiv inner
  have hlen : ((({ c₀ with seq } : RecordCipher).record C.aead inner).drop tlsRecordHeaderSize).length =
      inner.length + 16 := by
    rw [List.length_drop, RecordCipher.length_record]
    omega
  have hstrip : stripContentTypeWithPadding inner = .ok (contentType, content) := by
    obtain ⟨ht, padding, rfl⟩ := hh
    have hne : (content ++ [contentType] ++ List.replicate padding 0).isEmpty = false := by simp
    rw [stripContentTypeWithPadding, hne, if_neg Bool.false_ne_true]
    exact stripContentType_of_isContentType ht content padding
  dsimp only at hopen
  rw [decryptHandshakeMessage, hlen, hnew]
  simp only [bind, Except.bind, hopen, hstrip, pure, Except.pure]

theorem acceptRecord_known (A : Answer C a) {c₀ : RecordCipher}
    (hc : newCipher C A.suite A.keys.serverHandshakeTrafficSecret = .ok c₀) (seq : Nat) {k j : Nat} (hk : k + j ≤ 4)
    {inner : List UInt8}
    (hh : RecordCipher.Holds inner (contentTypeHandshake, ((A.messages.drop k).take j).flatten)) :
    acceptRecord C (A.known seq k (A.messages.take k).flatten)
      ((({ c₀ with seq } : RecordCipher).record C.aead inner).drop tlsRecordHeaderSize) =
        .ok (A.known (seq + 1) (k + j) (A.messages.take (k + j)).flatten) := by
  obtain ⟨hkeys, _⟩ := newCipher_eq_ok hc
  have hopen := decryptHandshakeMessage_record hc seq hh
  have hacc : (A.messages.take (k + j)).flatten =
      (A.messages.take k).flatten ++ ((A.messages.drop k).take j).flatten := by
    rw [List.take_add, List.flatten_append]
  have hmsgs : acceptMessages C (A.known (seq + 1) k (A.messages.take (k + j)).flatten)
      (A.messages.take k).flatten.length (4 - k) = .ok (A.known (seq + 1) (k + j) (A.messages.take (k + j)).flatten) := by
    have hw : ∀ msg ∈ (A.messages.drop k).take j, Whole msg := fun msg hm =>
      A.whole_of_mem msg (List.mem_of_mem_drop (List.mem_of_mem_take hm))
    have hlen : ((A.messages.drop k).take j).length ≤ 4 - k := by
      rw [List.length_take]
      omega
    rw [acceptMessages_flatten hw hacc hlen]
    exact A.acceptEach_known hk (seq + 1) rfl
  show (do
    let keys ← deriveTrafficKeys C A.keys.serverHandshakeTrafficSecret A.suite
    let plaintext ← decryptHandshakeMessage C.aead A.suite keys.1 keys.2 seq _ _
    acceptMessages C (A.known (seq + 1) k ((A.messages.take k).flatten ++ plaintext))
      (A.messages.take k).flatten.length (4 - k)) = _
  simp only [hkeys, hopen, bind, Except.bind, ← hacc]
  exact hmsgs

-- A record of the flight leads on, the last one to the keys for the data.
theorem step_session (A : Answer C a) {c₀ : RecordCipher}
    (hc : newCipher C A.suite A.keys.serverHandshakeTrafficSecret = .ok c₀) (seq : Nat) {k j : Nat} (hk : k + j < 4)
    {inner : List UInt8}
    (hh : RecordCipher.Holds inner (contentTypeHandshake, ((A.messages.drop k).take j).flatten)) :
    (A.session seq k).step C (({ c₀ with seq } : RecordCipher).record C.aead inner) = A.session (seq + 1) (k + j) := by
  have ha := A.acceptRecord_known hc seq (Nat.le_of_lt hk) hh
  have hfound : (A.known (seq + 1) (k + j) (A.messages.take (k + j)).flatten).messagesFound < 4 := hk
  rw [step_handshake (by rfl), Session.stepHandshake, if_neg (by intro hr; cases hr),
    if_neg (by exact not_not_intro rfl), ha]
  dsimp only
  rw [if_pos hfound]
  rfl

theorem step_last (A : Answer C a) {c₀ : RecordCipher}
    (hc : newCipher C A.suite A.keys.serverHandshakeTrafficSecret = .ok c₀) (seq : Nat) {k j : Nat} (hk : k + j = 4)
    {inner : List UInt8}
    (hh : RecordCipher.Holds inner (contentTypeHandshake, ((A.messages.drop k).take j).flatten)) :
    ∃ c finished, applicationKeys C (A.known 0 0 []) (C.digest A.suite (A.transcript ++ A.messages.flatten)) = .ok c ∧
      (A.session seq k).step C (({ c₀ with seq } : RecordCipher).record C.aead inner) =
        ⟨.established c finished c.read, [], .live⟩ := by
  have ha := A.acceptRecord_known hc seq (Nat.le_of_eq hk) hh
  have hall : (A.messages.take (k + j)).flatten = A.messages.flatten := by
    rw [hk, List.take_of_length_le (Nat.le_of_eq A.length_messages)]
  rw [hall, hk] at ha
  obtain ⟨c, finished, hf, hkeys⟩ := A.finish_known (seq + 1)
  have hfound : ¬(A.known (seq + 1) 4 A.messages.flatten).messagesFound < 4 := Nat.lt_irrefl 4
  refine ⟨c, finished, hkeys, ?_⟩
  rw [step_handshake (by rfl), Session.stepHandshake, if_neg (by intro hr; cases hr),
    if_neg (by exact not_not_intro rfl), ha]
  dsimp only
  rw [if_neg hfound, hf]
  rfl

-- All records of the flight.
theorem takes_flight (A : Answer C a) {c₀ c' : RecordCipher}
    (hc : newCipher C A.suite A.keys.serverHandshakeTrafficSecret = .ok c₀) {seq k : Nat} {js : List Nat}
    {inners : List (List UInt8)} {wire : List UInt8} (hcuts : Cuts k js)
    (hs : RecordCipher.Seals C.aead { c₀ with seq } inners wire c')
    (hh : List.Forall₂ RecordCipher.Holds inners ((cut (A.messages.drop k) js).map (contentTypeHandshake, ·))) :
    ∃ c finished recs, applicationKeys C (A.known 0 0 []) (C.digest A.suite (A.transcript ++ A.messages.flatten)) = .ok c ∧
      recs.flatten = wire ∧ (∀ record ∈ recs, record.length ≤ tlsMaxRecordSize) ∧
        Takes records (Session.consumer C) (A.session seq k) recs ⟨.established c finished c.read, [], .live⟩ := by
  induction hcuts generalizing seq inners wire
  case last k j hj hk =>
    cases hh
    case cons inner inners hp hps =>
      cases hps
      cases hs
      case cons wire hseq hl hs =>
        cases hs
        obtain ⟨c, finished, hkeys, hstep⟩ := A.step_last hc seq hk hp
        refine ⟨c, finished, [_], hkeys, rfl, List.forall_mem_singleton.mpr (RecordCipher.length_record_le hl _),
          .cons rfl (RecordCipher.isFrame_sealed hl _) ?_⟩
        rw [consumer_step, hstep]
        exact .nil _
  case more k j js hk _ hi =>
    cases hh
    case cons inner inners hp hps =>
      cases hs
      case cons wire hseq hl hs =>
        rw [List.drop_drop] at hps
        obtain ⟨c, finished, recs, hkeys, rfl, hlen, ht⟩ := hi hs hps
        refine ⟨c, finished, _ :: recs, hkeys, rfl, List.forall_mem_cons.mpr ⟨RecordCipher.length_record_le hl _, hlen⟩,
          .cons rfl (RecordCipher.isFrame_sealed hl _) ?_⟩
        rw [consumer_step, A.step_session hc seq hk hp]
        exact ht

theorem length_hello_le (A : Answer C a) : A.hello.length ≤ 400 := by
  have hsid := A.length_sessionId
  simp only [hello, constructServerHello, length_message, List.length_append, length_toBe, length_extension, field,
    A.length_random, A.length_publicKey, List.length_cons, List.length_nil, version]
  omega

theorem isFrame_helloRecord (A : Answer C a) : IsFrame records A.helloRecord :=
  @isFrame_record [contentTypeHandshake, 0x03, 0x03] A.hello rfl (Nat.lt_of_le_of_lt A.length_hello_le (by decide))

def begin_ (a : AwaitingServerHello) : Session where
  phase := .hello a
  plaintext := []
  status := .live

theorem takes_hello (A : Answer C a) : Takes records (Session.consumer C) (begin_ a) [A.helloRecord] (A.session 0 0) := by
  refine .cons rfl A.isFrame_helloRecord ?_
  rw [consumer_step, step_hello (by rfl), A.acceptServerHello_hello]
  exact .nil _

def changeCipherSpec : List UInt8 :=
  [contentTypeChangeCipherSpec, 0x03, 0x03, 0x00, 0x01, 0x01]

-- Changes of the cipher are skipped.
theorem takes_changeCipherSpec (A : Answer C a) (n seq k : Nat) : Takes records (Session.consumer C) (A.session seq k)
    (List.replicate n changeCipherSpec) (A.session seq k) := by
  induction n
  case zero => exact .nil _
  case succ n hi =>
    have hframe : IsFrame records changeCipherSpec :=
      @isFrame_record [contentTypeChangeCipherSpec, 0x03, 0x03] [0x01] rfl (by decide)
    refine .cons rfl hframe ?_
    rw [consumer_step, step_handshake (by rfl), Session.stepHandshake, if_pos (by rfl)]
    exact hi

end Answer

section Data

variable {C : Crypto} {c₀ : Complete} {finished : List UInt8} {s s' : Session}

theorem status_of_isLive (h : s.isLive = true) : s.status = .live := by
  rw [Session.isLive] at h
  split at h
  case h_1 hs => exact hs
  case h_2    => cases h

theorem plaintext_acceptData (s : Session) (contentType : UInt8) (content : List UInt8) :
    s.plaintext <+: (s.acceptData contentType content).plaintext := by
  rw [Session.acceptData]
  split
  case isTrue => exact List.prefix_append _ _
  case isFalse =>
    split
    case isFalse => exact List.prefix_rfl
    case isTrue =>
      rw [Session.acceptAlert.eq_def]
      split
      case h_2 => exact List.prefix_rfl
      case h_1 =>
        split
        case isTrue  => exact List.prefix_rfl
        case isFalse => split <;> exact List.prefix_rfl

-- What has been received stays.
theorem plaintext_step (s : Session) (record : List UInt8) : s.plaintext <+: (s.step C record).plaintext := by
  cases hp : s.phase
  case hello a =>
    rw [step_hello hp]
    split <;> exact List.prefix_rfl
  case handshake p =>
    rw [step_handshake hp, Session.stepHandshake]
    split
    case isTrue => exact List.prefix_rfl
    case isFalse =>
      split
      case isTrue => exact List.prefix_rfl
      case isFalse =>
        split
        case h_1 => exact List.prefix_rfl
        case h_2 =>
          split
          case isTrue => exact List.prefix_rfl
          case isFalse => split <;> exact List.prefix_rfl
  case established c₀ finished read =>
    rcases hd : read.decryptRecordInPlace C.aead (record.drop tlsRecordHeaderSize)
      (record.drop tlsRecordHeaderSize).length with ⟨r, read', buf⟩
    cases r
    case error e =>
      rw [step_refused hp hd]
      exact List.prefix_rfl
    case ok part =>
      rw [step_opened hp hd]
      exact plaintext_acceptData { s with phase := .established c₀ finished read' } _ _

theorem plaintext_takes {recs : List (List UInt8)} (h : Takes records (Session.consumer C) s recs s') :
    s.plaintext <+: s'.plaintext := by
  induction h
  case nil           => exact List.prefix_rfl
  case cons _ _ _ hi => exact (plaintext_step _ _).trans hi

-- Who goes on to live lives.
theorem status_of_takes {recs : List (List UInt8)} (h : Takes records (Session.consumer C) s recs s')
    (hs : s'.status = .live) : s.status = .live := by
  cases h
  case nil         => exact hs
  case cons _ hl _ => exact status_of_isLive hl

theorem exists_decrypt_record {read : RecordCipher} {inner content : List UInt8} {contentType : UInt8}
    (hiv : read.iv.length = 12) (hseq : read.seq + 1 < 2 ^ 64) (hh : RecordCipher.Holds inner (contentType, content)) :
    ∃ buf, read.decryptRecordInPlace C.aead ((read.record C.aead inner).drop tlsRecordHeaderSize)
      ((read.record C.aead inner).drop tlsRecordHeaderSize).length = (.ok (contentType, content), read.next, buf) := by
  have hlen : ((read.record C.aead inner).drop tlsRecordHeaderSize).length = inner.length + 16 := by
    rw [List.length_drop, RecordCipher.length_record]
    omega
  obtain ⟨hok, hnext⟩ := @RecordCipher.decrypt_record C.aead read hiv hseq inner
  obtain ⟨ht, padding, rfl⟩ := hh
  rw [stripContentType_of_isContentType ht] at hok
  rw [hlen]
  exact ⟨_, Prod.ext hok (Prod.ext hnext rfl)⟩

-- What the server seals for the application comes to it.
theorem takes_data {read read' : RecordCipher} {inners : List (List UInt8)} {wire : List UInt8}
    {parts : List (UInt8 × List UInt8)} (hs : RecordCipher.Seals C.aead read inners wire read')
    (hh : List.Forall₂ RecordCipher.Holds inners parts)
    (hdata : ∀ part ∈ parts, part.1 = contentTypeApplicationData) (hiv : read.iv.length = 12) (plaintext : List UInt8) :
    ∃ recs, recs.flatten = wire ∧ (∀ record ∈ recs, record.length ≤ tlsMaxRecordSize) ∧
      Takes records (Session.consumer C) ⟨.established c₀ finished read, plaintext, .live⟩ recs
        ⟨.established c₀ finished read', plaintext ++ appContent parts, .live⟩ := by
  induction hs generalizing parts plaintext
  case nil =>
    cases hh
    exact ⟨[], rfl, nofun, (List.append_nil plaintext).symm ▸ .nil _⟩
  case cons read inner inners wire read' hl hseq _ hi =>
    cases hh
    case cons part parts hp hps =>
      obtain ⟨hpart, hparts⟩ := List.forall_mem_cons.mp hdata
      obtain ⟨contentType, content⟩ := part
      cases hpart
      obtain ⟨recs, rfl, hlen, ht⟩ := hi hps hparts hiv (plaintext ++ content)
      obtain ⟨buf, hd⟩ := exists_decrypt_record (C := C) hiv hseq hp
      refine ⟨_ :: recs, rfl, List.forall_mem_cons.mpr ⟨RecordCipher.length_record_le hl _, hlen⟩,
        .cons rfl (RecordCipher.isFrame_sealed hl _) ?_⟩
      rw [consumer_step, step_opened (by rfl) hd, Session.acceptData, if_pos (by rfl)]
      rw [List.append_assoc] at ht
      exact ht

end Data
namespace Answer

variable {C : Crypto} {a : AwaitingServerHello}

-- What such a server sends if it puts whole messages into each record: its hello, changes of the cipher, its messages,
-- and records with the data of the application.
structure Stream (A : Answer C a) where
  changes : Nat
  groups  : List Nat
  cipher  : RecordCipher
  spent   : RecordCipher
  sealed  : List (List UInt8)
  flight  : List UInt8
  keys    : Complete
  read    : RecordCipher
  content : List (List UInt8)
  inners  : List (List UInt8)
  wire    : List UInt8
  cuts          : Cuts 0 groups
  cipher_ok     : newCipher C A.suite A.keys.serverHandshakeTrafficSecret = .ok cipher
  flight_sealed : RecordCipher.Seals C.aead cipher sealed flight spent
  flight_holds  : List.Forall₂ RecordCipher.Holds sealed ((cut A.messages groups).map (contentTypeHandshake, ·))
  keys_ok       : applicationKeys C (A.known 0 0 []) (C.digest A.suite (A.transcript ++ A.messages.flatten)) = .ok keys
  data_sealed   : RecordCipher.Seals C.aead keys.read inners wire read
  data_holds    : List.Forall₂ RecordCipher.Holds inners (content.map (contentTypeApplicationData, ·))

namespace Stream

variable {A : Answer C a}

def bytes (S : A.Stream) : List UInt8 :=
  A.helloRecord ++ (List.replicate S.changes changeCipherSpec).flatten ++ S.flight ++ S.wire

def data (S : A.Stream) : List UInt8 :=
  S.content.flatten

theorem takes (S : A.Stream) : ∃ finished recs, recs.flatten = S.bytes ∧
    (∀ record ∈ recs, record.length ≤ tlsMaxRecordSize) ∧
      Takes records (Session.consumer C) (begin_ a) recs ⟨.established S.keys finished S.read, S.data, .live⟩ := by
  have hseq : S.cipher = { S.cipher with seq := 0 } := by rw [← (newCipher_eq_ok S.cipher_ok).2.2.1]
  obtain ⟨c, finished, recs, hkeys, hflight, hlen, ht⟩ :=
    A.takes_flight S.cipher_ok S.cuts (hseq ▸ S.flight_sealed) S.flight_holds
  cases S.keys_ok.symm.trans hkeys
  obtain ⟨recs', hwire, hlen', ht'⟩ := @takes_data C S.keys finished _ _ _ _ _ S.data_sealed
    S.data_holds (by simp) (applicationKeys_ok S.keys_ok).2.1 []
  have hhello : A.helloRecord.length ≤ tlsMaxRecordSize := by
    have := A.length_hello_le
    rw [helloRecord, List.length_append, length_writeRecordHeader, tlsMaxRecordSize, maxTlsCiphertextLen,
      tlsRecordHeaderSize]
    omega
  have hchange : ∀ record ∈ List.replicate S.changes changeCipherSpec, record.length ≤ tlsMaxRecordSize := by
    intro record hm
    rw [(List.mem_replicate.mp hm).2]
    decide
  refine ⟨finished, [A.helloRecord] ++ List.replicate S.changes changeCipherSpec ++ recs ++ recs', ?_, ?_, ?_⟩
  case refine_1 =>
    rw [List.flatten_append, List.flatten_append, List.flatten_append, List.flatten_singleton, hflight, hwire, bytes]
  case refine_2 =>
    simp only [List.forall_mem_append, List.forall_mem_singleton]
    exact ⟨⟨⟨hhello, hchange⟩, hlen⟩, hlen'⟩
  case refine_3 =>
    rw [appContent_map] at ht'
    exact ((A.takes_hello.append (A.takes_changeCipherSpec _ 0 0)).append ht).append ht'

-- However much of it has come, less than a record of it is left.
theorem drain_of_taken (S : A.Stream) {received : List UInt8} (h : received <+: S.bytes) :
    ∃ s rest, (begin_ a).drain C received = (s, rest) ∧ s.status = .live ∧ rest.length < tlsMaxRecordSize ∧
      s.plaintext <+: S.data ∧
      (received = S.bytes → s.plaintext = S.data ∧ ∃ finished, s.phase = .established S.keys finished S.read) := by
  obtain ⟨finished, recs, hrecs, hlen, ht⟩ := S.takes
  obtain ⟨frames₁, frames₂, s, rest, rfl, _, h₂, hd, hcut⟩ := ht.of_prefix (hrecs ▸ h)
  have hd : (begin_ a).drain C received = (s, rest) := hd
  have hlive := status_of_takes h₂ rfl
  refine ⟨s, rest, hd, hlive, ?_, plaintext_takes h₂, fun hall => ?_⟩
  case refine_1 =>
    have hstop : ((begin_ a).drain C received).1.isLive = false ∨ records.size ((begin_ a).drain C received).2 = none :=
      drain_stops (F := records) (M := Session.consumer C) _ _
    have hnone : records.size rest = none := by
      rw [hd] at hstop
      refine hstop.resolve_left fun hdead => ?_
      cases hdead.symm.trans (isLive_of_live (C := C) hlive)
    have hrest : rest <+: frames₂.flatten := by
      rw [← hrecs, hcut, List.flatten_append] at h
      exact (List.prefix_append_right_inj _).mp h
    exact h₂.length_lt hrest hnone (by decide) fun record hm => hlen record (List.mem_append_right _ hm)
  case refine_2 =>
    have hd' := (ht.drain []).trans (drain_none (by rfl))
    rw [List.append_nil, hrecs, ← hall] at hd'
    cases (show (begin_ a).drain C received = _ from hd').symm.trans hd
    exact ⟨rfl, finished, rfl⟩

variable {hello : List UInt8} {r : Run} {s : Session}

-- What has come in is processed without an error, whatever else has been done with the connection.
theorem processed (S : A.Stream) (h : Run.Tracks C (begin_ a) hello r s) (hr : r.received <+: S.bytes)
    (hnil : r.conn.plaintextReadBuf.asSlice = []) :
    ∃ n conn, r.conn.processNewPackets C = some (.ok n, conn) ∧
      Run.Tracks C (begin_ a) hello { r with conn } ((begin_ a).drain C r.received).1 ∧
      conn.ciphertextReadBuf.len < tlsMaxRecordSize ∧ r.delivered ++ conn.plaintextReadBuf.asSlice <+: S.data ∧
      (r.received = S.bytes → conn.isHandshaking = false ∧ r.delivered ++ conn.plaintextReadBuf.asSlice = S.data) := by
  obtain ⟨s', rest, hd, hlive, hlen, hpre, hall⟩ := S.drain_of_taken hr
  have hagrees := h.agrees
  rw [hd] at hagrees
  match hp : r.conn.processNewPackets C with
  | none =>
    rw [hp] at hagrees
    obtain hpanic | hover := hagrees
    case inl => cases hlive.symm.trans hpanic
    case inr => exact absurd hover (h.not_overflows hnil)
  | some (.error e, _) =>
    rw [hp] at hagrees
    cases hlive.symm.trans hagrees.1
  | some (.ok n, conn) =>
    rw [hp] at hagrees
    obtain ⟨ht, hrest⟩ := h.processed hp
    have hopen : conn.receivedCloseNotify = false := by
      refine Bool.eq_false_iff.mpr fun hc => ?_
      cases hlive.symm.trans (hagrees.2.2.2.1.mp hc)
    refine ⟨n, conn, rfl, ht, ?_, hagrees.1 ▸ hpre, fun hr' => ⟨?_, hagrees.1.trans (hall hr').1⟩⟩
    case refine_1 =>
      rw [← conn.ciphertextReadBuf.length_asSlice, hrest hopen, hd]
      exact hlen
    case refine_2 =>
      obtain ⟨finished, hphase⟩ := (hall hr').2
      have hmatches := ht.phase
      rw [hd] at hmatches
      dsimp only at hmatches
      rw [hphase] at hmatches
      obtain ⟨c, hc, _⟩ := hmatches
      rw [RealityClientConnection.isHandshaking, hc]

-- A piece is processed as soon as it has come, and all that can be read then is read.
def deliver (pieces : List (List UInt8)) : List Op :=
  pieces.flatMap fun piece => [.feed piece, .process, .read plaintextReadBufCapacity]

-- What is known of a run that is ready for another piece, and in which nothing has been sent for the application.
structure Served (S : A.Stream) (hello : List UInt8) (r : Run) : Prop where
  tracks  : ∃ s, Run.Tracks C (begin_ a) hello r s
  nothing : r.conn.plaintextReadBuf.asSlice = []
  room    : r.conn.ciphertextReadBuf.len < tlsMaxRecordSize
  part    : r.delivered <+: S.data
  all     : r.received = S.bytes → r.conn.isHandshaking = false ∧ r.delivered = S.data
  silent  : r.accepted = [] ∧ r.notified = 0

theorem Served.feed {S : A.Stream} (h : Served S hello r) {piece : List UInt8} (hl : piece.length ≤ tlsMaxRecordSize) :
    ∃ conn, r.conn.feed piece = some conn ∧ conn.plaintextReadBuf.asSlice = [] ∧
      Run.step C r (.feed piece) = some { r with conn, received := r.received ++ piece } := by
  obtain ⟨s, ht⟩ := h.tracks
  have hroom := h.room
  cases hf : r.conn.feed piece
  case none =>
    have hover := feed_eq_none_iff.mp hf
    rw [ht.sizes.1, ciphertextReadBufCapacity] at hover
    omega
  case some conn =>
    obtain ⟨b, rfl, _⟩ := feed_spec hf
    refine ⟨_, rfl, h.nothing, ?_⟩
    simp only [Run.step, hf, Option.bind_eq_bind, Option.bind_some, Option.pure_def]

theorem run_piece (S : A.Stream) (h : Served S hello r) {piece : List UInt8} (hr : r.received ++ piece <+: S.bytes)
    (hl : piece.length ≤ tlsMaxRecordSize) :
    ∃ r', Machine.run (Run.step C) r [.feed piece, .process, .read plaintextReadBufCapacity] = some r' ∧
      Served S hello r' ∧ r'.received = r.received ++ piece := by
  obtain ⟨conn₁, hf, hnil₁, hstep₁⟩ := h.feed hl
  obtain ⟨s, ht⟩ := h.tracks
  have ht₁ := ht.feed hf
  obtain ⟨n, conn₂, hp, ht₂, hlen₂, hpre, hall⟩ := S.processed ht₁ hr hnil₁
  obtain ⟨b₃, hread, hb₃, _⟩ := read_spec conn₂ plaintextReadBufCapacity
  have hstep₂ : Run.step C { r with conn := conn₁, received := r.received ++ piece } .process =
      some { r with conn := conn₂, received := r.received ++ piece } := by
    simp only [Run.step, hp]
  have hle : conn₂.plaintextReadBuf.asSlice.length ≤ plaintextReadBufCapacity := by
    have hcap : conn₂.plaintextReadBuf.capacity = plaintextReadBufCapacity := ht₂.sizes.2
    rw [SlideBuffer.length_asSlice, ← hcap]
    exact conn₂.plaintextReadBuf.len_le_capacity
  rw [List.take_of_length_le hle] at hread
  rw [List.drop_eq_nil_of_le hle] at hb₃
  have hstep₃ : Run.step C { r with conn := conn₂, received := r.received ++ piece } (.read plaintextReadBufCapacity) =
      some { r with
        conn := { conn₂ with plaintextReadBuf := b₃ }
        received := r.received ++ piece
        delivered := r.delivered ++ conn₂.plaintextReadBuf.asSlice } := by
    simp only [Run.step, hread]
  refine ⟨_, ?_, ⟨ht₂.step hstep₃, hb₃, hlen₂, hpre, hall, h.silent⟩, rfl⟩
  simp only [Machine.run, hstep₁, hstep₂, hstep₃]

theorem run_deliver (S : A.Stream) (h : Served S hello r) {pieces : List (List UInt8)}
    (hr : r.received ++ pieces.flatten <+: S.bytes) (hl : ∀ piece ∈ pieces, piece.length ≤ tlsMaxRecordSize) :
    ∃ r', Machine.run (Run.step C) r (deliver pieces) = some r' ∧ Served S hello r' ∧
      r'.received = r.received ++ pieces.flatten := by
  induction pieces generalizing r
  case nil => exact ⟨r, rfl, h, (List.append_nil _).symm⟩
  case cons piece pieces hi =>
    obtain ⟨hlp, hls⟩ := List.forall_mem_cons.mp hl
    rw [List.flatten_cons, ← List.append_assoc] at hr ⊢
    obtain ⟨r₁, hrun₁, hserved, hreceived⟩ := S.run_piece h ((List.prefix_append _ _).trans hr) hlp
    rw [← hreceived] at hr ⊢
    obtain ⟨r', hrun, hrest⟩ := hi hserved hr hls
    refine ⟨r', ?_, hrest⟩
    rw [deliver, List.flatMap_cons, Machine.run_append, hrun₁]
    exact hrun

-- There are only the keys of the stream.
theorem keys_eq (S : A.Stream) {received finished : List UInt8} {c₀ : Complete} {read : RecordCipher}
    (hr : received <+: S.bytes) (hp : ((begin_ a).drain C received).1.phase = .established c₀ finished read) :
    c₀ = S.keys := by
  obtain ⟨more, hmore⟩ := hr
  obtain ⟨s, rest, hd, _, _, _, hall⟩ := S.drain_of_taken List.prefix_rfl
  obtain ⟨_, hkeys⟩ := (hall rfl).2
  have happ : (begin_ a).drain C (received ++ more) =
      ((begin_ a).drain C received).1.drain C (((begin_ a).drain C received).2 ++ more) := drain_append _ _ _
  obtain ⟨_, hkept⟩ := exists_phase_drain (C := C) hp (((begin_ a).drain C received).2 ++ more)
  rw [← happ, hmore, hd, hkeys] at hkept
  cases hkept
  rfl

-- Where nothing has been sent for the application, all numbers are left.
theorem complete_of_silent (S : A.Stream) (h : Run.Tracks C (begin_ a) hello r s) (hr : r.received <+: S.bytes)
    (hshaken : r.conn.isHandshaking = false) (hacc : r.accepted = []) (hsilent : r.notified = 0) :
    ∃ c, r.conn.handshakeState = .complete c ∧ c.write.iv.length = 12 ∧ c.write.seq = 0 := by
  have hphase := h.phase
  obtain ⟨c₀, finished, read, hp⟩ := (isHandshaking_eq_false_iff h).mp hshaken
  rw [hp] at hphase
  obtain ⟨c, hc, _, hiv, inners, parts, sealed, data, hs, hh, _, hcarries, haccepted⟩ := hphase
  have hkeys : c₀ = S.keys := by
    obtain ⟨cut, hcut, hbefore⟩ := h.before
    rw [← hbefore] at hp
    exact S.keys_eq (hcut.trans hr) hp
  have hdata : data = [] := (List.append_eq_nil_iff.mp (haccepted.trans hacc)).1
  have hnotified : (Run.ghost hello r).notified = 0 := hsilent
  rw [hdata, hnotified] at hcarries
  cases hcarries.eq_nil
  cases hh
  rw [hkeys] at hiv hs
  refine ⟨c, hc, ?_, ?_⟩
  case refine_1 => rw [hs.of_nil, hiv]
  case refine_2 => rw [hs.of_nil, (applicationKeys_ok S.keys_ok).2.2.1]

theorem Served.complete {S : A.Stream} (h : Served S hello r) (hr : r.received = S.bytes) :
    ∃ c, r.conn.handshakeState = .complete c ∧ c.write.iv.length = 12 ∧ c.write.seq = 0 := by
  obtain ⟨s, ht⟩ := h.tracks
  exact S.complete_of_silent ht (hr ▸ List.prefix_rfl) (h.all hr).1 h.silent.1 h.silent.2

end Stream

end Answer
end JammVpn.Reality
