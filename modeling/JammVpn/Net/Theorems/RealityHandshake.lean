import JammVpn.Core.Model
import JammVpn.Net.Theorems.RealityRun

-- Who is at the other end of a connection that is established: all that the client trusts came under keys that depend
-- on the key it was configured with.
namespace JammVpn.Reality

open Bytes Framed Machine
open RealityClientConnection (acceptServerHello acceptMessage acceptMessages acceptRecord checkCertificateVerify
  clientFinished newCipher applicationKeys)

variable (C : Crypto)

-- The records under the keys of the handshake, opened in the order of their numbers.
inductive Flight (suite : CipherSuite) (secret : List UInt8) : Nat → List UInt8 → Prop
  | nil : Flight suite secret 0 []
  | cons {seq flight ciphertext key iv plaintext} : Flight suite secret seq flight →
      deriveTrafficKeys C secret suite = .ok (key, iv) →
      decryptHandshakeMessage C.aead suite key iv seq ciphertext ciphertext.length = .ok plaintext →
      Flight suite secret (seq + 1) (flight ++ plaintext)

-- A message of the flight holds a certificate of this key, which only who has the key of the client could make.
def Certifies (authKey flight key : List UInt8) : Prop :=
  ∃ msg certDer, msg <:+: flight ∧ msg.headD 0 = handshakeTypeCertificate ∧
    extractCertificateDer msg = .ok certDer ∧ C.certificate certDer = .ok (key, C.hmacSha512 authKey key)

-- What holds while the messages of the server come in.
structure Progress (a : AwaitingServerHello) (p : ProcessingHandshake) : Prop where
  hello : ∃ record p₀, acceptServerHello C a record = .ok p₀ ∧ p = { p₀ with
    handshakeSeq := p.handshakeSeq
    accumulatedPlaintext := p.accumulatedPlaintext
    messagesFound := p.messagesFound
    certificateVerified := p.certificateVerified
    ed25519PublicKey := p.ed25519PublicKey
    certVerifyOffset := p.certVerifyOffset }
  flight : Flight C p.cipherSuite p.serverHandshakeTrafficSecret p.handshakeSeq p.accumulatedPlaintext
  certified : ∀ key, p.ed25519PublicKey = some key → Certifies C a.authKey p.accumulatedPlaintext key

-- What the server has proved when there are keys for the data: that it made the certificate, that it has the key of
-- the certificate, and that both sides have seen the same messages.
structure Authenticated (a : AwaitingServerHello) (c : Complete) (p : ProcessingHandshake)
    (record flight key signature : List UInt8) (offset : Nat) : Prop where
  hello     : acceptServerHello C a record = .ok p
  opened    : ∃ seq, Flight C p.cipherSuite p.serverHandshakeTrafficSecret seq flight
  certified : Certifies C a.authKey flight key
  message   : extractCertificateVerifySignature
    ((flight.drop offset).take (4 + ofBe ((flight.drop (offset + 1)).take 3))) = .ok signature
  verified  : C.verifyEd25519 key (signedContent (C.digest p.cipherSuite
    (a.clientHelloBytes ++ record.drop tlsRecordHeaderSize ++ flight.take offset))) signature = true
  keys      : applicationKeys C p (C.digest p.cipherSuite
    (a.clientHelloBytes ++ record.drop tlsRecordHeaderSize ++ flight)) = .ok c

-- A session has no data before the server is known, and keeps its keys.
def Trusts (a : AwaitingServerHello) (s : Session) : Prop :=
  match s.phase with
  | .hello a'              => a' = a ∧ s.plaintext = []
  | .handshake p           => Progress C a p ∧ s.plaintext = []
  | .established c₀ _ read => (∃ p record flight key signature offset,
      Authenticated C a c₀ p record flight key signature offset) ∧ read.key = c₀.read.key ∧ read.iv = c₀.read.iv

section Messages

variable {C} {a : AwaitingServerHello} {p p' p₀ : ProcessingHandshake} {certDer authKey key : List UInt8}

theorem verifyCertificateHmac_ok (h : verifyCertificateHmac C certDer authKey = .ok ()) :
    ∃ key, C.certificate certDer = .ok (key, C.hmacSha512 authKey key) := by
  obtain ⟨⟨key, signature⟩, hc, h⟩ := bind_eq_ok h
  obtain ⟨_, _, h⟩ := bind_eq_ok h
  have hmac : C.hmacSha512 authKey key = signature := by
    by_contra hne
    dsimp only at h
    rw [if_pos hne] at h
    split at h <;> cases h
  refine ⟨key, ?_⟩
  rw [parseCertificate] at hc
  split at hc
  case h_1 cert hok =>
    cases hc
    rw [hok, hmac]
  case h_2 => cases hc

theorem extractEd25519PublicKey_ok (h : extractEd25519PublicKey C certDer = .ok key) :
    ∃ signature, C.certificate certDer = .ok (key, signature) := by
  obtain ⟨⟨key', signature⟩, hc, h⟩ := bind_eq_ok h
  obtain ⟨_, _, h⟩ := bind_eq_ok h
  cases h
  rw [parseCertificate] at hc
  split at hc
  case h_1 hok =>
    cases hc
    exact ⟨signature, hok⟩
  case h_2 => cases hc

theorem verifyCertificateVerifySignature_ok {signature hash : List UInt8}
    (h : verifyCertificateVerifySignature C key signature hash = .ok ()) :
    C.verifyEd25519 key (signedContent hash) signature = true := by
  by_contra hne
  simp only [verifyCertificateVerifySignature, if_pos hne] at h
  split at h <;> cases h

theorem Certifies.append {flight : List UInt8} (h : Certifies C authKey flight key) (more : List UInt8) :
    Certifies C authKey (flight ++ more) key := by
  obtain ⟨msg, certDer, hm, hrest⟩ := h
  exact ⟨msg, certDer, hm.trans (List.infix_append' [] flight more), hrest⟩

-- What a message does not change.
structure Goes (p p' : ProcessingHandshake) : Prop where
  rest      : p' = { p with
    messagesFound := p'.messagesFound
    certificateVerified := p'.certificateVerified
    ed25519PublicKey := p'.ed25519PublicKey
    certVerifyOffset := p'.certVerifyOffset }
  certified : ∀ key, p'.ed25519PublicKey = some key →
    p.ed25519PublicKey = some key ∨ Certifies C p.authKey p.accumulatedPlaintext key

theorem Goes.trans {p₁ p₂ : ProcessingHandshake} (h : Goes (C := C) p p₁) (h' : Goes (C := C) p₁ p₂) :
    Goes (C := C) p p₂ := by
  obtain ⟨hr, hc⟩ := h
  obtain ⟨hr', hc'⟩ := h'
  have hkey : p₁.authKey = p.authKey := by rw [hr]
  have hacc : p₁.accumulatedPlaintext = p.accumulatedPlaintext := by rw [hr]
  refine ⟨by rw [hr', hr], fun key hk => ?_⟩
  rw [hkey, hacc] at hc'
  exact (hc' key hk).elim (hc key) .inr

-- A message that has been accepted is counted.
theorem goes_count (p : ProcessingHandshake) (offset : Option Nat) :
    Goes (C := C) p { p with certVerifyOffset := offset, messagesFound := p.messagesFound + 1 } :=
  ⟨rfl, fun _ => .inl⟩

theorem acceptMessage_spec {offset len : Nat} (h : acceptMessage C p offset len = .ok p') : Goes (C := C) p p' := by
  rw [acceptMessage] at h
  split at h
  case isFalse =>
    obtain ⟨p₁, h₁, h⟩ := bind_eq_ok h
    cases h₁
    split at h <;> cases h <;> exact goes_count p _
  case isTrue hk =>
    obtain ⟨certDer, hder, h⟩ := bind_eq_ok h
    obtain ⟨_, hmac, h⟩ := bind_eq_ok h
    obtain ⟨key, hkey, h⟩ := bind_eq_ok h
    obtain ⟨p₁, h₁, h⟩ := bind_eq_ok h
    cases h₁
    obtain ⟨key', hc⟩ := verifyCertificateHmac_ok hmac
    obtain ⟨signature, hc'⟩ := extractEd25519PublicKey_ok hkey
    cases hc.symm.trans hc'
    have hcert : Goes (C := C) p { p with ed25519PublicKey := some key, certificateVerified := true } := by
      refine ⟨rfl, fun key' hk' => .inr ?_⟩
      cases hk'
      refine ⟨_, certDer, ?_, hk, hder, hc⟩
      exact (List.take_prefix _ _).isInfix.trans (List.drop_suffix _ _).isInfix
    split at h <;> cases h <;> exact hcert.trans (goes_count _ _)

theorem acceptMessages_spec {offset missing : Nat} (h : acceptMessages C p offset missing = .ok p') :
    Goes (C := C) p p' := by
  induction missing generalizing p offset
  case zero =>
    cases h
    exact ⟨rfl, fun _ => .inl⟩
  case succ missing hi =>
    rw [acceptMessages] at h
    split at h
    case isFalse =>
      cases h
      exact ⟨rfl, fun _ => .inl⟩
    case isTrue =>
      obtain ⟨p₁, h₁, h⟩ := bind_eq_ok h
      exact (acceptMessage_spec h₁).trans (hi h)

-- What the state begins with.
structure Fresh (a : AwaitingServerHello) (record : List UInt8) (p : ProcessingHandshake) : Prop where
  transcript : p.handshakeTranscriptBytes = a.clientHelloBytes ++ record.drop tlsRecordHeaderSize
  authKey    : p.authKey = a.authKey
  seq        : p.handshakeSeq = 0
  flight     : p.accumulatedPlaintext = []
  uncertain  : p.ed25519PublicKey = none

theorem fresh_of_acceptServerHello {record : List UInt8} (h : acceptServerHello C a record = .ok p) :
    Fresh a record p := by
  obtain ⟨key, _, h⟩ := bind_eq_ok h
  obtain ⟨id, _, h⟩ := bind_eq_ok h
  cases hs : CipherSuite.fromId id
  case none =>
    simp only [hs] at h
    cases h
  case some suite =>
    simp only [hs] at h
    obtain ⟨_, hp, h⟩ := bind_eq_ok h
    cases hp
    cases ha : C.agree a.clientPrivateKey key
    case none =>
      simp only [ha] at h
      cases h
    case some secret =>
      simp only [ha] at h
      obtain ⟨_, hp, h⟩ := bind_eq_ok h
      cases hp
      obtain ⟨keys, _, h⟩ := bind_eq_ok h
      cases h
      exact ⟨rfl, rfl, rfl, rfl, rfl⟩

theorem Progress.fresh {record : List UInt8} (h : acceptServerHello C a record = .ok p) : Progress C a p := by
  have hf := fresh_of_acceptServerHello h
  refine ⟨⟨record, p, h, rfl⟩, ?_, fun key hk => ?_⟩
  case refine_1 =>
    rw [hf.seq, hf.flight]
    exact .nil
  case refine_2 => cases hf.uncertain.symm.trans hk

theorem Progress.fixed (hp : Progress C a p) : ∃ record p₀, acceptServerHello C a record = .ok p₀ ∧
    p.authKey = a.authKey ∧ p.handshakeTranscriptBytes = a.clientHelloBytes ++ record.drop tlsRecordHeaderSize ∧
    p.cipherSuite = p₀.cipherSuite ∧ p.serverHandshakeTrafficSecret = p₀.serverHandshakeTrafficSecret ∧
    p.masterSecret = p₀.masterSecret := by
  obtain ⟨⟨record, p₀, hrec, hp₀⟩, _⟩ := hp
  have hf := fresh_of_acceptServerHello hrec
  exact ⟨record, p₀, hrec, by rw [hp₀, hf.authKey], by rw [hp₀, hf.transcript], by rw [hp₀], by rw [hp₀], by rw [hp₀]⟩

theorem Progress.acceptRecord {ciphertext : List UInt8} (hp : Progress C a p)
    (h : RealityClientConnection.acceptRecord C p ciphertext = .ok p') : Progress C a p' := by
  obtain ⟨⟨key, iv⟩, hk, h⟩ := bind_eq_ok h
  obtain ⟨plaintext, hopen, h⟩ := bind_eq_ok h
  obtain ⟨hrest, hcert⟩ := acceptMessages_spec h
  obtain ⟨_, _, _, hauth, _⟩ := hp.fixed
  obtain ⟨⟨record, p₀, hrec, hp₀⟩, hflight, hold⟩ := hp
  refine ⟨⟨record, p₀, hrec, by rw [hrest, hp₀]⟩, ?_, fun key hk => ?_⟩
  case refine_1 =>
    rw [hrest]
    exact hflight.cons hk hopen
  case refine_2 =>
    have hacc : p'.accumulatedPlaintext = p.accumulatedPlaintext ++ plaintext := by rw [hrest]
    rw [hacc, ← hauth]
    refine (hcert key hk).elim (fun hs => ?_) id
    rw [hauth]
    exact (hold key hs).append plaintext

theorem applicationKeys_congr (hs : p.cipherSuite = p'.cipherSuite) (hm : p.masterSecret = p'.masterSecret)
    (hash : List UInt8) : applicationKeys C p hash = applicationKeys C p' hash := by
  rw [applicationKeys, applicationKeys, hs, hm]

-- The last step: nothing that has not been checked leads to keys.
theorem Progress.finish {c : Complete} {finished : List UInt8} (hp : Progress C a p)
    (h : Session.finish C p = .ok (c, finished)) : ∃ p₀ record flight key signature offset,
      Authenticated C a c p₀ record flight key signature offset := by
  obtain ⟨_, hcheck, h⟩ := bind_eq_ok h
  obtain ⟨⟨cipher, data, hash⟩, hfin, h⟩ := bind_eq_ok h
  obtain ⟨c', hkeys, h⟩ := bind_eq_ok h
  cases h
  obtain ⟨record, p₀, hrec, hauth, htrans, hsuite, hsecret, hmaster⟩ := hp.fixed
  rw [checkCertificateVerify] at hcheck
  split at hcheck
  case isTrue => cases hcheck
  case isFalse =>
    split at hcheck
    case h_2 => cases hcheck
    case h_1 key offset hkey hoff =>
      obtain ⟨signature, hsig, hcheck⟩ := bind_eq_ok hcheck
      refine ⟨p₀, record, p.accumulatedPlaintext, key, signature, offset, hrec, ⟨p.handshakeSeq, ?_⟩,
        hp.certified key hkey, hsig, ?_, ?_⟩
      case refine_1 => exact hsuite ▸ hsecret ▸ hp.flight
      case refine_2 =>
        rw [← htrans, ← hsuite]
        exact verifyCertificateVerifySignature_ok hcheck
      case refine_3 =>
        obtain ⟨_, _, hfin⟩ := bind_eq_ok hfin
        obtain ⟨_, _, hfin⟩ := bind_eq_ok hfin
        cases hfin
        rwa [← htrans, ← hsuite, ← applicationKeys_congr hsuite hmaster]

end Messages
section Sessions

variable {C} {a : AwaitingServerHello} {s : Session}

theorem Trusts.congr {s' : Session} (h : Trusts C a s) (hphase : s'.phase = s.phase)
    (hplain : s'.plaintext = s.plaintext) : Trusts C a s' := by
  rw [Trusts, hphase, hplain]
  exact h

theorem Trusts.step (h : Trusts C a s) (record : List UInt8) : Trusts C a (s.step C record) := by
  have htrusts := h
  rw [Trusts] at h
  cases hp : s.phase
  case hello a' =>
    rw [hp] at h
    obtain ⟨rfl, hnil⟩ := h
    rw [step_hello hp]
    cases ha : acceptServerHello C a' record
    case error e => exact htrusts.congr rfl rfl
    case ok p    => exact ⟨.fresh ha, hnil⟩
  case handshake p =>
    rw [hp] at h
    obtain ⟨hprogress, hnil⟩ := h
    rw [step_handshake hp, Session.stepHandshake]
    split
    case isTrue => exact htrusts
    case isFalse =>
      split
      case isTrue => exact htrusts.congr rfl rfl
      case isFalse =>
        cases ha : acceptRecord C p (record.drop tlsRecordHeaderSize)
        case error e => exact htrusts.congr rfl rfl
        case ok p' =>
          have hprogress' := hprogress.acceptRecord ha
          dsimp only
          split
          case isTrue => exact ⟨hprogress', hnil⟩
          case isFalse =>
            cases hf : Session.finish C p'
            case error e => exact htrusts.congr rfl rfl
            case ok keys => exact ⟨hprogress'.finish hf, rfl, rfl⟩
  case established c₀ finished read =>
    rw [hp] at h
    obtain ⟨read', hp', hkey, hiv⟩ := phase_step (C := C) hp record
    rw [Trusts, hp']
    exact ⟨h.1, hkey.trans h.2.1, hiv.trans h.2.2⟩

end Sessions

-- What is known of the other end of a run. Nothing has been delivered or sent but the hello before it is known.
def Guards (C : Crypto) (a : AwaitingServerHello) (hello : List UInt8) (r : Run) : HandshakeState → Prop
  | .complete c => ∃ c₀ p record flight key signature offset,
      Authenticated C a c₀ p record flight key signature offset ∧
        c.read.key = c₀.read.key ∧ c.read.iv = c₀.read.iv ∧ c.write.key = c₀.write.key ∧ c.write.iv = c₀.write.iv
  | _ => r.delivered = [] ∧ r.conn.plaintextReadBuf.asSlice = [] ∧ r.wire ++ r.conn.ciphertextWriteBuf = hello

variable {C}

theorem Run.Tracks.guards {a : AwaitingServerHello} {s₀ s : Session} {hello : List UInt8} {r : Run}
    (h : Tracks C s₀ hello r s) (h₀ : Trusts C a s₀) : Guards C a hello r r.conn.handshakeState := by
  obtain ⟨cut, _, hs⟩ := h.before
  have ht : Trusts C a s := hs ▸ drain_keeps (P := Trusts C a) (fun _ record _ hs => hs.step record) h₀ cut
  have hphase := h.phase
  have hplain := h.plaintext
  rw [Trusts] at ht
  cases hp : s.phase
  case hello a' =>
    rw [hp] at ht hphase
    rw [ht.2] at hplain
    rw [hphase.1]
    obtain ⟨hdel, hbuf⟩ := List.append_eq_nil_iff.mp hplain
    exact ⟨hdel, hbuf, hphase.2.1⟩
  case handshake p =>
    rw [hp] at ht hphase
    rw [ht.2] at hplain
    rw [hphase.1]
    obtain ⟨hdel, hbuf⟩ := List.append_eq_nil_iff.mp hplain
    exact ⟨hdel, hbuf, hphase.2.1⟩
  case established c₀ finished read =>
    rw [hp] at ht hphase
    obtain ⟨c, hc, hread, _, _, _, _, _, hseals, _⟩ := hphase
    obtain ⟨⟨p, record, flight, key, signature, offset, hauth⟩, hkey, hiv⟩ := ht
    rw [hc]
    exact ⟨c₀, p, record, flight, key, signature, offset, hauth, hread ▸ hkey, hread ▸ hiv, hseals.iv.2, hseals.iv.1⟩

end JammVpn.Reality
