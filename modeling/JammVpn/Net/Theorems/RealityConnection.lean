import JammVpn.Lib.Machine
import JammVpn.Net.RealityConnection
import JammVpn.Net.Theorems.RealityMessages
import JammVpn.Net.Theorems.RealityRecords
import JammVpn.Net.Theorems.SlideBuffer

-- A connection does what a session does that takes the records of the server one after the other, however they
-- come in and whatever else is done in between.
namespace JammVpn.Reality

open Bytes Framed Machine

inductive Phase
  | hello (a : AwaitingServerHello)
  | handshake (p : ProcessingHandshake)
  | established (c : Complete) (finished : List UInt8) (read : RecordCipher)

inductive Status
  | live
  | closed
  | failed (e : Error)
  | panicked

-- What the records of the server come to: how far the handshake is, and the data that has been received.
structure Session where
  phase     : Phase
  plaintext : List UInt8
  status    : Status

namespace Session

variable (C : Crypto)

-- The keys, and the record with the last message of the client.
def finish (p : ProcessingHandshake) : Except Error (Complete × List UInt8) := do
  RealityClientConnection.checkCertificateVerify C p
  let (cipher, finished, handshakeHash) ← RealityClientConnection.clientFinished C p
  let c ← RealityClientConnection.applicationKeys C p handshakeHash
  return (c, (cipher.encryptHandshake C.aead finished []).2.2)

def fail (s : Session) (e : Error) : Session :=
  { s with status := .failed e }

def acceptAlert (s : Session) : List UInt8 → Session
  | alertLevel :: alertDesc :: _ =>
    if alertDesc = alertDescCloseNotify then { s with status := .closed }
    else if alertLevel ≠ alertLevelWarning then
      s.fail ⟨.connectionAborted, s!"received fatal alert: {alertDesc.toNat}"⟩
    else s
  | _ => s

def acceptData (s : Session) (contentType : UInt8) (plaintext : List UInt8) : Session :=
  if contentType = contentTypeApplicationData then { s with plaintext := s.plaintext ++ plaintext }
  else if contentType = contentTypeAlert then s.acceptAlert plaintext
  else { s with status := .panicked }

-- Takes a record while the messages of the server are awaited.
def stepHandshake (s : Session) (p : ProcessingHandshake) (record : List UInt8) : Session :=
  let recordType := record.headD 0
  if recordType = contentTypeChangeCipherSpec then s
  else if recordType ≠ contentTypeApplicationData then
    s.fail (invalidData s!"Expected Application Data record, got 0x{Vision.hex recordType}")
  else
    match RealityClientConnection.acceptRecord C p (record.drop tlsRecordHeaderSize) with
    | .error e => s.fail e
    | .ok p    =>
      if p.messagesFound < 4 then { s with phase := .handshake p }
      else
        match finish C p with
        | .error e          => s.fail e
        | .ok (c, finished) => { s with phase := .established c finished c.read }

def step (s : Session) (record : List UInt8) : Session :=
  match s.phase with
  | .hello a =>
    match RealityClientConnection.acceptServerHello C a record with
    | .ok p    => { s with phase := .handshake p }
    | .error e => s.fail e
  | .handshake p => s.stepHandshake C p record
  | .established c finished read =>
    let ciphertext := record.drop tlsRecordHeaderSize
    match read.decryptRecordInPlace C.aead ciphertext ciphertext.length with
    | (.error e, read, _)                       => { s.fail e with phase := .established c finished read }
    | (.ok (contentType, plaintext), read, _) =>
      { s with phase := .established c finished read }.acceptData contentType plaintext

def isLive (s : Session) : Bool :=
  match s.status with
  | .live => true
  | _     => false

def consumer : Consumer Session UInt8 where
  live := isLive
  step := step C

-- What becomes of the session when more bytes have come.
def drain (s : Session) (buf : List UInt8) : Session × List UInt8 :=
  Framed.drain records (consumer C) s buf

end Session

-- What went on at the other ends of a connection: the record with the hello, what has been delivered to the
-- application and accepted from it, what has been written to the network, and how often the server has been notified
-- that nothing more comes.
structure Ghost where
  hello     : List UInt8
  delivered : List UInt8
  accepted  : List UInt8
  wire      : List UInt8
  notified  : Nat

def appContent (parts : List (UInt8 × List UInt8)) : List UInt8 :=
  (parts.filter fun part => part.1 == contentTypeApplicationData).flatMap Prod.snd

def closeNotify : UInt8 × List UInt8 :=
  (contentTypeAlert, [alertLevelWarning, alertDescCloseNotify])

-- What the parts are: this data, so many notifications, and nothing else.
structure Carries (parts : List (UInt8 × List UInt8)) (data : List UInt8) (notified : Nat) : Prop where
  data   : appContent parts = data
  others : (parts.filter fun part => part.1 != contentTypeApplicationData) = List.replicate notified closeNotify
  filled : ∀ part ∈ parts, part.2 ≠ []

-- All that has been accepted is on its way in records, or waits to be encrypted.
def Sent (C : Crypto) (g : Ghost) (conn : RealityClientConnection) (c₀ c : Complete) (finished : List UInt8) : Prop :=
  ∃ inners parts sealed data, RecordCipher.Seals C.aead c₀.write inners sealed c.write ∧
    List.Forall₂ RecordCipher.Holds inners parts ∧
    g.wire ++ conn.ciphertextWriteBuf = g.hello ++ finished ++ sealed ∧
    Carries parts data g.notified ∧ data ++ conn.plaintextWriteBuf = g.accepted

theorem Carries.nil : Carries [] [] 0 :=
  ⟨rfl, rfl, nofun⟩

-- Before there are keys for it, nothing is sent but the hello.
def Waiting (g : Ghost) (conn : RealityClientConnection) : Prop :=
  g.wire ++ conn.ciphertextWriteBuf = g.hello ∧ conn.plaintextWriteBuf = g.accepted ∧ g.notified = 0

def Matches (C : Crypto) (g : Ghost) (conn : RealityClientConnection) : Phase → Prop
  | .hello a                       => conn.handshakeState = .awaitingServerHello a ∧ Waiting g conn
  | .handshake p                   => conn.handshakeState = .processingHandshake p ∧ Waiting g conn
  | .established c₀ finished read => ∃ c, conn.handshakeState = .complete c ∧ c.read = read ∧
      c₀.write.iv.length = 12 ∧ Sent C g conn c₀ c finished

-- A connection that is not closed and has not failed, and the session that it is.
structure Sim (C : Crypto) (g : Ghost) (conn : RealityClientConnection) (s : Session) : Prop where
  phase     : Matches C g conn s.phase
  plaintext : g.delivered ++ conn.plaintextReadBuf.asSlice = s.plaintext
  fatal     : conn.fatalError = none
  sizes     : conn.ciphertextReadBuf.capacity = ciphertextReadBufCapacity ∧
    conn.plaintextReadBuf.capacity = plaintextReadBufCapacity

section Calls

open RealityClientConnection

variable {C : Crypto} {conn conn' : RealityClientConnection} {n : Nat}

theorem wholeRecord_eq (conn : RealityClientConnection) :
    conn.wholeRecord = records.size conn.ciphertextReadBuf.asSlice := by
  have hlen := conn.ciphertextReadBuf.length_asSlice
  simp only [wholeRecord, records, hlen]
  by_cases h5 : conn.ciphertextReadBuf.len < tlsRecordHeaderSize
  case pos => rw [if_pos h5, if_neg fun h => Nat.not_lt_of_le h.1 h5]
  case neg =>
    have hle := Nat.le_of_not_lt h5
    have hu : conn.ciphertextReadBuf.getU16Be 3 = some (recordLen conn.ciphertextReadBuf.asSlice) := if_pos hle
    rw [if_neg h5, hu]
    dsimp only
    split
    case isTrue hn  => rw [if_neg fun h => Nat.not_lt_of_le h.2 hn]
    case isFalse hn => rw [if_pos ⟨hle, Nat.le_of_not_lt hn⟩]

theorem newCipher_ok (C : Crypto) (suite : CipherSuite) (secret : List UInt8) :
    ∃ c, newCipher C suite secret = .ok c ∧ c.iv.length = 12 ∧ c.seq = 0 := by
  obtain ⟨key, iv, hk, hkey, hiv⟩ := deriveTrafficKeys_ok C secret suite
  refine ⟨⟨⟨suite, key, hkey⟩, iv, 0⟩, ?_, hiv, rfl⟩
  simp only [newCipher, hk, AeadKey.new, hkey, bind, Except.bind, pure, Except.pure, dif_pos]

theorem clientFinished_ok (C : Crypto) (p : ProcessingHandshake) :
    ∃ cipher data hash, clientFinished C p = .ok (cipher, data, hash) ∧ cipher.iv.length = 12 ∧ cipher.seq = 0 ∧
      data ≠ [] ∧ data.length ≤ maxTlsPlaintextLen := by
  obtain ⟨v, hv, hlen⟩ := computeFinishedVerifyData_ok C p.cipherSuite p.clientHandshakeTrafficSecret
    (C.digest p.cipherSuite (p.handshakeTranscriptBytes ++ p.accumulatedPlaintext))
  obtain ⟨c, hc, hiv, hs⟩ := newCipher_ok C p.cipherSuite p.clientHandshakeTrafficSecret
  refine ⟨c, constructFinished v, C.digest p.cipherSuite (p.handshakeTranscriptBytes ++ p.accumulatedPlaintext), ?_, hiv,
    hs, List.cons_ne_nil _ _, ?_⟩
  case refine_1 => simp only [clientFinished, hv, hc, bind, Except.bind, pure, Except.pure]
  case refine_2 =>
    have h48 : p.cipherSuite.hashLen ≤ 48 := by cases p.cipherSuite <;> decide
    simp only [constructFinished, message, List.length_cons, List.length_append, length_toBe, hlen, maxTlsPlaintextLen]
    omega

theorem applicationKeys_ok {p : ProcessingHandshake} {hash : List UInt8} {c : Complete}
    (h : applicationKeys C p hash = .ok c) : c.write.iv.length = 12 ∧ c.read.iv.length = 12 ∧ c.write.seq = 0 ∧ c.read.seq = 0 := by
  simp only [applicationKeys, bind, Except.bind] at h
  split at h
  case h_1 => cases h
  case h_2 secrets _ =>
    obtain ⟨w, hw, hwiv, hws⟩ := newCipher_ok C p.cipherSuite secrets.1
    obtain ⟨r, hr, hriv, hrs⟩ := newCipher_ok C p.cipherSuite secrets.2
    simp only [hw, hr, pure, Except.pure] at h
    cases h
    exact ⟨hwiv, hriv, hws, hrs⟩

-- A short message of the handshake takes one record.
theorem encryptHandshake_short {cipher : RecordCipher} {data : List UInt8} (hiv : cipher.iv.length = 12)
    (hs : cipher.seq = 0) (hne : data ≠ []) (hl : data.length ≤ maxTlsPlaintextLen) (out : List UInt8) :
    cipher.encryptHandshake C.aead data out =
      (.ok (), cipher.next, out ++ cipher.record C.aead (data ++ [contentTypeHandshake])) := by
  have he : data.isEmpty = false := by simpa using hne
  rw [RecordCipher.encryptHandshake, he, if_neg (by decide), if_pos hl]
  rcases hr : cipher.encryptRecordInPlace C.aead data out contentTypeHandshake with ⟨r, c, buf, out'⟩
  obtain ⟨rfl, _, rfl, rfl⟩ | ⟨⟨f, _, hf⟩, _⟩ := RecordCipher.sealRecord_spec hiv (RecordCipher.length_concat_le hl _) hr
  case inl => rfl
  case inr =>
    rw [RecordCipher.Exhausted, hs] at hf
    exact absurd hf.2 (by decide)

-- The connection finishes as the session does.
theorem finish_spec (conn : RealityClientConnection) (p : ProcessingHandshake) :
    (∃ e conn', Session.finish C p = .error e ∧ conn.finish C p = some (.error e, conn') ∧
      conn'.fatalError = conn.fatalError) ∨
      ∃ c finished, Session.finish C p = .ok (c, finished) ∧ c.write.iv.length = 12 ∧ c.write.seq = 0 ∧
        conn.finish C p = some (.ok true, { conn with
          ciphertextWriteBuf := conn.ciphertextWriteBuf ++ finished, handshakeState := .complete c }) := by
  cases hv : checkCertificateVerify C p
  case error e =>
    refine .inl ⟨e, conn, ?_, ?_, rfl⟩
    case refine_1 => simp only [Session.finish, hv, bind, Except.bind]
    case refine_2 => simp only [RealityClientConnection.finish, hv, bind, Except.bind, ofExcept]
  case ok =>
    obtain ⟨cipher, data, hash, hf, hiv, hs, hne, hl⟩ := clientFinished_ok C p
    have hout := encryptHandshake_short (C := C) hiv hs hne hl
    cases hk : applicationKeys C p hash
    case error e =>
      refine .inl ⟨e, { conn with
        ciphertextWriteBuf := conn.ciphertextWriteBuf ++ cipher.record C.aead (data ++ [contentTypeHandshake]) }, ?_, ?_, rfl⟩
      case refine_1 => simp only [Session.finish, hv, hf, hk, bind, Except.bind]
      case refine_2 => simp only [RealityClientConnection.finish, hv, hf, hk, bind, Except.bind, ofExcept, hout]
    case ok c =>
      obtain ⟨hw, _, hz, _⟩ := applicationKeys_ok hk
      refine .inr ⟨c, cipher.record C.aead (data ++ [contentTypeHandshake]), ?_, hw, hz, ?_⟩
      case refine_1 => simp only [Session.finish, hv, hf, hk, bind, Except.bind, pure, Except.pure, hout, List.nil_append]
      case refine_2 => simp only [RealityClientConnection.finish, hv, hf, hk, bind, Except.bind, ofExcept, hout]

variable {g : Ghost} {s : Session} {more : List UInt8} {turns : Nat}

-- The session that is live before what is in the buffer.
structure Live (C : Crypto) (g : Ghost) (conn : RealityClientConnection) (s : Session) (more : List UInt8) : Prop
    extends Sim C g conn s where
  status : s.status = .live
  open_  : conn.receivedCloseNotify = false
  buffer : conn.ciphertextReadBuf.asSlice = more

-- Nothing is left to be done: there is no whole record, or the server has closed.
def Settled (C : Crypto) (g : Ghost) (s : Session) (more : List UInt8) (conn : RealityClientConnection) : Prop :=
  ∃ s' rest, s.drain C more = (s', rest) ∧
    (Live C g conn s' rest ∨ Sim C g conn s' ∧ s'.status = .closed ∧ conn.receivedCloseNotify = true)

-- More plaintext than there can be room for.
def Overflows (conn : RealityClientConnection) (more : List UInt8) : Prop :=
  plaintextReadBufCapacity < conn.plaintextReadBuf.end_ + more.length

theorem consumer_step (s : Session) (record : List UInt8) : (Session.consumer C).step s record = s.step C record :=
  rfl

theorem isLive_of_live (h : s.status = .live) : (Session.consumer C).live s = true := by
  show s.isLive = true
  rw [Session.isLive, h]

theorem drain_of_size (hl : s.status = .live) {n : Nat} (h : records.size more = some n) :
    s.drain C more = (s.step C (more.take n)).drain C (more.drop n) :=
  drain_some (isLive_of_live hl) h

theorem drain_of_not_live (h : s.isLive = false) (more : List UInt8) : s.drain C more = (s, more) :=
  drain_dead h

theorem drain_failed {e : Error} (h : s.status = .failed e) (more : List UInt8) : s.drain C more = (s, more) :=
  drain_of_not_live (by rw [Session.isLive, h]) more

theorem settled_of_size_eq_none (h : Live C g conn s more) (hn : records.size more = none) : Settled C g s more conn :=
  ⟨s, more, drain_none hn, .inl h⟩

theorem Settled.of_drain {s' : Session} {more' : List UInt8} (h : Settled C g s' more' conn)
    (hd : s.drain C more = s'.drain C more') : Settled C g s more conn := by
  obtain ⟨s₁, rest, hr, hs⟩ := h
  exact ⟨s₁, rest, hd.trans hr, hs⟩

-- The ciphertext of a record is decrypted in place, and then dropped with its header.
theorem exists_sliceMut {b : SlideBuffer} {decrypted : List UInt8} (h : records.size b.asSlice = some n)
    (hl : decrypted.length = ((b.asSlice.take n).drop tlsRecordHeaderSize).length) :
    ∃ b', b.sliceMut tlsRecordHeaderSize decrypted = some b' ∧ (b'.consume n).asSlice = b.asSlice.drop n ∧
      (b'.consume n).capacity = b.capacity ∧ b'.capacity = b.capacity := by
  have hle := records.size_le h
  have h5 : tlsRecordHeaderSize ≤ n := by
    simp only [records] at h
    split at h
    case isTrue  => cases h; exact Nat.le_add_right _ _
    case isFalse => cases h
  have hd : tlsRecordHeaderSize + decrypted.length = n := by
    rw [hl, List.length_drop, List.length_take_of_le hle]
    omega
  have hblen := b.length_asSlice
  obtain ⟨b', hb'⟩ := @SlideBuffer.exists_sliceMut b decrypted tlsRecordHeaderSize (by omega)
  obtain ⟨hs, hcap, _⟩ := SlideBuffer.asSlice_sliceMut (by omega) hb'
  have hcon := b'.consumed n
  refine ⟨b', hb', ?_, hcon.capacity.trans hcap, hcap⟩
  rw [hcon.asSlice, hs, SlideBuffer.overwrite, hd, List.drop_left']
  rw [List.length_append, List.length_take_of_le (by omega), hd]

theorem length_decrypted {c : RecordCipher} {ciphertext decrypted : List UInt8} {len : Nat} {read : RecordCipher}
    {r : Except Error (UInt8 × List UInt8)}
    (h : c.decryptRecordInPlace C.aead ciphertext len = (r, read, decrypted)) :
    decrypted.length = ciphertext.length ∧ ∀ t plaintext, r = .ok (t, plaintext) → plaintext.length ≤ ciphertext.length := by
  rw [RecordCipher.decryptRecordInPlace] at h
  split at h
  case h_1 =>
    cases h
    exact ⟨rfl, fun _ _ hok => by cases hok⟩
  case h_2 plain ho =>
    have hlen : plain.length ≤ ciphertext.length := by
      simp only [AeadKey.open_, bind, Except.bind] at ho
      split at ho
      case h_1 => cases ho
      case h_2 =>
        split at ho
        case h_2 => cases ho
        case h_1 hdec =>
          cases ho
          rw [(C.aead _).length_of_decrypt hdec]
          exact Nat.le_add_right _ _
    have hd : (plain ++ ciphertext.drop plain.length).length = ciphertext.length := by
      rw [List.length_append, List.length_drop]
      omega
    dsimp only at h
    split at h
    case h_1 =>
      cases h
      exact ⟨hd, fun _ _ hok => by cases hok⟩
    case h_2 =>
      cases h
      refine ⟨hd, fun t content hs => ?_⟩
      obtain ⟨_, padding, hp⟩ := stripContentType_eq_ok hs
      rw [hp, List.length_append, List.length_append] at hlen
      omega

-- The outcome of the loop over the records of application data.
def DataOutcome (C : Crypto) (g : Ghost) (s : Session) (more : List UInt8) (conn : RealityClientConnection) :
    Option (Result Unit) → Prop
  | none                   => (s.drain C more).1.status = .panicked ∨ Overflows conn more
  | some (.error e, conn') => (s.drain C more).1.status = .failed e ∧ conn'.fatalError = none
  | some (.ok (), conn')   => Settled C g s more conn'

theorem DataOutcome.of_drain {s' : Session} {more' : List UInt8} {r : Option (Result Unit)}
    (h : DataOutcome C g s' more' conn' r) (hd : s.drain C more = s'.drain C more')
    (hend : conn'.plaintextReadBuf.end_ + more'.length ≤ conn.plaintextReadBuf.end_ + more.length) :
    DataOutcome C g s more conn r := by
  match r with
  | none =>
    refine Or.imp (fun hs => ?_) (fun ho => Nat.lt_of_lt_of_le ho hend) h
    rw [hd]
    exact hs
  | some (.error e, _) => exact ⟨by rw [hd]; exact h.1, h.2⟩
  | some (.ok (), _)   => exact Settled.of_drain h hd

theorem length_drop_lt {n : Nat} (h : records.size more = some n) : (more.drop n).length < more.length := by
  have hpos := records.size_pos h
  have hle := records.size_le h
  rw [List.length_drop]
  omega

-- One record of the established session.
theorem step_refused {c₀ : Complete} {finished : List UInt8} {read read' : RecordCipher} {record buf : List UInt8}
    (hp : s.phase = .established c₀ finished read) {e : Error}
    (hd : read.decryptRecordInPlace C.aead (record.drop tlsRecordHeaderSize)
      (record.drop tlsRecordHeaderSize).length = (.error e, read', buf)) :
    s.step C record = { s.fail e with phase := .established c₀ finished read' } := by
  rw [Session.step, hp]
  dsimp only
  rw [hd]

theorem step_opened {c₀ : Complete} {finished : List UInt8} {read read' : RecordCipher} {record buf : List UInt8}
    (hp : s.phase = .established c₀ finished read) {contentType : UInt8} {plaintext : List UInt8}
    (hd : read.decryptRecordInPlace C.aead (record.drop tlsRecordHeaderSize)
      (record.drop tlsRecordHeaderSize).length = (.ok (contentType, plaintext), read', buf)) :
    s.step C record = { s with phase := .established c₀ finished read' }.acceptData contentType plaintext := by
  rw [Session.step, hp]
  dsimp only
  rw [hd]

-- The buffers after a record, and the number of the next one.
theorem Sim.received {c₀ c : Complete} {finished : List UInt8} {read : RecordCipher}
    (h : Sim C g conn s) (hc : conn.handshakeState = .complete c) (hp : s.phase = .established c₀ finished read)
    {b pb : SlideBuffer} (hb : b.capacity = conn.ciphertextReadBuf.capacity)
    (hpb : pb.capacity = conn.plaintextReadBuf.capacity) {new : List UInt8}
    (hnew : pb.asSlice = conn.plaintextReadBuf.asSlice ++ new) (read' : RecordCipher) (closed : Bool) :
    Sim C g { conn with
        handshakeState := .complete { c with read := read' }
        ciphertextReadBuf := b
        plaintextReadBuf := pb
        receivedCloseNotify := closed }
      { s with phase := .established c₀ finished read', plaintext := s.plaintext ++ new } := by
  obtain ⟨hphase, hplain, hfatal, hsizes⟩ := h
  rw [hp] at hphase
  obtain ⟨c', hc', _, hiv, hsent⟩ := hphase
  cases hc.symm.trans hc'
  refine ⟨⟨_, rfl, rfl, hiv, hsent⟩, ?_, hfatal, ?_⟩
  case refine_1 => rw [hnew, ← List.append_assoc, hplain]
  case refine_2 => exact ⟨hb.trans hsizes.1, hpb.trans hsizes.2⟩

theorem processApplicationData_spec {c₀ c : Complete} {finished : List UInt8} {read : RecordCipher}
    (h : Live C g conn s more) (hc : conn.handshakeState = .complete c) (hp : s.phase = .established c₀ finished read)
    (hread : c.read = read) (ht : more.length ≤ turns) :
    DataOutcome C g s more conn (conn.processApplicationData C c turns) := by
  induction turns generalizing conn s more c read
  case zero =>
    have hnil : more = [] := List.eq_nil_of_length_eq_zero (Nat.le_zero.mp ht)
    exact settled_of_size_eq_none h (by rw [hnil]; rfl)
  case succ turns hi =>
    rw [processApplicationData, wholeRecord_eq, h.buffer]
    cases hn : records.size more
    case none => exact settled_of_size_eq_none h hn
    case some n =>
      have hlt := length_drop_lt hn
      have hdrain := drain_of_size (C := C) h.status hn
      rw [← hread] at hp
      rcases hd : c.read.decryptRecordInPlace C.aead ((more.take n).drop tlsRecordHeaderSize)
        ((more.take n).drop tlsRecordHeaderSize).length with ⟨r, read', decrypted⟩
      obtain ⟨hlen, hplainLen⟩ := length_decrypted hd
      obtain ⟨b, hb, hslice, hcap, hcap'⟩ := exists_sliceMut (h.buffer ▸ hn) (h.buffer ▸ hlen)
      rw [h.buffer] at hslice
      simp only [hd, hb, Option.bind_eq_bind, Option.bind_some]
      cases r
      case error e =>
        have hf : s.drain C more = ({ s.fail e with phase := .established c₀ finished read' }, more.drop n) := by
          rw [hdrain, step_refused hp hd]
          exact drain_failed rfl _
        exact ⟨by rw [hf]; rfl, h.fatal⟩
      case ok part =>
        obtain ⟨contentType, plaintext⟩ := part
        have hplain := hplainLen _ _ rfl
        rw [step_opened hp hd] at hdrain
        -- The record is dropped, and the loop goes on with the rest.
        have hagain : ∀ (pb : SlideBuffer) (new : List UInt8), pb.capacity = conn.plaintextReadBuf.capacity →
            pb.asSlice = conn.plaintextReadBuf.asSlice ++ new →
            pb.end_ + (more.drop n).length ≤ conn.plaintextReadBuf.end_ + more.length →
            s.drain C more = { s with phase := .established c₀ finished read', plaintext := s.plaintext ++ new }.drain C (more.drop n) →
            DataOutcome C g s more conn (processApplicationData C { conn with
              handshakeState := .complete { c with read := read' }
              ciphertextReadBuf := b.consume n
              plaintextReadBuf := pb } { c with read := read' } turns) := by
          intro pb new hpb hnew hend hd'
          have hsim := h.toSim.received hc hp hcap hpb hnew read' conn.receivedCloseNotify
          exact (hi ⟨hsim, h.status, h.open_, hslice⟩ rfl rfl rfl (by omega)).of_drain hd' hend
        have hskip (hd' : s.drain C more = { s with phase := .established c₀ finished read' }.drain C (more.drop n)) :
            DataOutcome C g s more conn (processApplicationData C { conn with
              handshakeState := .complete { c with read := read' }
              ciphertextReadBuf := b.consume n } { c with read := read' } turns) := by
          refine hagain conn.plaintextReadBuf [] rfl (List.append_nil _).symm (by omega) ?_
          rw [List.append_nil]
          exact hd'
        dsimp only
        by_cases hdata : contentType = contentTypeApplicationData
        case pos =>
          rw [if_pos hdata]
          rw [Session.acceptData, if_pos hdata] at hdrain
          have hm := conn.plaintextReadBuf.maybeCompacted 4096
          have hpl : plaintext.length ≤ n := by
            refine Nat.le_trans hplain ?_
            rw [List.length_drop, List.length_take]
            omega
          have hle := records.size_le hn
          cases he : (conn.plaintextReadBuf.maybeCompact 4096).extendFromSlice plaintext
          case none =>
            refine .inr ?_
            have hr := SlideBuffer.extendFromSlice_eq_none_iff.mp he
            have hcap : (conn.plaintextReadBuf.maybeCompact 4096).data.length = plaintextReadBufCapacity :=
              hm.capacity.trans h.sizes.2
            have hend := hm.end_
            rw [SlideBuffer.remainingCapacity, hcap] at hr
            rw [Overflows]
            omega
          case some pb =>
            have hext := SlideBuffer.extended he
            refine hagain pb plaintext (hext.capacity.trans hm.capacity) (hext.asSlice.trans (by rw [hm.asSlice])) ?_ hdrain
            have hend := hm.end_
            rw [hext.end_, List.length_drop]
            omega
        case neg =>
          rw [if_neg hdata]
          rw [Session.acceptData, if_neg hdata] at hdrain
          by_cases halert : contentType = contentTypeAlert
          case neg =>
            rw [if_neg halert]
            rw [if_neg halert] at hdrain
            have hdrain := hdrain.trans (drain_of_not_live (by rfl) _)
            exact .inl (by rw [hdrain])
          case pos =>
            rw [if_pos halert]
            rw [if_pos halert] at hdrain
            match plaintext with
            | [] =>
              exact hskip hdrain
            | [_] =>
              exact hskip hdrain
            | level :: desc :: _ =>
              dsimp only
              simp only [Session.acceptAlert] at hdrain
              by_cases hclose : desc = alertDescCloseNotify
              case pos =>
                rw [if_pos hclose]
                rw [if_pos hclose] at hdrain
                have hdrain := hdrain.trans (drain_of_not_live (by rfl) _)
                have hsim := h.toSim.received hc hp hcap' rfl (List.append_nil _).symm read' true
                rw [List.append_nil] at hsim
                exact ⟨_, _, hdrain, .inr ⟨⟨hsim.phase, hsim.plaintext, hsim.fatal, hsim.sizes⟩, rfl, rfl⟩⟩
              case neg =>
                rw [if_neg hclose]
                rw [if_neg hclose] at hdrain
                by_cases hwarn : level ≠ alertLevelWarning
                case pos =>
                  rw [if_pos hwarn]
                  rw [if_pos hwarn] at hdrain
                  have hdrain := hdrain.trans (drain_of_not_live (by rfl) _)
                  exact ⟨by rw [hdrain]; rfl, h.fatal⟩
                case neg =>
                  rw [if_neg hwarn]
                  rw [if_neg hwarn] at hdrain
                  exact hskip hdrain

-- The outcome of a step of the handshake: it fails, has to wait, or leads to a session with fewer bytes to come.
def StepOutcome (C : Crypto) (g : Ghost) (s : Session) (more : List UInt8) (conn : RealityClientConnection) :
    Option (Result Bool) → Prop
  | none                      => False
  | some (.error e, conn')    => (s.drain C more).1.status = .failed e ∧ conn'.fatalError = none
  | some (.ok false, conn')   => Settled C g s more conn' ∧ conn'.plaintextReadBuf = conn.plaintextReadBuf
  | some (.ok true, conn')    => ∃ s' more', s.drain C more = s'.drain C more' ∧ Live C g conn' s' more' ∧
      more'.length < more.length ∧ conn'.plaintextReadBuf = conn.plaintextReadBuf

theorem StepOutcome.of_drain {s' : Session} {more' : List UInt8} {r : Option (Result Bool)}
    (h : StepOutcome C g s' more' conn' r) (hd : s.drain C more = s'.drain C more') (hlt : more'.length < more.length)
    (hplain : conn'.plaintextReadBuf = conn.plaintextReadBuf) : StepOutcome C g s more conn r := by
  match r with
  | none                    => exact h
  | some (.error e, _)      => exact ⟨by rw [hd]; exact h.1, h.2⟩
  | some (.ok false, _)     => exact ⟨h.1.of_drain hd, h.2.trans hplain⟩
  | some (.ok true, conn'') =>
    obtain ⟨s₁, more₁, hd₁, hl, hlt₁, hp⟩ := h
    exact ⟨s₁, more₁, hd.trans hd₁, hl, Nat.lt_trans hlt₁ hlt, hp.trans hplain⟩

theorem stepOutcome_failed {e : Error} {s' : Session} {more' : List UInt8} (hd : s.drain C more = s'.drain C more')
    (hs : s'.status = .failed e) (hf : conn'.fatalError = none) :
    StepOutcome C g s more conn (some (.error e, conn')) := by
  rw [drain_failed hs] at hd
  exact ⟨by rw [hd]; exact hs, hf⟩

theorem step_hello {a : AwaitingServerHello} (hp : s.phase = .hello a) (record : List UInt8) :
    s.step C record =
      match acceptServerHello C a record with
      | .ok p    => { s with phase := .handshake p }
      | .error e => s.fail e := by
  rw [Session.step, hp]

theorem step_handshake {p : ProcessingHandshake} (hp : s.phase = .handshake p) (record : List UInt8) :
    s.step C record = s.stepHandshake C p record := by
  rw [Session.step, hp]

theorem processServerHello_spec {a : AwaitingServerHello} (h : Live C g conn s more) (hp : s.phase = .hello a) :
    StepOutcome C g s more conn (conn.processServerHello C a) := by
  obtain ⟨⟨hphase, hplain, hfatal, hsizes⟩, hlive, hopen, hbuf⟩ := id h
  rw [hp] at hphase
  rw [processServerHello, wholeRecord_eq, hbuf]
  cases hn : records.size more
  case none => exact ⟨settled_of_size_eq_none h hn, rfl⟩
  case some n =>
    have hdrain := drain_of_size (C := C) hlive hn
    have hcon := conn.ciphertextReadBuf.consumed n
    have hslice : (conn.ciphertextReadBuf.consume n).asSlice = more.drop n := hbuf ▸ hcon.asSlice
    dsimp only
    cases ha : acceptServerHello C a (more.take n)
    case error e =>
      rw [step_hello hp, ha] at hdrain
      exact stepOutcome_failed hdrain rfl hfatal
    case ok p =>
      rw [step_hello hp, ha] at hdrain
      refine ⟨_, _, hdrain, ?_, length_drop_lt hn, rfl⟩
      exact ⟨⟨⟨rfl, hphase.2⟩, hplain, hfatal, hcon.capacity.trans hsizes.1, hsizes.2⟩, hlive, hopen, hslice⟩

theorem processEncryptedHandshake_spec {p : ProcessingHandshake} (h : Live C g conn s more)
    (hp : s.phase = .handshake p) (ht : more.length ≤ turns) :
    StepOutcome C g s more conn (conn.processEncryptedHandshake C p turns) := by
  induction turns generalizing conn more
  case zero =>
    have hnil : more = [] := List.eq_nil_of_length_eq_zero (Nat.le_zero.mp ht)
    exact ⟨settled_of_size_eq_none h (by rw [hnil]; rfl), rfl⟩
  case succ turns hi =>
    obtain ⟨⟨hphase, hplain, hfatal, hsizes⟩, hlive, hopen, hbuf⟩ := id h
    rw [hp] at hphase
    rw [processEncryptedHandshake, wholeRecord_eq, hbuf]
    cases hn : records.size more
    case none => exact ⟨settled_of_size_eq_none h hn, rfl⟩
    case some n =>
      have hlt := length_drop_lt hn
      have hdrain := drain_of_size (C := C) hlive hn
      have hcon := conn.ciphertextReadBuf.consumed n
      have hslice : (conn.ciphertextReadBuf.consume n).asSlice = more.drop n := hbuf ▸ hcon.asSlice
      rw [step_handshake hp, Session.stepHandshake] at hdrain
      dsimp only at hdrain ⊢
      by_cases hccs : (more.take n).headD 0 = contentTypeChangeCipherSpec
      case pos =>
        rw [if_pos hccs] at hdrain ⊢
        have hnext : Live C g { conn with ciphertextReadBuf := conn.ciphertextReadBuf.consume n } s (more.drop n) := by
          refine ⟨⟨?_, hplain, hfatal, hcon.capacity.trans hsizes.1, hsizes.2⟩, hlive, hopen, hslice⟩
          rw [hp]
          exact hphase
        exact (hi hnext (by omega)).of_drain hdrain hlt rfl
      case neg =>
        rw [if_neg hccs] at hdrain ⊢
        by_cases happ : (more.take n).headD 0 ≠ contentTypeApplicationData
        case pos =>
          rw [if_pos happ] at hdrain ⊢
          exact stepOutcome_failed hdrain rfl hfatal
        case neg =>
          rw [if_neg happ] at hdrain ⊢
          cases ha : acceptRecord C p ((more.take n).drop tlsRecordHeaderSize)
          case error e =>
            rw [ha] at hdrain
            exact stepOutcome_failed hdrain rfl hfatal
          case ok p' =>
            rw [ha] at hdrain
            dsimp only [ofExcept] at hdrain ⊢
            by_cases hfound : p'.messagesFound < 4
            case pos =>
              rw [if_pos hfound] at hdrain ⊢
              refine ⟨_, _, hdrain, ?_, hlt, rfl⟩
              exact ⟨⟨⟨rfl, hphase.2⟩, hplain, hfatal, hcon.capacity.trans hsizes.1, hsizes.2⟩, hlive, hopen, hslice⟩
            case neg =>
              rw [if_neg hfound] at hdrain ⊢
              obtain ⟨e, conn', hs, hf, he⟩ | ⟨c, finished, hs, hiv, hz, hf⟩ :=
                finish_spec (C := C) { conn with ciphertextReadBuf := conn.ciphertextReadBuf.consume n } p'
              case inl =>
                rw [hs] at hdrain
                rw [hf]
                exact stepOutcome_failed hdrain rfl (he.trans hfatal)
              case inr =>
                rw [hs] at hdrain
                rw [hf]
                refine ⟨_, _, hdrain, ?_, hlt, rfl⟩
                obtain ⟨hwire, hacc, hsilent⟩ := hphase.2
                refine ⟨⟨⟨c, rfl, rfl, hiv, [], [], [], [], .nil _, .nil, ?_, ?_, hacc⟩, hplain, hfatal,
                  hcon.capacity.trans hsizes.1, hsizes.2⟩, hlive, hopen, hslice⟩
                case refine_1 => rw [List.append_nil, ← hwire, List.append_assoc]
                case refine_2 =>
                  rw [hsilent]
                  exact .nil

-- The outcome of all that can be done with what is in the buffer.
def Outcome (C : Crypto) (g : Ghost) (s : Session) (more : List UInt8) (conn : RealityClientConnection) :
    Option (Result Nat) → Prop
  | none                   => (s.drain C more).1.status = .panicked ∨ Overflows conn more
  | some (.error e, conn') => (s.drain C more).1.status = .failed e ∧ conn'.fatalError = none
  | some (.ok n, conn')    => Settled C g s more conn' ∧ n = conn'.plaintextReadBuf.len

theorem Outcome.of_drain {s' : Session} {more' : List UInt8} {r : Option (Result Nat)} (h : Outcome C g s' more' conn' r)
    (hd : s.drain C more = s'.drain C more') (hlt : more'.length < more.length)
    (hplain : conn'.plaintextReadBuf = conn.plaintextReadBuf) : Outcome C g s more conn r := by
  match r with
  | none =>
    refine Or.imp (fun hs => ?_) (fun ho => ?_) h
    case refine_1 =>
      rw [hd]
      exact hs
    case refine_2 =>
      rw [Overflows, hplain] at ho
      rw [Overflows]
      omega
  | some (.error e, _) => exact ⟨by rw [hd]; exact h.1, h.2⟩
  | some (.ok n, _)    => exact ⟨h.1.of_drain hd, h.2⟩

theorem processNewPacketsInner_spec (h : Live C g conn s more) (ht : more.length < turns) :
    Outcome C g s more conn (conn.processNewPacketsInner C turns) := by
  induction turns generalizing conn s more
  case zero => exact absurd ht (Nat.not_lt_zero _)
  case succ turns hi =>
    -- What a step of the handshake leads to.
    have hagain : ∀ r : Option (Result Bool), StepOutcome C g s more conn r →
        Outcome C g s more conn (match r with
          | none                   => none
          | some (.error e, conn)  => some (.error e, conn)
          | some (.ok false, conn) => some (.ok conn.plaintextReadBuf.len, conn)
          | some (.ok true, conn)  => processNewPacketsInner C conn turns) := by
      intro r hr
      match r with
      | none                   => exact hr.elim
      | some (.error e, _)     => exact hr
      | some (.ok false, _)    => exact ⟨hr.1, rfl⟩
      | some (.ok true, conn') =>
        obtain ⟨s', more', hd, hl, hlt, hp⟩ := hr
        exact (hi hl (by omega)).of_drain hd hlt hp
    have hphase := h.phase
    have hlen : conn.ciphertextReadBuf.len = more.length := by rw [← h.buffer, SlideBuffer.length_asSlice]
    rw [processNewPacketsInner, hlen]
    cases hp : s.phase
    case hello a =>
      rw [hp] at hphase
      rw [hphase.1]
      exact hagain _ (processServerHello_spec h hp)
    case handshake p =>
      rw [hp] at hphase
      rw [hphase.1]
      exact hagain _ (processEncryptedHandshake_spec h hp (Nat.le_refl _))
    case established c₀ finished read =>
      rw [hp] at hphase
      obtain ⟨c, hc, hread, _⟩ := hphase
      rw [hc]
      have hd := processApplicationData_spec h hc hp hread (Nat.le_refl more.length)
      dsimp only
      match hr : conn.processApplicationData C c more.length with
      | none               => rw [hr] at hd; exact hd
      | some (.error e, _) => rw [hr] at hd; exact hd
      | some (.ok (), _)   => rw [hr] at hd; exact ⟨hd, rfl⟩

-- A fatal error is remembered, and nothing else is known of the connection after an error.
def Processed (C : Crypto) (g : Ghost) (s : Session) (more : List UInt8) (conn : RealityClientConnection) :
    Option (Result Nat) → Prop
  | none                   => (s.drain C more).1.status = .panicked ∨ Overflows conn more
  | some (.error e, conn') => (s.drain C more).1.status = .failed e ∧
      conn'.fatalError = if isFatal e.kind then some e.kind else none
  | some (.ok n, conn')    => Settled C g s more conn' ∧ n = conn'.plaintextReadBuf.len

theorem processNewPackets_spec (h : Live C g conn s more) : Processed C g s more conn (conn.processNewPackets C) := by
  have hlen : conn.ciphertextReadBuf.len = more.length := by rw [← h.buffer, SlideBuffer.length_asSlice]
  have hi := processNewPacketsInner_spec h (Nat.lt_succ_self more.length)
  rw [processNewPackets, h.fatal, h.open_, hlen]
  dsimp only
  rw [if_neg Bool.false_ne_true]
  match hr : conn.processNewPacketsInner C (more.length + 1) with
  | none                   => rw [hr] at hi; exact hi
  | some (.ok n, _)        => rw [hr] at hi; exact hi
  | some (.error e, conn') =>
    rw [hr] at hi
    refine ⟨hi.1, ?_⟩
    split
    case isTrue  => rfl
    case isFalse => exact hi.2

end Calls
end JammVpn.Reality
