import JammVpn.Net.Theorems.RealityFlight

-- A connection from the hello on: what comes of what it receives, what it sends, when it panics, and whom it trusts.
namespace JammVpn.Reality

open Bytes Framed Machine
open RealityClientConnection (newCipher)

namespace Answer

variable {C : Crypto} {a : AwaitingServerHello} {A : Answer C a} {m : Memory} {cfg : RealityClientConfig} {e : Entropy}
  {conn : RealityClientConnection} {pieces : List (List UInt8)}

theorem begin_eq (ha : conn.handshakeState = .awaitingServerHello a) : Session.begin_ conn = begin_ a := by
  rw [Session.begin_, ha]
  rfl

-- In whatever pieces it comes in, all that has come of the stream is served.
theorem Stream.exists_run (S : A.Stream) (hnew : RealityClientConnection.new C m cfg e = .ok conn)
    (ha : conn.handshakeState = .awaitingServerHello a) (hp : pieces.flatten <+: S.bytes)
    (hl : ∀ piece ∈ pieces, piece.length ≤ tlsMaxRecordSize) :
    ∃ r, Machine.run (Run.step C) (Run.begin_ conn) (deliver pieces) = some r ∧
      Served S conn.ciphertextWriteBuf r ∧ r.received = pieces.flatten := by
  have ht := begin_eq ha ▸ Run.tracks_begin hnew
  obtain ⟨hcipher, hplain⟩ := Run.new_buffers hnew
  have hserved : Served S conn.ciphertextWriteBuf (Run.begin_ conn) := by
    refine ⟨⟨_, ht⟩, ?_, ?_, List.nil_prefix, fun hnil => ?_, rfl, rfl⟩
    case refine_1 => exact hplain ▸ SlideBuffer.asSlice_new _
    case refine_2 => exact hcipher ▸ (by decide : 0 < tlsMaxRecordSize)
    case refine_3 =>
      have hlen := congrArg List.length hnil
      rw [Stream.bytes, helloRecord, List.append_assoc, List.append_assoc, List.append_assoc, List.length_append,
        length_writeRecordHeader] at hlen
      have hzero : (Run.begin_ conn).received.length = 0 := rfl
      omega
  exact S.run_deliver hserved hp hl

def zeroAnswer (a : AwaitingServerHello) : Answer zeroCrypto a where
  random := List.replicate 32 0
  sessionId := []
  publicKey := List.replicate 32 0
  suite := .aes128GcmSha256
  shared := List.replicate 32 0
  keys := ⟨List.replicate 32 0, List.replicate 32 0, List.replicate 32 0⟩
  certDer := []
  certKey := List.replicate 32 0
  signingKey := []
  verifyData := []
  length_random := rfl
  length_sessionId := by decide
  length_publicKey := rfl
  length_shared := rfl
  length_certDer := by decide
  length_certKey := rfl
  length_hmac := rfl
  length_verifyData := by decide
  agree := rfl
  derived := rfl
  certified := rfl
  signed _ := ⟨rfl, rfl⟩

theorem newCipher_zeroCrypto :
    newCipher zeroCrypto .aes128GcmSha256 (List.replicate 32 0) = .ok RecordCipher.zeroCipher :=
  rfl

-- All messages in one record, and one record of data.
def zeroStream (a : AwaitingServerHello) : (zeroAnswer a).Stream where
  changes := 1
  groups := [4]
  cipher := RecordCipher.zeroCipher
  spent := RecordCipher.zeroCipher.next
  sealed := [(zeroAnswer a).messages.flatten ++ [contentTypeHandshake]]
  flight := RecordCipher.zeroCipher.record zeroCrypto.aead ((zeroAnswer a).messages.flatten ++ [contentTypeHandshake])
  keys := ⟨RecordCipher.zeroCipher, RecordCipher.zeroCipher, .aes128GcmSha256⟩
  read := RecordCipher.zeroCipher.next
  content := [[1, 2, 3]]
  inners := [[1, 2, 3, contentTypeApplicationData]]
  wire := RecordCipher.zeroCipher.record zeroCrypto.aead [1, 2, 3, contentTypeApplicationData]
  cuts := .last (by decide) rfl
  cipher_ok := newCipher_zeroCrypto
  flight_sealed := .single (Nat.le_of_ble_eq_true rfl) (by decide)
  flight_holds := .cons (RecordCipher.holds_concat rfl _) .nil
  keys_ok := by with_unfolding_all rfl
  data_sealed := .single (by decide) (by decide)
  data_holds := .cons (RecordCipher.holds_concat rfl [1, 2, 3]) .nil

-- The bytes come in pieces as long as what is read at once.
def zeroPieces (bs : List UInt8) : List (List UInt8) :=
  chunks 16384 bs

theorem flatten_zeroPieces (bs : List UInt8) :
    (zeroPieces bs).flatten = bs ∧ ∀ piece ∈ zeroPieces bs, piece.length ≤ tlsMaxRecordSize := by
  refine ⟨flatten_chunks (by decide) bs, fun piece hm => ?_⟩
  obtain ⟨i, _, rfl⟩ := List.mem_map.mp hm
  exact Nat.le_trans (length_piece_le _ _ _) (by decide)

theorem exists_awaiting : ∃ conn a, RealityClientConnection.new zeroCrypto zeroMemory zeroConfig zeroEntropy = .ok conn ∧
    conn.handshakeState = .awaitingServerHello a := by
  obtain ⟨conn, hnew⟩ := exists_new
  obtain ⟨_, _, hstate⟩ := bind_eq_ok hnew
  cases hstate
  exact ⟨_, _, hnew, rfl⟩

-- A run in which all of the stream has been delivered.
theorem exists_zeroRun : ∃ conn a r,
    RealityClientConnection.new zeroCrypto zeroMemory zeroConfig zeroEntropy = .ok conn ∧
      conn.handshakeState = .awaitingServerHello a ∧
      Machine.run (Run.step zeroCrypto) (Run.begin_ conn) (Stream.deliver (zeroPieces (zeroStream a).bytes)) = some r ∧
        Stream.Served (zeroStream a) conn.ciphertextWriteBuf r ∧ r.received = (zeroStream a).bytes := by
  obtain ⟨conn, a, hnew, ha⟩ := exists_awaiting
  obtain ⟨hall, hl⟩ := flatten_zeroPieces (zeroStream a).bytes
  obtain ⟨r, hr, hserved, hreceived⟩ := (zeroStream a).exists_run hnew ha ⟨[], (List.append_nil _).trans hall⟩ hl
  exact ⟨conn, a, r, hnew, ha, hr, hserved, hreceived.trans hall⟩

-- Data is sent behind the handshake, and that nothing more comes.
def farewell : List Op :=
  [.write [5, 6], .closeNotify, .writeTls List.length]

theorem exists_farewell : ∃ conn a r c,
    RealityClientConnection.new zeroCrypto zeroMemory zeroConfig zeroEntropy = .ok conn ∧
      Machine.run (Run.step zeroCrypto) (Run.begin_ conn)
        (Stream.deliver (zeroPieces (zeroStream a).bytes) ++ farewell) = some r ∧
      r.accepted = [5, 6] ∧ r.notified = 1 ∧ r.conn.handshakeState = .complete c := by
  obtain ⟨conn, a, r, hnew, _, hr, hserved, hreceived⟩ := exists_zeroRun
  obtain ⟨s, ht⟩ := hserved.tracks
  obtain ⟨c, hc, hiv, hseq⟩ := hserved.complete hreceived
  obtain ⟨hacc, hsilent⟩ := hserved.silent
  have hnil := Run.plaintextWriteBuf_of_accepted ht hacc
  have ht₁ := ht.write [5, 6]
  have hc₁ : (r.conn.write [5, 6]).handshakeState = .complete c := hc
  obtain ⟨out, hclose⟩ := exists_sendCloseNotify (C := zeroCrypto) hc₁ hiv (by rw [hseq]; decide)
  have ht₂ := ht₁.closeNotify hclose
  have hnext : c.write.next.seq = 1 := by rw [RecordCipher.next, hseq]
  have hample : Run.Ample s { r.conn.write [5, 6] with
      handshakeState := .complete { c with write := c.write.next }, ciphertextWriteBuf := out } := by
    refine fun _ _ _ _ => .inr ⟨?_, ?_⟩
    case refine_1 =>
      show (r.conn.plaintextWriteBuf ++ [5, 6]).length ≤ maxTlsPlaintextLen
      rw [hnil]
      decide
    case refine_2 =>
      rw [canNotify_eq (c := { c with write := c.write.next }) rfl, hnext]
      decide
  obtain ⟨bs, conn₃, hw⟩ := Run.exists_writeTls ht₂ hample List.length
  have hphase := (ht₂.writeTls hw).1.phase
  obtain ⟨c₀, finished, read, hp⟩ := (isHandshaking_eq_false_iff ht).mp (hserved.all hreceived).1
  rw [hp] at hphase
  obtain ⟨c₃, hc₃, _⟩ := hphase
  have hnotified : r.notified + (canNotify (r.conn.write [5, 6])).toNat = 1 := by
    rw [hsilent, canNotify_eq hc₁, hseq]
    rfl
  have hrun : Machine.run (Run.step zeroCrypto) r farewell = some { r with
      conn := conn₃, accepted := r.accepted ++ [5, 6], wire := r.wire ++ bs, notified := 1 } := by
    simp only [farewell, Machine.run, Run.step, hclose, hw, hnotified, Option.bind_eq_bind, Option.bind_some,
      Option.pure_def]
  refine ⟨conn, a, { r with conn := conn₃, accepted := r.accepted ++ [5, 6], wire := r.wire ++ bs, notified := 1 }, c₃,
    hnew, ?_, congrArg (· ++ [5, 6]) hacc, rfl, hc₃⟩
  rw [Machine.run_append, hr]
  exact hrun

end Answer
namespace Run

variable {C : Crypto} {m : Memory} {cfg : RealityClientConfig} {e : Entropy} {conn : RealityClientConnection}
  {ops : List Op} {r : Run}

-- What goes out and waits to is the hello before there are keys. Then it is what a server that has the keys finds all
-- data in, and as many notifications as have been asked for.
theorem sent_of_run (hnew : RealityClientConnection.new C m cfg e = .ok conn)
    (hr : Machine.run (step C) (begin_ conn) ops = some r) :
    Sends C conn.ciphertextWriteBuf r ((Session.begin_ conn).drain C r.received).1 r.conn.handshakeState := by
  obtain ⟨s, h⟩ := (tracks_begin hnew).run hr
  exact h.sends

theorem sent_of_zeros : ∃ conn a r c,
    RealityClientConnection.new zeroCrypto zeroMemory zeroConfig zeroEntropy = .ok conn ∧
      Machine.run (step zeroCrypto) (begin_ conn)
        (Answer.Stream.deliver (Answer.zeroPieces (Answer.zeroStream a).bytes) ++ Answer.farewell) = some r ∧
      r.accepted = [5, 6] ∧ r.notified = 1 ∧ r.conn.handshakeState = .complete c ∧
      Sends zeroCrypto conn.ciphertextWriteBuf r ((Session.begin_ conn).drain zeroCrypto r.received).1 (.complete c) := by
  obtain ⟨conn, a, r, c, hnew, hr, hacc, hnotified, hc⟩ := Answer.exists_farewell
  have hsends := sent_of_run hnew hr
  rw [hc] at hsends
  exact ⟨conn, a, r, c, hnew, hr, hacc, hnotified, hc, hsends⟩

-- The calls that panic: one that is given more than the buffer can hold, and one that has to process a message of a
-- handshake that is over. What has been processed leaves room for as much as a record takes, unless it is the
-- beginning of a longer one or the server has closed.
theorem panics_of_run (hnew : RealityClientConnection.new C m cfg e = .ok conn)
    (hr : Machine.run (step C) (begin_ conn) ops = some r) :
    (∀ data, r.conn.feed data = none ↔ ciphertextReadBufCapacity < r.conn.ciphertextReadBuf.len + data.length) ∧
      (r.conn.plaintextReadBuf.asSlice = [] → (r.conn.processNewPackets C = none ↔
        ((Session.begin_ conn).drain C r.received).1.status = .panicked)) ∧
      (∀ n conn data, r.conn.processNewPackets C = some (.ok n, conn) → conn.receivedCloseNotify = false →
        recordLen conn.ciphertextReadBuf.asSlice ≤ maxTlsCiphertextLen → data.length ≤ tlsMaxRecordSize →
          conn.feed data ≠ none) ∧
      (∀ writer, r.conn.writeTls C writer ≠ none) ∧ r.conn.sendCloseNotify C ≠ none := by
  obtain ⟨s, h⟩ := (tracks_begin hnew).run hr
  have hcap := h.sizes.1
  refine ⟨fun data => ?_, h.processNewPackets_eq_none_iff, fun n conn₁ data hp hopen hlen hdata hnone => ?_,
    fun writer => ?_, sendCloseNotify_ne_none h.toSim⟩
  case refine_1 => rw [feed_eq_none_iff, hcap]
  case refine_2 =>
    have hlt := h.lt_of_process hp hopen
    have hover := feed_eq_none_iff.mp hnone
    have hcap₁ : conn₁.ciphertextReadBuf.capacity = ciphertextReadBufCapacity := (h.processed hp).1.sizes.1
    rw [hcap₁, ciphertextReadBufCapacity] at hover
    rw [tlsMaxRecordSize] at hdata hover
    omega
  case refine_3 =>
    have hne := encryptPending_ne_none h.toSim
    rw [RealityClientConnection.writeTls]
    split
    case h_1 hn => exact absurd hn hne
    case h_2    => exact Option.some_ne_none _
    case h_3    => exact Option.some_ne_none _

-- After the handshake, with nothing left to be read.
theorem panics_of_zeros : ∃ conn a r,
    RealityClientConnection.new zeroCrypto zeroMemory zeroConfig zeroEntropy = .ok conn ∧
      Machine.run (step zeroCrypto) (begin_ conn)
        (Answer.Stream.deliver (Answer.zeroPieces (Answer.zeroStream a).bytes)) = some r ∧
      r.received = (Answer.zeroStream a).bytes ∧ r.delivered = [1, 2, 3] ∧
      (∀ data, r.conn.feed data = none ↔ ciphertextReadBufCapacity < r.conn.ciphertextReadBuf.len + data.length) ∧
      (r.conn.processNewPackets zeroCrypto = none ↔
        ((Session.begin_ conn).drain zeroCrypto r.received).1.status = .panicked) ∧
      (∀ writer, r.conn.writeTls zeroCrypto writer ≠ none) ∧ r.conn.sendCloseNotify zeroCrypto ≠ none := by
  obtain ⟨conn, a, r, hnew, _, hr, hserved, hreceived⟩ := Answer.exists_zeroRun
  obtain ⟨hfeed, hprocess, _, hwrite, hclose⟩ := panics_of_run hnew hr
  exact ⟨conn, a, r, hnew, hr, hreceived, (hserved.all hreceived).2, hfeed, hprocess hserved.nothing, hwrite, hclose⟩

end Run

variable {C : Crypto} {m : Memory} {cfg : RealityClientConfig} {e : Entropy} {conn : RealityClientConnection}
  {ops : List Op} {r : Run}

-- However the run goes, no data of the application is delivered unless the server is known, and what is sent and
-- received is under keys that come from the messages it has signed.
theorem authenticated_of_run (hnew : RealityClientConnection.new C m cfg e = .ok conn)
    (hr : Machine.run (Run.step C) (Run.begin_ conn) ops = some r) :
    ∃ hello shared, performEcdh C e.privateKey cfg.publicKey = .ok shared ∧
      conn.ciphertextWriteBuf = writeRecordHeader contentTypeHandshake hello.length ++ hello ∧
      Guards C ⟨hello, e.privateKey, deriveAuthKey C shared (e.clientRandom.take 20) (Utf8.encode "REALITY".toList)⟩
        conn.ciphertextWriteBuf r r.conn.handshakeState := by
  obtain ⟨s, h⟩ := (Run.tracks_begin hnew).run hr
  obtain ⟨⟨hello, authKey⟩, hgen, hnew⟩ := bind_eq_ok hnew
  cases hnew
  obtain ⟨shared, hecdh, hgen⟩ := bind_eq_ok hgen
  obtain ⟨_, _, hgen⟩ := bind_eq_ok hgen
  cases hgen
  exact ⟨_, shared, hecdh, rfl, h.guards ⟨rfl, rfl⟩⟩

theorem authenticated_of_zeros : ∃ conn a r c,
    RealityClientConnection.new zeroCrypto zeroMemory zeroConfig zeroEntropy = .ok conn ∧
      Machine.run (Run.step zeroCrypto) (Run.begin_ conn)
        (Answer.Stream.deliver (Answer.zeroPieces (Answer.zeroStream a).bytes)) = some r ∧
      r.delivered = [1, 2, 3] ∧ r.conn.handshakeState = .complete c ∧
      ∃ hello shared, performEcdh zeroCrypto zeroEntropy.privateKey zeroConfig.publicKey = .ok shared ∧
        conn.ciphertextWriteBuf = writeRecordHeader contentTypeHandshake hello.length ++ hello ∧
        Guards zeroCrypto ⟨hello, zeroEntropy.privateKey, deriveAuthKey zeroCrypto shared
          (zeroEntropy.clientRandom.take 20) (Utf8.encode "REALITY".toList)⟩ conn.ciphertextWriteBuf r (.complete c) := by
  obtain ⟨conn, a, r, hnew, _, hr, hserved, hreceived⟩ := Answer.exists_zeroRun
  obtain ⟨c, hc, _⟩ := hserved.complete hreceived
  have hguards := authenticated_of_run hnew hr
  rw [hc] at hguards
  exact ⟨conn, a, r, c, hnew, hr, (hserved.all hreceived).2, hc, hguards⟩

end JammVpn.Reality
