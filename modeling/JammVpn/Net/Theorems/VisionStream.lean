import JammVpn.Net.Theorems.RealityAnswers
import JammVpn.Net.Theorems.VisionServe

-- A stream with padding in its records, whatever is called on it and in which order.
namespace JammVpn.Vision

open Bytes Machine PollIo Reality
open VisionUnpadder (Ends)

namespace VisionStream

section

variable {C : Crypto} {s : VisionStream} {k : Sink}

theorem decrypt_eq {record : List UInt8} {conn conn' : RealityClientConnection} {n : Nat}
    (hf : s.session.feed record = some conn) (hp : conn.processNewPackets C = some (.ok n, conn'))
    (hn : n = conn'.plaintextReadBuf.len) :
    ∃ b, s.decrypt C record = some (.ok conn'.plaintextReadBuf.asSlice,
        { s with session := { conn' with plaintextReadBuf := b } }) ∧
      b.asSlice = [] ∧ b.capacity = conn'.plaintextReadBuf.capacity := by
  obtain ⟨b, htake, hb⟩ := takePlaintext_eq { s with session := conn' }
  refine ⟨b, ?_, hb⟩
  subst hn
  rw [decrypt, feedAndProcess, hf]
  simp only [Option.bind_eq_bind, Option.bind_some, hp]
  exact htake

theorem nextRecords_single {d d' : TlsDeframer} {record : List UInt8} (h : d.nextRecord = (.ok (some record), d'))
    (hd : d'.nextRecord = (.ok none, d')) : d.nextRecords = (.ok [record], d') := by
  rw [TlsDeframer.nextRecords]
  split
  case h_1 he => cases h.symm.trans he
  case h_2 he => cases h.symm.trans he
  case h_3 he =>
    cases h.symm.trans he
    have hnone : d'.nextRecords = (.ok [], d') := by
      rw [TlsDeframer.nextRecords]
      split
      case h_1 he => cases hd.symm.trans he
      case h_3 he => cases hd.symm.trans he
      case h_2 he => cases hd.symm.trans he; rfl
    rw [hnone]
    rfl

def responseRecord : List UInt8 :=
  RecordCipher.zeroCipher.record zeroCrypto.aead (response ++ [contentTypeApplicationData])

theorem nextRecords_responseRecord :
    (TlsDeframer.new.feed responseRecord).nextRecords = (.ok [responseRecord], .new) :=
  nextRecords_single rfl rfl

theorem unpad_response : VisionUnpadder.new.unpad client (response.drop 2) =
    (.ok { content := [5], command := some .«end» }, ⟨.done, false⟩) := by
  show VisionUnpadder.new.unpad client (client ++ [1, 0, 1, 0, 0, 5]) = _
  rw [VisionUnpadder.unpad_new rfl]
  exact @VisionUnpadder.unpadLoop_end client true [] [] [5] [] ⟨by decide, by decide⟩

-- The record is read at once.
def responseSource : Source :=
  ⟨[.ready 99], responseRecord⟩

theorem decryptRest_new (s : VisionStream) : s.decryptRest C .new = some (.ok .new, s) := by
  have hnone : TlsDeframer.new.nextRecord = (.ok none, .new) := rfl
  rw [decryptRest]
  split
  case h_1 he => cases hnone.symm.trans he
  case h_2 he =>
    cases hnone.symm.trans he
    rfl
  case h_3 he => cases hnone.symm.trans he

-- The last block ends the padding, and its content is what is read next.
theorem exists_handlePaddedBytes (hd : s.outerReadDeframer = some .new) (hm : s.readMode = .paddingTls)
    (hu : s.readUnpadder = .new) (hpending : s.pendingRead = []) :
    ∃ s', s.handlePaddedBytes C client (response.drop 2) = some (.ok (), s') ∧ s'.readMode = .tls ∧
      s'.pendingRead = [5] := by
  rw [handlePaddedBytes, hu, unpad_response]
  dsimp only
  rw [handleCommand, hd]
  simp only [decryptRest_new, andThen]
  rw [if_pos (by decide : TlsDeframer.new.buffer.isEmpty = true), switchReadTo_eq (by exact hm)]
  exact ⟨_, rfl, rfl, congrArg (· ++ [5]) hpending⟩

theorem exists_pollRead {session conn conn' : RealityClientConnection} {n : Nat}
    (hf : session.feed responseRecord = some conn) (hp : conn.processNewPackets zeroCrypto = some (.ok n, conn'))
    (hn : n = conn'.plaintextReadBuf.len) (hdata : conn'.plaintextReadBuf.asSlice = response) (draws : Nat → Draw) :
    ∃ s, (newClient session draws).pollRead zeroCrypto client responseSource 3 = some (.ready [5], s, ⟨[], []⟩) := by
  obtain ⟨b, hdec, _⟩ :=
    @decrypt_eq zeroCrypto { newClient session draws with outerReadDeframer := some .new } _ _ _ _ hf hp hn
  have hresponse : (newClient session draws).pollReadVlessResponse zeroCrypto [.ready 99] responseRecord =
      some (.ready (response.drop 2), { newClient session draws with
        session := { conn' with plaintextReadBuf := b } }, ⟨[], []⟩) := by
    have htake : responseRecord.take (min (99 + 1) readLen) = responseRecord := rfl
    have hdrop : responseRecord.drop (min (99 + 1) readLen) = [] := rfl
    have hne : responseRecord.isEmpty = false := rfl
    simp only [newClient, hdata] at hdec
    rw [pollReadVlessResponse]
    simp only [htake, hdrop, hne, newClient, nextRecords_responseRecord, decryptAll, hdec, andThen, Bool.false_eq_true,
      if_false]
    rfl
  obtain ⟨s, hs, hmode, hread⟩ := @exists_handlePaddedBytes zeroCrypto { newClient session draws with
    session := { conn' with plaintextReadBuf := b }, vlessResponsePending := false } rfl rfl rfl rfl
  have hunpadded : s.pollReadUnpadded zeroCrypto ⟨[], []⟩ 3 =
      some (.ready [5], { s with pendingRead := [] }, ⟨[], []⟩) := by
    rw [pollReadUnpadded, hread, if_pos (by decide), servePending, hread]
    rfl
  have hempty : (newClient session draws).pendingRead.isEmpty = true := rfl
  have hpadded : (newClient session draws).readMode = .paddingTls := rfl
  have hstripped : (newClient session draws).vlessResponsePending = true := rfl
  rw [VisionStream.pollRead, if_neg (not_not.mpr hempty), if_neg (not_not.mpr hpadded), if_pos hstripped]
  simp only [responseSource, hresponse]
  rw [if_neg (by decide), hs]
  dsimp only
  rw [if_pos (.inr (by rw [hread]; decide)), hunpadded]
  exact ⟨_, rfl⟩

-- The stream below takes nothing now.
theorem drainAllWrites_eq {conn : RealityClientConnection} (hk : k.responses = [])
    (he : s.session.encryptPending C = some (.ok (), conn)) :
    ∃ p s', s.drainAllWrites C k = some (p, s', k) ∧ ∀ e, p ≠ .error e := by
  obtain ⟨responses, written⟩ := k
  cases hk
  rw [drainAllWrites, drainLoop]
  split
  case isTrue =>
    rw [writeTlsDirect, he]
    exact ⟨_, _, rfl, by intro e hp; cases hp⟩
  case isFalse => exact ⟨_, _, rfl, by intro e hp; cases hp⟩

theorem writeLoop_new {uuid : List UInt8} (existing len processed : Nat) :
    s.writeLoop C uuid .new k existing len processed = some (.ready len, { s with innerWriteDeframer := .new }, k) := by
  have hnone : FuzzyTlsDeframer.new.nextRecord = (.ok .needData, .new) := rfl
  rw [writeLoop]
  split
  case h_1 hn => cases hnone.symm.trans hn
  case h_2 hn =>
    cases hnone.symm.trans hn
    rfl
  case h_3 hn => cases hnone.symm.trans hn
  case h_4 hn => cases hnone.symm.trans hn

-- A block is made of two bytes that are no record.
theorem exists_pollWrite {uuid : List UInt8} (hm : s.writeMode = .paddingTls) (hd : s.innerWriteDeframer = .new)
    (hdirect : s.pendingDirectModeSwitch = false) (htls : s.pendingTlsModeSwitch = false)
    (hout : s.session.ciphertextWriteBuf = []) (hplain : s.session.plaintextWriteBuf = []) (hk : k.responses = [])
    (he : ∀ command isTls, ∃ conn,
      (s.session.write (s.padder.pad uuid [5, 6] command isTls).1).encryptPending C = some (.ok (), conn)) :
    ∃ s', s.pollWrite C uuid k [5, 6] = some (.ready 2, s', k) := by
  have hdrained : s.drainAllWrites C k = some (.ready (), s, k) := by
    rw [drainAllWrites, drainLoop, RealityClientConnection.wantsWrite, hout, hplain]
    rfl
  have hnext : (FuzzyTlsDeframer.new.feed [5, 6]).nextRecord = (.ok (.unknownPrefix [5, 6]), .new) := rfl
  have hblock (filter : VisionFilter) (d : FuzzyTlsDeframer) (tls : Bool) (command : UInt8) (isTls : Bool) :
      ∃ p s', writeBlock C uuid { s with filter, innerWriteDeframer := d, pendingTlsModeSwitch := tls } k [5, 6] command
        isTls = some (p, s', k) ∧ ∀ e, p ≠ .error e := by
    obtain ⟨conn, he⟩ := he command isTls
    exact @drainAllWrites_eq C _ k _ hk he
  rw [pollWrite, hm]
  dsimp only
  rw [pollWritePaddingTls, hdrained]
  dsimp only
  rw [hdirect, htls, if_neg Bool.false_ne_true, if_neg Bool.false_ne_true, hd, writeLoop]
  split
  case h_1 hn => cases hnext.symm.trans hn
  case h_2 hn => cases hnext.symm.trans hn
  case h_3 hn => cases hnext.symm.trans hn
  case h_4 hn =>
    cases hnext.symm.trans hn
    dsimp only
    split
    case isTrue =>
      obtain ⟨p, s', hw, hp⟩ := hblock s.filter.decrementFilterCount .new s.pendingTlsModeSwitch commandContinue
        s.filter.decrementFilterCount.isTls
      rw [hw]
      cases p
      case error e => exact absurd rfl (hp e)
      all_goals exact ⟨_, writeLoop_new _ _ _⟩
    case isFalse =>
      obtain ⟨p, s', hw, hp⟩ := hblock s.filter.decrementFilterCount FuzzyTlsDeframer.new.clear true commandEnd
        s.filter.decrementFilterCount.isTls
      rw [writeLast, hw]
      cases p
      case error e => exact absurd rfl (hp e)
      all_goals exact ⟨_, rfl⟩

end

end VisionStream

-- The stream between what is below it and the application.
structure Calls where
  stream    : VisionStream
  source    : Source
  sink      : Sink
  delivered : List UInt8
  accepted  : List UInt8

namespace Calls

open VisionStream

-- The connection is taken out of its stream.
def begin_ (c : Reality.Calls) (draws : Nat → Draw) : Calls where
  stream := .newClient c.stream.conn draws
  source := c.source
  sink := c.sink
  delivered := []
  accepted := []

-- There is no step where a call panics or reports an error.
def step (C : Crypto) (uuid : List UInt8) (c : Calls) : Call → Option Calls
  | .read want =>
    match c.stream.pollRead C uuid c.source want with
    | some (.ready bs, stream, source) => some { c with stream, source, delivered := c.delivered ++ bs }
    | some (.pending, stream, source)  => some { c with stream, source }
    | _                                => none
  | .write buf =>
    match c.stream.pollWrite C uuid c.sink buf with
    | some (.ready n, stream, sink) => some { c with stream, sink, accepted := c.accepted ++ buf.take n }
    | some (.pending, stream, sink) => some { c with stream, sink }
    | _                             => none
  | .flush =>
    match c.stream.pollFlush C c.sink with
    | none                   => none
    | some (.error _, _, _)  => none
    | some (_, stream, sink) => some { c with stream, sink }
  | .shutdown =>
    match c.stream.pollShutdown c.sink with
    | (.error _, _, _)  => none
    | (_, stream, sink) => some { c with stream, sink }

-- A block tells its length in two bytes, and more may have been kept from the writes before.
def Short : Call → Prop
  | .write buf => buf.length + (tlsRecordHeaderSize + maxTlsCiphertextLen) ≤ 65536
  | _          => True

variable {C : Crypto} {s₀ : Session} {hello uuid header before all received taken given wire raw : List UInt8}
  {c c' : Calls}

-- Both sides of the stream share its session.
structure Relays (C : Crypto) (s₀ : Session) (hello uuid header before all : List UInt8) (c : Calls) : Prop where
  eof  : c.stream.isReadEof = true → c.source.rest = []
  both : ∃ received taken given wire raw, before <+: received ∧ c.sink.written = wire ++ raw ∧
    Kept C s₀ hello ⟨c.stream.session, received, taken, header ++ given, wire, 0⟩ ∧
    Reads C s₀ uuid all received taken c.delivered c.source.rest c.stream ∧ Writes uuid c.stream given raw c.accepted

theorem Relays.delivers (h : Relays C s₀ hello uuid header before all c) : ∃ given wire raw,
    c.sink.written = wire ++ raw ∧ Writes uuid c.stream given raw c.accepted ∧
    VisionStream.Delivers C s₀ hello uuid before all (header ++ given) wire c.delivered c.source.rest c.stream := by
  obtain ⟨received, taken, given, wire, raw, hpre, hk, hkept, hreads, hwrites⟩ := h.both
  exact ⟨given, wire, raw, hk, hwrites, h.eof, received, taken, hpre, hkept, hreads⟩

theorem relays_of_delivers (hk : c.sink.written = wire ++ raw) (hw : Writes uuid c.stream given raw c.accepted)
    (hd : VisionStream.Delivers C s₀ hello uuid before all (header ++ given) wire c.delivered c.source.rest c.stream) :
    Relays C s₀ hello uuid header before all c := by
  obtain ⟨received, taken, hpre, hkept, hreads⟩ := hd.reads
  exact ⟨hd.eof, received, taken, given, wire, raw, hpre, hk, hkept, hreads, hw⟩

theorem Relays.accepts (h : Relays C s₀ hello uuid header before all c) : ∃ received taken, before <+: received ∧
    Reads C s₀ uuid all received taken c.delivered c.source.rest c.stream ∧
    Accepts C s₀ hello uuid header received taken c.accepted c.stream c.sink := by
  obtain ⟨received, taken, given, wire, raw, hpre, hk, hkept, hreads, hwrites⟩ := h.both
  exact ⟨received, taken, hpre, hreads, given, wire, raw, hk, hkept, hwrites⟩

theorem relays_of_accepts (heof : c.stream.isReadEof = true → c.source.rest = []) (hpre : before <+: received)
    (hr : Reads C s₀ uuid all received taken c.delivered c.source.rest c.stream)
    (ha : Accepts C s₀ hello uuid header received taken c.accepted c.stream c.sink) :
    Relays C s₀ hello uuid header before all c := by
  obtain ⟨given, wire, raw, hk, hkept, hwrites⟩ := ha
  exact ⟨heof, received, taken, given, wire, raw, hpre, hk, hkept, hr, hwrites⟩

-- A call that only writes.
theorem Relays.wrote (h : Relays C s₀ hello uuid header before all c) {stream : VisionStream} {sink : Sink}
    {accepted : List UInt8} (hread : stream.reading = c.stream.reading) (hpre : before <+: received)
    (hr : Reads C s₀ uuid all received taken c.delivered c.source.rest c.stream)
    (ha : Accepts C s₀ hello uuid header received taken accepted stream sink) :
    Relays C s₀ hello uuid header before all { c with stream, sink, accepted } := by
  have heof : stream.isReadEof = c.stream.isReadEof := by
    simp only [reading, Prod.mk.injEq] at hread
    exact hread.2.2.2.2.2.2.2
  exact relays_of_accepts (fun he => h.eof (heof.symm.trans he)) hpre (hr.congr hread) ha

theorem Relays.step (h : Relays C s₀ hello uuid header before all c) {call : Call} (hshort : Short call)
    (hs : Calls.step C uuid c call = some c') : Relays C s₀ hello uuid header before all c' := by
  cases call
  case read want =>
    obtain ⟨given, wire, raw, hk, hwrites, hdel⟩ := h.delivers
    have hserves := pollRead_spec hdel want
    rw [Calls.step] at hs
    split at hs
    case h_1 hr =>
      cases hs
      rw [hr] at hserves
      exact relays_of_delivers hk (hwrites.congr hserves.2.1) hserves.1
    case h_2 hr =>
      cases hs
      rw [hr] at hserves
      exact relays_of_delivers hk (hwrites.congr hserves.2) hserves.1
    case h_3 => cases hs
  case write buf =>
    rw [Calls.step] at hs
    obtain ⟨received, taken, hpre, hreads, haccepts⟩ := h.accepts
    have hwrote := pollWrite_spec haccepts hshort
    split at hs
    case h_1 hw =>
      cases hs
      rw [hw] at hwrote
      exact h.wrote hwrote.2 hpre hreads hwrote.1
    case h_2 hw =>
      cases hs
      rw [hw] at hwrote
      exact h.wrote hwrote.2 hpre hreads hwrote.1
    case h_3 => cases hs
  case flush =>
    rw [Calls.step] at hs
    obtain ⟨received, taken, hpre, hreads, haccepts⟩ := h.accepts
    have hflushed := pollFlush_spec haccepts
    split at hs
    case h_1 => cases hs
    case h_2 => cases hs
    case h_3 p stream sink hne hf =>
      cases hs
      rw [hf] at hflushed
      cases p
      case error e => exact absurd rfl (hne e)
      case pending => exact h.wrote hflushed.2.1 hpre hreads hflushed.1
      case ready   => exact h.wrote hflushed.2.1 hpre hreads hflushed.1
  case shutdown =>
    rw [Calls.step] at hs
    obtain ⟨received, taken, hpre, hreads, haccepts⟩ := h.accepts
    split at hs
    case h_1 => cases hs
    case h_2 hp =>
      cases hs
      cases hp
      exact h.wrote rfl hpre hreads haccepts.done

theorem Relays.calls (h : Relays C s₀ hello uuid header before all c) {calls : List Call}
    (hshort : ∀ call ∈ calls, Short call) (hr : Machine.run (Calls.step C uuid) c calls = some c') :
    Relays C s₀ hello uuid header before all c' := by
  induction calls generalizing c
  case nil =>
    cases hr
    exact h
  case cons call calls hi =>
    obtain ⟨hfirst, hrest⟩ := List.forall_mem_cons.mp hshort
    obtain ⟨c₁, hs, hr⟩ := run_cons hr
    exact hi (h.step hfirst hs) hrest hr

-- The stream begins where the stream of the connection has been left, with nothing read from it and nothing to flush.
theorem delivers_begin {c : Reality.Calls} (h : Reality.Calls.Mirrors C s₀ hello before all c received)
    (hdel : c.delivered = []) (hopen : c.notified = 0) (hflushed : c.stream.wbuf = []) (uuid : List UInt8)
    (draws : Nat → Draw) :
    VisionStream.Delivers C s₀ hello uuid before all c.accepted c.sink.written [] c.source.rest
      (.newClient c.stream.conn draws) := by
  have hkept := h.toKept
  rw [Reality.Calls.run, hdel, hopen, hflushed, List.append_nil] at hkept
  refine ⟨(fun hend => by cases hend), received, [], h.start, hkept, .response rfl rfl rfl ?_ rfl rfl rfl rfl ?_⟩
  case refine_1 =>
    rw [← h.rest]
    exact congrArg (· ++ _) (List.append_nil received)
  case refine_2 => rintro body ⟨_, _, _, he⟩; cases he

-- What has been delivered, or waits to be read, is made of the plaintext of the session, but for what it still has.
def Received (C : Crypto) (s₀ : Session) (uuid all received : List UInt8) (c : Calls) : Prop :=
  ∃ taken kept raw,
    taken ++ c.stream.session.plaintextReadBuf.asSlice = (s₀.drain C received).1.plaintext ∧
    received ++ kept ++ raw ++ c.source.rest = all ∧
    Made C s₀ uuid received taken raw (c.delivered ++ c.stream.pendingRead)

-- A server that has the keys finds the header and the padded blocks in the records, and all that has been taken from
-- the application in the blocks, behind the records, or still in the deframer.
def Sent (C : Crypto) (hello uuid header : List UInt8) (c : Calls) (s : Session) : Prop :=
  ∃ c₀ finished read st sealed parts data wire raw given r u, s.phase = .established c₀ finished read ∧
    c.stream.session.handshakeState = .complete st ∧ c.sink.written = wire ++ raw ∧
    wire ++ c.stream.session.ciphertextWriteBuf = hello ++ finished ++ sealed ∧
    Framed.drain records (RecordCipher.opener C.aead) ⟨c₀.write, [], none⟩ sealed = (⟨st.write, parts, none⟩, []) ∧
    Reality.Carries parts data 0 ∧ data ++ c.stream.session.plaintextWriteBuf = header ++ given ∧
    VisionUnpadder.new.unpad uuid given = (.ok r, u) ∧
    r.content ++ raw ++ c.stream.innerWriteDeframer.remainingData = c.accepted ∧
    (raw ≠ [] → (c.stream.session.ciphertextWriteBuf = [] ∧ c.stream.session.plaintextWriteBuf = []) ∧
      ∃ blocks last padding, given = blocks ++ block commandDirect last padding ∧ Fits last padding)

theorem emptied_of_raw {accepted : List UInt8} {s : VisionStream} (hw : Writes uuid s given raw accepted)
    (hne : raw ≠ []) : s.session.ciphertextWriteBuf = [] ∧ s.session.plaintextWriteBuf = [] := by
  cases hw
  case padding hraw _       => exact absurd hraw hne
  case announced hraw _ _ _ => exact absurd hraw hne
  case tls hraw _ _         => exact absurd hraw hne
  case direct hnone _ _     => exact hnone

theorem Relays.conserves (huuid : uuid.length = 16) (h : Relays C s₀ hello uuid header before all c) :
    ∃ received, before <+: received ∧ Received C s₀ uuid all received c ∧
      Sent C hello uuid header c (s₀.drain C received).1 := by
  obtain ⟨received, taken, given, wire, raw, hpre, hk, hkept, hreads, hwrites⟩ := h.both
  obtain ⟨kept, raw', hall, hmade⟩ := hreads.made huuid
  obtain ⟨r, u, hu, hacc, hdirect⟩ := unpad_writes huuid hwrites
  obtain ⟨st, hst⟩ := hkept.complete
  have hsends := hkept.tracks.sends
  dsimp only at hst hsends
  rw [hst] at hsends
  obtain ⟨c₀, finished, read, sealed, parts, data, hphase, hwire, hd, hcarries, hcontent⟩ := hsends
  refine ⟨received, hpre, ⟨taken, kept, raw', hkept.tracks.plaintext, hall, hmade⟩, ?_⟩
  exact ⟨c₀, finished, read, st, sealed, parts, data, wire, raw, given, r, u, hphase, hst, hk, hwire, hd, hcarries,
    hcontent, hu, hacc, fun hne => ⟨emptied_of_raw hwrites hne, hdirect hne⟩⟩

-- The end is only reported when nothing is left.
theorem Relays.ended (h : Relays C s₀ hello uuid header before all c) {want : Nat} (hne : want ≠ 0)
    {stream : VisionStream} {source : Source}
    (hr : c.stream.pollRead C uuid c.source want = some (.ready [], stream, source)) :
    source.rest = [] ∧ stream.pendingRead = [] ∧ stream.session.plaintextReadBuf.asSlice = [] := by
  obtain ⟨given, wire, raw, _, _, hdel⟩ := h.delivers
  have hserves := pollRead_spec hdel want
  rw [hr] at hserves
  exact hserves.2.2 hne rfl

theorem Relays.flushed (h : Relays C s₀ hello uuid header before all c) {stream : VisionStream} {sink : Sink}
    (hf : c.stream.pollFlush C c.sink = some (.ready (), stream, sink)) :
    stream.session.ciphertextWriteBuf = [] ∧ stream.session.plaintextWriteBuf = [] := by
  obtain ⟨_, _, _, _, haccepts⟩ := h.accepts
  have hflushed := pollFlush_spec haccepts
  rw [hf] at hflushed
  exact hflushed.2.2 rfl

-- A server that sends nothing behind its messages, and one that sends a response.
def quietStream (a : AwaitingServerHello) : (Answer.zeroAnswer a).Stream :=
  { Answer.zeroStream a with
    read := RecordCipher.zeroCipher
    content := []
    inners := []
    wire := []
    data_sealed := .nil _
    data_holds := .nil }

def responseStream (a : AwaitingServerHello) : (Answer.zeroAnswer a).Stream :=
  { Answer.zeroStream a with
    content := [response]
    inners := [response ++ [contentTypeApplicationData]]
    wire := responseRecord
    data_sealed := .single (by decide) (by decide : RecordCipher.zeroCipher.seq + 1 < 2 ^ 64)
    data_holds := .cons (RecordCipher.holds_concat rfl response) .nil }

theorem bytes_responseStream (a : AwaitingServerHello) :
    (quietStream a).bytes ++ responseRecord = (responseStream a).bytes := by
  rw [Answer.Stream.bytes, Answer.Stream.bytes]
  show _ ++ [] ++ responseRecord = _
  rw [List.append_nil]
  rfl

def noDraws : Nat → Draw :=
  fun _ => ⟨0, fun _ => 0⟩

theorem length_pad (command : UInt8) (isTls : Bool) :
    ((⟨noDraws, true⟩ : Padder).pad client [5, 6] command isTls).1.length ≤ maxTlsPlaintextLen := by
  have hl : calculatePaddingLength 0 2 isTls ≤ longPaddingMin := by cases isTls <;> decide
  simp only [Padder.pad, pad, noDraws, List.length_append, List.length_map, List.length_range]
  show 16 + 1 + 2 + 2 + 2 + calculatePaddingLength 0 2 isTls ≤ 16384
  rw [longPaddingMin] at hl
  omega

section ReadWrite

variable {a : AwaitingServerHello} {hello wire : List UInt8} {conn' : RealityClientConnection}

theorem exists_readResponse (hnil : conn'.plaintextReadBuf.asSlice = [])
    (h : Reality.Calls.Mirrors zeroCrypto (Answer.begin_ a) hello (quietStream a).bytes (responseStream a).bytes
      (.begin_ conn' wire [] responseSource) (quietStream a).bytes) :
    ∃ s, (newClient conn' noDraws).pollRead zeroCrypto client responseSource 3 = some (.ready [5], s, ⟨[], []⟩) := by
  have hbytes := bytes_responseStream a
  obtain ⟨conn₁, hf⟩ := (responseStream a).exists_feed h (by decide : responseRecord.length ≤ tlsMaxRecordSize)
  obtain ⟨b, hb, _⟩ := feed_spec hf
  obtain ⟨n, conn₂, hp, _, _, _, hall⟩ :=
    (responseStream a).processed (h.tracks.feed hf) (hbytes ▸ List.prefix_rfl) (by rw [hb]; exact hnil)
  obtain ⟨_, _, _, _, hn⟩ := h.toKept.processed hf hp
  exact exists_pollRead hf hp hn (hall hbytes).2 noDraws

-- What is written after the response has been read is taken.
theorem exists_writeTwo {s : VisionStream} (hwriting : s.writing = (newClient conn' noDraws).writing)
    (hout : conn'.ciphertextWriteBuf = []) (hplain : conn'.plaintextWriteBuf = [])
    (h : Delivers zeroCrypto (Answer.begin_ a) hello client (quietStream a).bytes (responseStream a).bytes [] wire [5] []
      s) : ∃ s', s.pollWrite zeroCrypto client ⟨[], wire⟩ [5, 6] = some (.ready 2, s', ⟨[], wire⟩) := by
  simp only [writing, Prod.mk.injEq] at hwriting
  obtain ⟨hout', hplain', hmode, hdeframer, hpadder, hdirect, htls⟩ := hwriting
  have hplain : s.session.plaintextWriteBuf = [] := hplain'.trans hplain
  obtain ⟨received, taken, _, hkept, hreads⟩ := h.reads
  obtain ⟨kept, raw, hreceived, _⟩ := hreads.made rfl
  have hcame : received <+: (responseStream a).bytes := by
    rw [← hreceived, List.append_assoc, List.append_assoc]
    exact List.prefix_append _ _
  obtain ⟨st, hst⟩ := hkept.complete
  obtain ⟨c, hc, _, hseq⟩ := (responseStream a).complete_of_silent hkept.tracks hcame
    (by rw [RealityClientConnection.isHandshaking, hst]) rfl rfl
  have hencrypts (command : UInt8) (isTls : Bool) : ∃ conn,
      (s.session.write (s.padder.pad client [5, 6] command isTls).1).encryptPending zeroCrypto = some (.ok (), conn) := by
    refine Run.exists_encryptPending (hkept.tracks.write _) fun _ _ _ _ => .inr ⟨?_, ?_⟩
    case refine_1 =>
      show (s.session.plaintextWriteBuf ++ _).length ≤ _
      rw [hplain, hpadder]
      exact length_pad command isTls
    case refine_2 =>
      have hc' : (s.session.write (s.padder.pad client [5, 6] command isTls).1).handshakeState = .complete c := hc
      rw [canNotify_eq hc', hseq]
      decide
  exact @exists_pollWrite zeroCrypto s ⟨[], wire⟩ client hmode hdeframer hdirect htls (hout'.trans hout) hplain rfl
    hencrypts

-- The content of the response is read, and then something is written.
theorem exists_readWrite (hnil : conn'.plaintextReadBuf.asSlice = [])
    (h : Reality.Calls.Mirrors zeroCrypto (Answer.begin_ a) hello (quietStream a).bytes (responseStream a).bytes
      (.begin_ conn' wire [] responseSource) (quietStream a).bytes) :
    ∃ c, Machine.run (step zeroCrypto client) (begin_ (.begin_ conn' wire [] responseSource) noDraws)
      [.read 3, .write [5, 6]] = some c ∧ c.delivered = [5] ∧ c.accepted = [5, 6] := by
  obtain ⟨s₁, hread⟩ := exists_readResponse hnil h
  have hserves : Serves zeroCrypto (Answer.begin_ a) hello client (quietStream a).bytes (responseStream a).bytes [] wire []
      3 (newClient conn' noDraws) (some (.ready [5], s₁, ⟨[], []⟩)) :=
    hread ▸ pollRead_spec (delivers_begin h rfl rfl rfl client noDraws) 3
  obtain ⟨hdelivers, hwriting, _⟩ := hserves
  obtain ⟨s₂, hwrite⟩ := exists_writeTwo hwriting h.idle.1 h.idle.2 hdelivers
  refine ⟨⟨s₂, ⟨[], []⟩, ⟨[], wire⟩, [5], [5, 6]⟩, ?_, rfl, rfl⟩
  have hstep : step zeroCrypto client (begin_ (.begin_ conn' wire [] responseSource) noDraws) (.read 3) =
      some ⟨s₁, ⟨[], []⟩, ⟨[], wire⟩, [5], []⟩ := by
    have hread' : (begin_ (.begin_ conn' wire [] responseSource) noDraws).stream.pollRead zeroCrypto client
        (begin_ (.begin_ conn' wire [] responseSource) noDraws).source 3 = some (.ready [5], s₁, ⟨[], []⟩) := hread
    rw [step, hread']
    rfl
  have hstep' : step zeroCrypto client ⟨s₁, ⟨[], []⟩, ⟨[], wire⟩, [5], []⟩ (.write [5, 6]) =
      some ⟨s₂, ⟨[], []⟩, ⟨[], wire⟩, [5], [5, 6]⟩ := by
    simp only [step, hwrite]
    rfl
  simp only [Machine.run, hstep, hstep']

end ReadWrite

end Calls
end JammVpn.Vision
