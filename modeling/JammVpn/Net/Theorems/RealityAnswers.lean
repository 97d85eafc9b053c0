import JammVpn.Net.Theorems.RealityStream

-- Polling a stream to a server that answers as the protocol says.
namespace JammVpn.Reality

open Bytes Framed Machine PollIo Run

namespace Answer

variable {C : Crypto} {a : AwaitingServerHello} {A : Answer C a}

-- The handshake ends with what such a server sends.
theorem Stream.handshakeLoop_done (S : A.Stream) {hello : List UInt8} {r : Run} {pieces : List (List UInt8)}
    (h : Tracks C (begin_ a) hello r ((begin_ a).drain C r.received).1) (hacc : r.accepted = [])
    (hroom : r.conn.ciphertextReadBuf.len < tlsMaxRecordSize) (hr : r.received ++ pieces.flatten = S.bytes)
    (hl : ∀ piece ∈ pieces, piece ≠ [] ∧ piece.length ≤ tlsMaxRecordSize) :
    ∃ conn wire reads, handshakeLoop C r.conn r.wire (pieces.map .ok) = some (.done, conn, wire, reads) := by
  induction pieces generalizing r
  case nil =>
    obtain ⟨conn, wire, hdrain⟩ := exists_drainTls h (ample_of_accepted h hacc) r.wire drainTurns
    obtain ⟨bs, rfl, ht, _⟩ := drainTls_spec h hdrain
    rw [List.flatten_nil, List.append_nil] at hr
    obtain ⟨s, rest, hd, _, _, _, hall⟩ := S.drain_of_taken ⟨[], (List.append_nil _).trans hr⟩
    obtain ⟨finished, hp⟩ := (hall hr).2
    rw [hd] at ht
    have hdone : conn.isHandshaking = false := (isHandshaking_eq_false_iff ht).mpr ⟨_, _, _, hp⟩
    rw [List.map_nil, handshakeLoop, hdrain]
    simp only [hdone, Bool.false_eq_true, not_false_eq_true, if_true]
    exact ⟨_, _, _, rfl⟩
  case cons piece pieces hi =>
    obtain ⟨⟨hne, hlen⟩, hls⟩ := List.forall_mem_cons.mp hl
    obtain ⟨conn, wire, hdrain⟩ := exists_drainTls h (ample_of_accepted h hacc) r.wire drainTurns
    obtain ⟨bs, rfl, ht, hsame, _⟩ := drainTls_spec h hdrain
    rw [List.map_cons, handshakeLoop, hdrain]
    dsimp only
    split
    case isTrue => exact ⟨_, _, _, rfl⟩
    case isFalse hshaking =>
      have hnil : conn.plaintextReadBuf.asSlice = [] := by
        have hguards := ht.guards ⟨rfl, rfl⟩
        rw [RealityClientConnection.isHandshaking] at hshaking
        dsimp only at hguards
        split at hshaking
        case h_1 => exact absurd Bool.false_ne_true hshaking
        case h_2 hstate =>
          rw [Guards.eq_def] at hguards
          split at hguards
          case h_1 hc => exact absurd hc (hstate _)
          case h_2    => exact hguards.2.1
      cases hf : conn.feed piece
      case none =>
        have hover := feed_eq_none_iff.mp hf
        have hcap : conn.ciphertextReadBuf.capacity = ciphertextReadBufCapacity := ht.sizes.1
        rw [hcap, ciphertextReadBufCapacity, hsame.buffer] at hover
        omega
      case some conn₁ =>
        have hfed := ht.feed hf
        obtain ⟨b, hb, _⟩ := feed_spec hf
        rw [List.flatten_cons, ← List.append_assoc] at hr
        obtain ⟨n, conn₂, hp, ht₂, hlen₂, _⟩ := S.processed hfed ⟨_, hr⟩ (by rw [hb]; exact hnil)
        obtain ⟨conn', wire', reads, hloop⟩ := hi ht₂ hacc hlen₂ hr hls
        rw [if_neg (by simpa using hne)]
        simp only [hp, Option.bind_eq_bind, Option.bind_some]
        exact ⟨conn', wire', reads, hloop⟩

variable {hello before received : List UInt8} {c : Calls} {source : Source} {want : Nat}

-- There is always room for what is read at once.
theorem Stream.exists_feed (S : A.Stream) (h : Calls.Mirrors C (begin_ a) hello before S.bytes c received)
    {net : List UInt8} (hl : net.length ≤ tlsMaxRecordSize) : ∃ conn, c.stream.conn.feed net = some conn := by
  obtain ⟨s, rest, hd, hlive, hlen, _⟩ := S.drain_of_taken ⟨c.source.rest, h.rest⟩
  have htracks : Tracks C (begin_ a) hello (c.run received) ((begin_ a).drain C received).1 := h.tracks
  have hdone := h.done
  rw [CaughtUp, hd] at hdone
  rw [hd] at htracks
  have hopen : c.stream.conn.receivedCloseNotify = false := by
    obtain ⟨_, hopen, _⟩ | ⟨hclosed, _⟩ := htracks.progress
    case inl => exact hopen
    case inr => cases hlive.symm.trans hclosed
  have hbuf : c.stream.conn.ciphertextReadBuf.len = rest.length := by rw [← SlideBuffer.length_asSlice, hdone hopen]
  have hcap : c.stream.conn.ciphertextReadBuf.capacity = ciphertextReadBufCapacity := htracks.sizes.1
  refine Option.ne_none_iff_exists'.mp fun hnone => ?_
  have hover := feed_eq_none_iff.mp hnone
  rw [hcap, hbuf, ciphertextReadBufCapacity] at hover
  omega

-- A read fails only where the stream below does, and has an answer where that always has one.
structure Answers (src : Source) (p : Poll (List UInt8)) : Prop where
  error   : ∀ e, p = .error e → e = .inner ∧ .error ∈ src.responses
  pending : p = .pending → ¬Framing.Eager src

theorem answers_ready (src : Source) (bs : List UInt8) : Answers src (.ready bs) :=
  ⟨(by intro _ he; cases he), (by intro hp; cases hp)⟩

theorem Stream.exists_pollRead (S : A.Stream) (h : Calls.Mirrors C (begin_ a) hello before S.bytes c received)
    {turns : Nat} (ht : c.source.responses.length < turns) : ∃ p stream source,
      c.stream.pollRead C want turns c.source = some (p, stream, source) ∧ Answers c.source p := by
  induction turns generalizing c received
  case zero => exact absurd ht (Nat.not_lt_zero _)
  case succ turns hi =>
    rw [RealityStream.pollRead]
    split
    case isTrue => exact ⟨_, _, _, rfl, answers_ready _ _⟩
    case isFalse hne =>
      obtain ⟨b, hread, hb, hm⟩ := h.read want
      simp only [hread, Option.bind_eq_bind]
      split
      case isTrue => exact ⟨_, _, _, rfl, answers_ready _ _⟩
      case isFalse hbs =>
        have hnil := List.isEmpty_iff.mp (not_not.mp hbs)
        have hempty : b.asSlice = [] := by
          rw [hb, (List.take_eq_nil_iff.mp hnil).resolve_left hne, List.drop_nil]
        rcases hsrc : c.source.pollRead 16384 with ⟨q, source⟩
        obtain ⟨hgives, hsub⟩ := Source.read_pollRead hsrc
        cases hgives
        case pending hrest => exact ⟨_, _, _, rfl, (by intro _ he; cases he), fun _ => hrest.2⟩
        case inner hrest =>
          exact ⟨_, _, _, rfl, (by intro _ he; cases he; exact ⟨rfl, hrest.2⟩), (by intro hp; cases hp)⟩
        case bytes net hnet =>
          have hlen := Source.length_pollRead hsrc
          dsimp only
          split
          case isTrue => exact ⟨_, _, _, rfl, answers_ready _ _⟩
          case isFalse hsome =>
            obtain ⟨conn, hf⟩ := S.exists_feed hm (Nat.le_trans hnet.le (by decide))
            have hcame : received ++ net <+: S.bytes := by
              refine ⟨source.rest, ?_⟩
              rw [List.append_assoc, hnet.split, h.rest]
            obtain ⟨b', hb', _⟩ := feed_spec hf
            have hfed := hm.tracks.feed hf
            obtain ⟨n, conn', hp, _⟩ := S.processed hfed hcame (by rw [hb']; exact hempty)
            dsimp only at hp hf
            simp only [hf, Option.bind_some, hp]
            obtain ⟨p, stream, source', hr, herror, hpending⟩ :=
              hi (hm.processed hnet.split hf hp) (Nat.lt_of_lt_of_le hlen (Nat.le_of_lt_succ ht))
            have heager := hnet.eager fun hnil => hsome (List.isEmpty_iff.mpr hnil)
            exact ⟨p, stream, source', hr, fun e he => (herror e he).imp_right fun hm => hsub hm,
              fun hp he => hpending hp (heager he)⟩

-- Where the end has not been reached, and the stream below always has an answer, a read gives some of the data.
theorem Stream.exists_read (S : A.Stream) (h : Calls.Mirrors C (begin_ a) hello before S.bytes c received)
    (heager : Framing.Eager c.source) (hne : want ≠ 0) (hmore : c.delivered ≠ S.data) :
    ∃ bs stream source, c.stream.read C c.source want = some (.ready bs, stream, source) ∧ bs ≠ [] := by
  obtain ⟨p, stream, source, hread, herror, hpending⟩ :=
    @Stream.exists_pollRead _ _ _ _ _ _ _ want S h _ (Nat.lt_succ_self c.source.responses.length)
  cases p
  case pending => exact absurd heager (hpending rfl)
  case error e =>
    obtain ⟨n, hn⟩ := heager.1 _ (herror e rfl).2
    cases hn
  case ready bs =>
    refine ⟨bs, stream, source, hread, ?_⟩
    rintro rfl
    obtain ⟨s, rest', hd, _, _, _, hall⟩ := S.drain_of_taken List.prefix_rfl
    refine hmore ?_
    rw [(h.ended hne hread).2, hd]
    exact (hall rfl).1

-- What fits into one record is taken, if nothing has been written before and the stream below does not fail.
theorem Stream.exists_pollWrite (S : A.Stream) (h : Calls.Mirrors C (begin_ a) hello before S.bytes c received)
    (hacc : c.accepted = []) (hsilent : c.notified = 0) (hempty : c.stream.wbuf = []) {buf : List UInt8}
    (hl : buf.length ≤ maxTlsPlaintextLen)
    (hk : ∀ wbuf e, (flushWbuf c.sink.responses wbuf c.sink.written).1 ≠ .error e) :
    ∃ stream sink, c.stream.pollWrite C c.sink buf = some (.ready buf.length, stream, sink) := by
  have hnil := plaintextWriteBuf_of_accepted h.tracks hacc
  have hshaken : c.stream.conn.isHandshaking = false := (isHandshaking_eq_false_iff h.tracks).mpr h.ready
  obtain ⟨st, hst, _, hseq⟩ := S.complete_of_silent h.tracks ⟨c.source.rest, h.rest⟩ hshaken hacc hsilent
  have hample : Ample ((begin_ a).drain C received).1 (c.stream.conn.write buf) := by
    refine fun _ _ _ _ => .inr ⟨?_, ?_⟩
    case refine_1 =>
      have hbuf : (c.stream.conn.write buf).plaintextWriteBuf = buf := congrArg (· ++ buf) hnil
      rwa [hbuf]
    case refine_2 =>
      have hst' : (c.stream.conn.write buf).handshakeState = .complete st := hst
      rw [canNotify_eq hst', hseq]
      decide
  obtain ⟨conn, wbuf, hdrain⟩ := exists_drainTls (h.tracks.write buf) hample [] drainTurns
  dsimp only [Calls.run] at hdrain
  rw [RealityStream.pollWrite, hempty, flushWbuf_nil]
  dsimp only
  split
  case isTrue hbuf => exact ⟨_, _, by rw [List.isEmpty_iff.mp hbuf]; rfl⟩
  case isFalse =>
    rw [hdrain]
    dsimp only
    have hok := hk wbuf
    rcases hf : flushWbuf c.sink.responses wbuf c.sink.written with ⟨q, wbuf', sink⟩
    rw [hf] at hok
    cases q
    case error e => exact absurd rfl (hok e)
    all_goals exact ⟨_, _, rfl⟩

variable {m : Memory} {cfg : RealityClientConfig} {e : Entropy} {conn : RealityClientConnection}
  {pieces : List (List UInt8)}

theorem Stream.exists_handshake (S : A.Stream) (hnew : RealityClientConnection.new C m cfg e = .ok conn)
    (ha : conn.handshakeState = .awaitingServerHello a) (hp : pieces.flatten = S.bytes)
    (hl : ∀ piece ∈ pieces, piece ≠ [] ∧ piece.length ≤ tlsMaxRecordSize) :
    ∃ conn' wire reads, handshakeLoop C conn [] (pieces.map .ok) = some (.done, conn', wire, reads) := by
  obtain ⟨ht, _⟩ := Calls.tracks_new hnew
  rw [begin_eq ha] at ht
  refine S.handshakeLoop_done ht rfl ?_ hp hl
  rw [Run.begin_, (new_buffers hnew).1]
  exact (by decide : 0 < tlsMaxRecordSize)

-- The calls begin with what the handshake has left of the pieces.
theorem Stream.exists_mirrors (S : A.Stream) (hnew : RealityClientConnection.new C m cfg e = .ok conn)
    (ha : conn.handshakeState = .awaitingServerHello a) (hp : pieces.flatten = S.bytes)
    (hl : ∀ piece ∈ pieces, piece ≠ [] ∧ piece.length ≤ tlsMaxRecordSize) :
    ∃ conn' wire taken rest, pieces = taken ++ rest ∧
      handshakeLoop C conn [] (pieces.map .ok) = some (.done, conn', wire, rest.map .ok) ∧
      ∀ responses source, source.rest = rest.flatten → Calls.Mirrors C (begin_ a) conn.ciphertextWriteBuf taken.flatten
        S.bytes (Calls.begin_ conn' wire responses source) taken.flatten := by
  obtain ⟨conn', wire, reads, hloop⟩ := S.exists_handshake hnew ha hp hl
  obtain ⟨taken, htaken, hm⟩ := Calls.mirrors_of_handshake hnew hloop
  obtain ⟨taken', rest, rfl, htaken', rfl⟩ := List.map_eq_append_iff.mp htaken
  have heq : taken' = taken := List.map_injective_iff.mpr (fun _ _ h => by cases h; rfl) htaken'
  subst heq
  refine ⟨conn', wire, taken', rest, rfl, hloop, fun responses source hrest => ?_⟩
  have hbegin := hm responses source
  rwa [begin_eq ha, hrest, ← List.flatten_append, hp] at hbegin

theorem flatten_bytes (bs : List UInt8) : (bs.map fun b => [b]).flatten = bs ∧
    ∀ piece ∈ bs.map fun b => [b], piece ≠ [] ∧ piece.length ≤ tlsMaxRecordSize := by
  refine ⟨?_, fun piece hm => ?_⟩
  case refine_1 => rw [← List.flatMap_def, List.flatMap_singleton']
  case refine_2 =>
    obtain ⟨b, _, rfl⟩ := List.mem_map.mp hm
    exact ⟨List.cons_ne_nil _ _, (by decide : 1 ≤ tlsMaxRecordSize)⟩

-- The stream below gives one byte after the other, and then its end.
def bytewise (rest : List UInt8) : Source where
  responses := List.replicate (rest.length + 1) (.ready 0)
  rest := rest

theorem eager_bytewise (rest : List UInt8) : Framing.Eager (bytewise rest) :=
  ⟨fun _ hr => ⟨0, List.eq_of_mem_replicate hr⟩, (List.length_replicate ..).symm ▸ Nat.lt_succ_self _⟩

end Answer
namespace Calls

-- A read writes nothing.
theorem wbuf_of_pollRead {C : Crypto} {s s' : RealityStream} {want turns : Nat} {src src' : Source}
    {p : Poll (List UInt8)} (hr : s.pollRead C want turns src = some (p, s', src')) : s'.wbuf = s.wbuf := by
  induction turns generalizing s src
  case zero =>
    cases hr
    rfl
  case succ turns hi =>
    rw [RealityStream.pollRead] at hr
    split at hr
    case isTrue =>
      cases hr
      rfl
    case isFalse =>
      rcases hread : s.conn.read want with ⟨bs, conn⟩
      simp only [hread, Option.bind_eq_bind] at hr
      split at hr
      case isTrue =>
        cases hr
        rfl
      case isFalse =>
        rcases hsrc : src.pollRead 16384 with ⟨q, src₁⟩
        rw [hsrc] at hr
        cases q
        case ready net =>
          dsimp only at hr
          split at hr
          case isTrue =>
            cases hr
            rfl
          case isFalse =>
            obtain ⟨conn₁, _, hr⟩ := Option.bind_eq_some_iff.mp hr
            split at hr
            case h_1 => cases hr
            case h_2 =>
              cases hr
              rfl
            case h_3 =>
              have hnext := hi hr
              exact hnext
        all_goals
          cases hr
          rfl

-- Something is read, and then something is written.
theorem exists_readWrite {a : AwaitingServerHello} {conn' : RealityClientConnection}
    {hello before received wire : List UInt8} {source : Source} (heager : Framing.Eager source)
    (h : Mirrors zeroCrypto (Answer.begin_ a) hello before (Answer.zeroStream a).bytes (begin_ conn' wire [] source)
      received) : ∃ c, Machine.run (step zeroCrypto) (begin_ conn' wire [] source) [.read 3, .write [5, 6]] = some c ∧
        c.delivered ≠ [] ∧ c.accepted = [5, 6] := by
  obtain ⟨bs, stream, source', hread, hne⟩ :=
    (Answer.zeroStream a).exists_read h heager (by decide : 3 ≠ 0) (by intro hd; cases hd)
  have hstep : Calls.step zeroCrypto (begin_ conn' wire [] source) (.read 3) =
      some { begin_ conn' wire [] source with stream, source := source', delivered := bs } := by
    rw [Calls.step, hread]
    rfl
  obtain ⟨received₁, h₁⟩ := h.step hstep
  have hk (wbuf : List UInt8) (e : IoError) : (flushWbuf [] wbuf wire).1 ≠ .error e := by
    cases wbuf <;> intro he <;> cases he
  obtain ⟨stream', sink, hwrite⟩ :=
    (Answer.zeroStream a).exists_pollWrite h₁ rfl rfl (wbuf_of_pollRead hread)
      (by decide : [(5 : UInt8), 6].length ≤ maxTlsPlaintextLen) hk
  refine ⟨{ begin_ conn' wire [] source with
    stream := stream', source := source', sink, delivered := bs, accepted := [5, 6] }, ?_, hne, rfl⟩
  have hstep' : Calls.step zeroCrypto { begin_ conn' wire [] source with stream, source := source', delivered := bs }
      (.write [5, 6]) = some { begin_ conn' wire [] source with
        stream := stream', source := source', sink, delivered := bs, accepted := [5, 6] } := by
    rw [Calls.step, hwrite]
    rfl
  simp only [Machine.run, hstep, hstep']

-- Whatever is called after the handshake, in any order, nothing is lost, added or moved in either direction.
theorem conserves_of_calls {C : Crypto} {source : Source} {c : Calls} {m : Memory} {cfg : RealityClientConfig}
    {e : Entropy} {conn conn' : RealityClientConnection}
    {reads reads' : List (Except Error (List UInt8))} {wire : List UInt8} {responses : List Response} {calls : List Call}
    (hnew : RealityClientConnection.new C m cfg e = .ok conn)
    (hdone : handshakeLoop C conn [] reads = some (.done, conn', wire, reads'))
    (hr : Machine.run (step C) (begin_ conn' wire responses source) calls = some c) :
    ∃ (taken : List (List UInt8)) (came : List UInt8), reads = taken.map .ok ++ reads' ∧
      came ++ c.source.rest = source.rest ∧
      Conserves C conn.ciphertextWriteBuf c ((Session.begin_ conn).drain C (taken.flatten ++ came)).1 ∧
      (∀ want stream source', want ≠ 0 → c.stream.read C c.source want = some (.ready [], stream, source') →
        source'.rest = [] ∧
          c.delivered = ((Session.begin_ conn).drain C (taken.flatten ++ source.rest)).1.plaintext) ∧
      ∀ stream sink, c.stream.pollFlush c.sink = (.ready (), stream, sink) →
        sink.written = c.sink.written ++ c.stream.wbuf := by
  obtain ⟨taken, hreads, hm⟩ := mirrors_of_handshake hnew hdone
  obtain ⟨received, hm'⟩ := (hm responses source).calls hr
  obtain ⟨came, rfl⟩ := hm'.start
  have hrest := hm'.rest
  rw [List.append_assoc] at hrest
  refine ⟨taken, came, hreads, List.append_cancel_left hrest, hm'.conserves, fun want stream source' hne hread => ?_,
    fun stream sink hf => ?_⟩
  case refine_1 => exact hm'.ended hne hread
  case refine_2 => exact (pollFlush_spec hm' hf).2 rfl

theorem conserves_of_zeroStream : ∃ conn a conn' wire rest c,
    RealityClientConnection.new zeroCrypto zeroMemory zeroConfig zeroEntropy = .ok conn ∧
      handshakeLoop zeroCrypto conn [] (((Answer.zeroStream a).bytes.map fun b => [b]).map .ok) =
        some (.done, conn', wire, rest.map .ok) ∧
      Machine.run (step zeroCrypto) (begin_ conn' wire [] (Answer.bytewise (List.flatten rest)))
        [.read 3, .write [5, 6]] = some c ∧
      c.delivered ≠ [] ∧ c.accepted = [5, 6] ∧
      ∃ (taken : List (List UInt8)) (came : List UInt8), came ++ c.source.rest = List.flatten rest ∧
        Conserves zeroCrypto conn.ciphertextWriteBuf c
          ((Session.begin_ conn).drain zeroCrypto (taken.flatten ++ came)).1 := by
  obtain ⟨conn, a, hnew, ha⟩ := Answer.exists_awaiting
  obtain ⟨hp, hl⟩ := Answer.flatten_bytes (Answer.zeroStream a).bytes
  obtain ⟨conn', wire, _, rest, _, hloop, hm⟩ := (Answer.zeroStream a).exists_mirrors hnew ha hp hl
  obtain ⟨c, hr, hdel, hacc⟩ := exists_readWrite (Answer.eager_bytewise rest.flatten) (hm [] _ rfl)
  obtain ⟨taken, came, _, hcame, hconserves, _⟩ := conserves_of_calls hnew hloop hr
  exact ⟨conn, a, conn', wire, rest, c, hnew, hloop, hr, hdel, hacc, taken, came, hcame, hconserves⟩

end Calls
end JammVpn.Reality
