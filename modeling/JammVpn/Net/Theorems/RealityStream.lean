import JammVpn.Net.RealityStream
import JammVpn.Net.Theorems.RealityClient

-- What is polled is what is done with the connection: nothing is lost, added or moved on its way through the stream.
namespace JammVpn.Reality

open Bytes Framed Machine PollIo Run

section Drain

variable {C : Crypto} {s₀ s : Session} {hello : List UInt8} {r : Run}

-- Nothing waits to be written, once there are keys to write it with.
def Idle (s : Session) (conn : RealityClientConnection) : Prop :=
  conn.ciphertextWriteBuf = [] ∧
    ∀ c₀ finished read, s.phase = .established c₀ finished read → conn.plaintextWriteBuf = []

theorem idle_of_wantsWrite {conn : RealityClientConnection} (h : ¬conn.wantsWrite = true) : Idle s conn := by
  simp only [RealityClientConnection.wantsWrite, Bool.or_eq_true, Bool.not_eq_true', not_or, Bool.not_eq_false,
    List.isEmpty_iff] at h
  exact ⟨h.1, fun _ _ _ _ => h.2⟩

theorem writeTls_input (h : Tracks C s₀ hello r s) {writer : List UInt8 → Nat} {bs : List UInt8}
    {conn : RealityClientConnection} (hw : r.conn.writeTls C writer = some (.ok bs, conn)) : SameInput r.conn conn := by
  simp only [RealityClientConnection.writeTls] at hw
  split at hw
  case h_1 => cases hw
  case h_2 => cases hw
  case h_3 he =>
    cases hw
    obtain ⟨_, _, _, _, rfl, _⟩ := h.encrypted he
    exact ⟨rfl, rfl⟩

theorem drainTls_spec (h : Tracks C s₀ hello r s) {turns : Nat} {wbuf wbuf' : List UInt8}
    {conn : RealityClientConnection} (hd : r.conn.drainTls C wbuf turns = some (.ok (), conn, wbuf')) :
    ∃ bs, wbuf' = wbuf ++ bs ∧ Tracks C s₀ hello { r with conn, wire := r.wire ++ bs } s ∧ SameInput r.conn conn ∧
      (0 < turns ∨ Idle s r.conn → Idle s conn) := by
  induction turns generalizing r wbuf
  case zero =>
    cases hd
    refine ⟨[], (List.append_nil _).symm, ?_, ⟨rfl, rfl⟩, fun hi => hi.resolve_left (Nat.lt_irrefl 0)⟩
    rw [List.append_nil]
    exact h
  case succ turns hi =>
    rw [RealityClientConnection.drainTls] at hd
    split at hd
    case isFalse hw =>
      cases hd
      refine ⟨[], (List.append_nil _).symm, ?_, ⟨rfl, rfl⟩, fun _ => idle_of_wantsWrite hw⟩
      rw [List.append_nil]
      exact h
    case isTrue =>
      split at hd
      case h_1 => cases hd
      case h_2 => cases hd
      case h_3 bs conn₁ hw =>
        obtain ⟨ht, hidle⟩ := h.writeTls hw
        have hidle := hidle rfl
        have hsame := writeTls_input h hw
        split at hd
        case isTrue hnil =>
          cases hd
          refine ⟨[], (List.append_nil _).symm, ?_, hsame, fun _ => hidle⟩
          rwa [List.isEmpty_iff.mp hnil] at ht
        case isFalse =>
          obtain ⟨bs', rfl, ht', hsame', hidle'⟩ := hi ht hd
          refine ⟨bs ++ bs', List.append_assoc _ _ _, ?_, hsame.trans hsame', fun _ => hidle' (.inr hidle)⟩
          rw [← List.append_assoc]
          exact ht'

-- An idle connection writes nothing.
theorem writeTls_of_idle (h : Tracks C s₀ hello r s) (hi : Idle s r.conn) (writer : List UInt8 → Nat) :
    ∃ conn, r.conn.writeTls C writer = some (.ok [], conn) := by
  obtain ⟨hout, hplain⟩ := hi
  have hphase := h.phase
  cases hp : s.phase
  case hello a =>
    rw [hp] at hphase
    simp only [RealityClientConnection.writeTls, RealityClientConnection.encryptPending, hphase.1, hout, List.take_nil]
    exact ⟨_, rfl⟩
  case handshake p =>
    rw [hp] at hphase
    simp only [RealityClientConnection.writeTls, RealityClientConnection.encryptPending, hphase.1, hout, List.take_nil]
    exact ⟨_, rfl⟩
  case established c₀ finished read =>
    rw [hp] at hphase
    obtain ⟨c, hc, _⟩ := hphase
    have hsealed : c.write.encryptAppData C.aead [] [] = (.ok (), c.write, [], []) := rfl
    simp only [RealityClientConnection.writeTls, RealityClientConnection.encryptPending, hc, hplain c₀ finished read hp,
      hout, hsealed, List.take_nil]
    exact ⟨_, rfl⟩

-- There is nothing to do in more turns.
theorem drainTls_turns (h : Tracks C s₀ hello r s) (wbuf : List UInt8) (turns : Nat) :
    r.conn.drainTls C wbuf (drainTurns + turns) = r.conn.drainTls C wbuf drainTurns := by
  rw [drainTurns, Nat.add_comm, RealityClientConnection.drainTls, RealityClientConnection.drainTls]
  split
  case isFalse => rfl
  case isTrue =>
    split
    case h_1 => rfl
    case h_2 => rfl
    case h_3 bs conn hw =>
      obtain ⟨ht, hidle⟩ := h.writeTls hw
      obtain ⟨conn', hnext⟩ := writeTls_of_idle ht (hidle rfl) List.length
      rw [RealityClientConnection.drainTls, RealityClientConnection.drainTls]
      simp only [hnext, List.isEmpty_nil, if_true]

theorem exists_drainTls (h : Tracks C s₀ hello r s) (ha : Ample s r.conn) (wbuf : List UInt8) (turns : Nat) :
    ∃ conn wbuf', r.conn.drainTls C wbuf turns = some (.ok (), conn, wbuf') := by
  induction turns generalizing r wbuf
  case zero => exact ⟨_, _, rfl⟩
  case succ turns hi =>
    rw [RealityClientConnection.drainTls]
    split
    case isFalse => exact ⟨_, _, rfl⟩
    case isTrue =>
      obtain ⟨bs, conn, hw⟩ := exists_writeTls h ha List.length
      obtain ⟨ht, hidle⟩ := h.writeTls hw
      simp only [hw]
      split
      case isTrue  => exact ⟨_, _, rfl⟩
      case isFalse => exact hi ht (fun c₀ finished read hp => .inl ((hidle rfl).2 c₀ finished read hp)) _

-- All that the handshake reads is processed, and all that there is to write has been written when it is over.
theorem handshakeLoop_spec {reads reads' : List (Except Error (List UInt8))} {conn : RealityClientConnection}
    {wire : List UInt8} (h : Tracks C s₀ hello r (s₀.drain C r.received).1) (hp : CaughtUp C s₀ r.received r.conn)
    (hd : handshakeLoop C r.conn r.wire reads = some (.done, conn, wire, reads')) :
    ∃ taken : List (List UInt8), reads = taken.map .ok ++ reads' ∧ conn.isHandshaking = false ∧
      Idle (s₀.drain C (r.received ++ taken.flatten)).1 conn ∧ CaughtUp C s₀ (r.received ++ taken.flatten) conn ∧
      Tracks C s₀ hello { r with conn, wire, received := r.received ++ taken.flatten }
        (s₀.drain C (r.received ++ taken.flatten)).1 := by
  induction reads generalizing r
  case nil =>
    rw [handshakeLoop] at hd
    split at hd
    case h_1 => cases hd
    case h_2 => cases hd
    case h_3 hdrain =>
      obtain ⟨bs, rfl, ht, hsame, hidle⟩ := drainTls_spec h hdrain
      split at hd
      case isFalse => cases hd
      case isTrue hs =>
        cases hd
        refine ⟨[], rfl, by simpa using hs, ?_⟩
        rw [List.flatten_nil, List.append_nil]
        exact ⟨hidle (.inl (by decide)), hp.congr hsame, ht⟩
  case cons net reads hi =>
    rw [handshakeLoop] at hd
    split at hd
    case h_1 => cases hd
    case h_2 => cases hd
    case h_3 conn₁ wire₁ hdrain =>
      obtain ⟨bs, rfl, ht, hsame, hidle⟩ := drainTls_spec h hdrain
      split at hd
      case isTrue hs =>
        cases hd
        refine ⟨[], rfl, by simpa using hs, ?_⟩
        rw [List.flatten_nil, List.append_nil]
        exact ⟨hidle (.inl (by decide)), hp.congr hsame, ht⟩
      case isFalse =>
        cases net
        case error e => cases hd
        case ok net =>
          dsimp only at hd
          split at hd
          case isTrue => cases hd
          case isFalse =>
            obtain ⟨conn₂, hf, hd⟩ := Option.bind_eq_some_iff.mp hd
            have hfed := ht.feed hf
            split at hd
            case h_1 => cases hd
            case h_2 => cases hd
            case h_3 n conn₃ hok =>
              obtain ⟨ht₃, hp₃⟩ := hfed.processed hok
              obtain ⟨taken, rfl, hdone, hidle, hp', ht'⟩ := hi ht₃ hp₃ hd
              dsimp only at hidle hp' ht'
              rw [List.append_assoc] at hidle hp' ht'
              exact ⟨net :: taken, rfl, hdone, hidle, hp', ht'⟩

end Drain

-- What is done with the stream once the handshake is over.
inductive Call
  | read (want : Nat)
  | write (buf : List UInt8)
  | flush
  | shutdown

-- The stream between what is below it and the application.
structure Calls where
  stream    : RealityStream
  source    : Source
  sink      : Sink
  delivered : List UInt8
  accepted  : List UInt8
  notified  : Nat

namespace Calls

def begin_ (conn : RealityClientConnection) (wire : List UInt8) (responses : List Response) (source : Source) : Calls where
  stream := ⟨conn, []⟩
  source := source
  sink := ⟨responses, wire⟩
  delivered := []
  accepted := []
  notified := 0

-- There is no step where a call panics or reports an error.
def step (C : Crypto) (c : Calls) : Call → Option Calls
  | .read want =>
    match c.stream.read C c.source want with
    | some (.ready bs, stream, source) => some { c with stream, source, delivered := c.delivered ++ bs }
    | some (.pending, stream, source)  => some { c with stream, source }
    | _                                => none
  | .write buf =>
    match c.stream.pollWrite C c.sink buf with
    | some (.ready n, stream, sink) => some { c with stream, sink, accepted := c.accepted ++ buf.take n }
    | some (.pending, stream, sink) => some { c with stream, sink }
    | _                             => none
  | .flush =>
    match c.stream.pollFlush c.sink with
    | (.error _, _, _)  => none
    | (_, stream, sink) => some { c with stream, sink }
  | .shutdown =>
    match c.stream.pollShutdown C c.sink with
    | none                   => none
    | some (.error _, _, _)  => none
    | some (_, stream, sink) =>
      some { c with stream, sink, notified := c.notified + (canNotify c.stream.conn).toNat }

-- What the calls come to for the connection.
def run (c : Calls) (received : List UInt8) : Run :=
  ⟨c.stream.conn, received, c.delivered, c.accepted, c.sink.written ++ c.stream.wbuf, c.notified⟩

-- All that has been received has been processed, and nothing waits in the connection to be written.
structure Mirrors (C : Crypto) (s₀ : Session) (hello before all : List UInt8) (c : Calls) (received : List UInt8) : Prop
    extends Kept C s₀ hello (c.run received) where
  start  : before <+: received
  rest   : received ++ c.source.rest = all
  done   : CaughtUp C s₀ received c.stream.conn
  idle   : c.stream.conn.ciphertextWriteBuf = [] ∧ c.stream.conn.plaintextWriteBuf = []

variable {C : Crypto} {s₀ : Session} {hello before all received : List UInt8} {c c' : Calls} {p : Poll (List UInt8)}
  {stream : RealityStream} {source : Source} {want : Nat}

-- The content of the buffer is delivered.
theorem Mirrors.read (h : Mirrors C s₀ hello before all c received) (cap : Nat) :
    ∃ b, c.stream.conn.read cap =
        (c.stream.conn.plaintextReadBuf.asSlice.take cap, { c.stream.conn with plaintextReadBuf := b }) ∧
      b.asSlice = c.stream.conn.plaintextReadBuf.asSlice.drop cap ∧
      Mirrors C s₀ hello before all { c with
        stream := { c.stream with conn := { c.stream.conn with plaintextReadBuf := b } }
        delivered := c.delivered ++ c.stream.conn.plaintextReadBuf.asSlice.take cap } received := by
  obtain ⟨b, hr, hb, ht⟩ := h.tracks.read cap
  exact ⟨b, hr, hb, ⟨ht, h.ready⟩, h.start, h.rest, h.done, h.idle⟩

-- More bytes have come, and have been processed.
theorem Mirrors.processed (h : Mirrors C s₀ hello before all c received) {net : List UInt8} {source : Source}
    {conn conn' : RealityClientConnection} {n : Nat} (hnet : net ++ source.rest = c.source.rest)
    (hf : c.stream.conn.feed net = some conn) (hp : conn.processNewPackets C = some (.ok n, conn')) :
    Mirrors C s₀ hello before all { c with stream := { c.stream with conn := conn' }, source } (received ++ net) := by
  obtain ⟨hk, hdone, hout, hplain, _⟩ := h.toKept.processed hf hp
  refine ⟨hk, h.start.trans (List.prefix_append _ _), ?_, hdone, hout.trans h.idle.1, hplain.trans h.idle.2⟩
  rw [List.append_assoc, hnet, h.rest]

-- What a read leads to, if it does not fail: nothing is delivered only when all has been.
def Reads (C : Crypto) (s₀ : Session) (hello before all : List UInt8) (c : Calls) (want : Nat) :
    Poll (List UInt8) × RealityStream × Source → Prop
  | (.error _, _, _)             => True
  | (.pending, stream, source)   => ∃ received, Mirrors C s₀ hello before all { c with stream, source } received
  | (.ready bs, stream, source) => ∃ received,
      Mirrors C s₀ hello before all { c with stream, source, delivered := c.delivered ++ bs } received ∧
        (want ≠ 0 → bs = [] → source.rest = [] ∧ stream.conn.plaintextReadBuf.asSlice = [])

theorem pollRead_spec (h : Mirrors C s₀ hello before all c received) {turns : Nat}
    {res : Poll (List UInt8) × RealityStream × Source} (hr : c.stream.pollRead C want turns c.source = some res) :
    Reads C s₀ hello before all c want res := by
  induction turns generalizing c received
  case zero =>
    cases hr
    exact ⟨received, h⟩
  case succ turns hi =>
    rw [RealityStream.pollRead] at hr
    split at hr
    case isTrue hzero =>
      cases hr
      refine ⟨received, ?_, fun hne => absurd hzero hne⟩
      rw [List.append_nil]
      exact h
    case isFalse hne =>
      obtain ⟨b, hread, hb, hm⟩ := h.read want
      simp only [hread, Option.bind_eq_bind] at hr
      split at hr
      case isTrue hbs =>
        cases hr
        refine ⟨received, hm, fun _ hnil => ?_⟩
        rw [hnil] at hbs
        cases hbs rfl
      case isFalse hbs =>
        have hnil := List.isEmpty_iff.mp (not_not.mp hbs)
        have hempty : b.asSlice = [] := by
          rw [hb, (List.take_eq_nil_iff.mp hnil).resolve_left hne, List.drop_nil]
        rw [hnil, List.append_nil] at hm
        rcases hsrc : c.source.pollRead 16384 with ⟨q, source⟩
        rw [hsrc] at hr
        have hgives := (Source.read_pollRead hsrc).1
        cases hgives
        case pending hrest =>
          cases hr
          exact ⟨received, ⟨hm.tracks, hm.ready⟩, h.start, by rw [hrest.1, h.rest], hm.done, hm.idle⟩
        case inner =>
          cases hr
          trivial
        case bytes net hnet =>
          dsimp only at hr
          split at hr
          case isTrue hend =>
            have hend := List.isEmpty_iff.mp hend
            have hrest := hnet.split
            rw [hend, List.nil_append] at hrest
            cases hr
            refine ⟨received, ?_, fun _ _ => ⟨hrest.trans (hnet.ends (by decide) hend), hempty⟩⟩
            rw [List.append_nil]
            exact ⟨⟨hm.tracks, hm.ready⟩, h.start, by rw [hrest, h.rest], hm.done, hm.idle⟩
          case isFalse =>
            obtain ⟨conn, hf, hr⟩ := Option.bind_eq_some_iff.mp hr
            split at hr
            case h_1 => cases hr
            case h_2 =>
              cases hr
              trivial
            case h_3 hp =>
              have hnext := hi (hm.processed hnet.split hf hp) hr
              exact hnext

-- What is flushed is on its way as before.
theorem Mirrors.flushed (h : Mirrors C s₀ hello before all c received) {q : Poll Unit} {wbuf : List UInt8} {sink : Sink}
    (hf : flushWbuf c.sink.responses c.stream.wbuf c.sink.written = (q, wbuf, sink)) :
    Mirrors C s₀ hello before all { c with stream := { c.stream with wbuf }, sink } received := by
  have hwritten := flushWbuf_written c.sink.responses c.stream.wbuf c.sink.written
  rw [hf] at hwritten
  refine ⟨⟨?_, h.ready⟩, h.start, h.rest, h.done, h.idle⟩
  have ht := h.tracks
  rw [Calls.run, ← hwritten] at ht
  exact ht

-- What there is to write has been encrypted.
theorem Mirrors.drained (h : Mirrors C s₀ hello before all c received) {conn conn' : RealityClientConnection}
    {accepted wbuf : List UInt8} {notified : Nat}
    (ht : Tracks C s₀ hello { c.run received with conn, accepted, notified } (s₀.drain C received).1)
    (hsame : SameInput c.stream.conn conn)
    (hd : conn.drainTls C c.stream.wbuf drainTurns = some (.ok (), conn', wbuf)) :
    Mirrors C s₀ hello before all { c with stream := ⟨conn', wbuf⟩, accepted, notified } received := by
  obtain ⟨bs, rfl, ht', hsame', hidle⟩ := drainTls_spec ht hd
  obtain ⟨hout, hplain⟩ := hidle (.inl (by decide))
  obtain ⟨c₀, finished, read, hready⟩ := h.ready
  refine ⟨⟨?_, c₀, finished, read, hready⟩, h.start, h.rest, h.done.congr (hsame.trans hsame'), hout,
    hplain c₀ finished read hready⟩
  dsimp only [Calls.run] at ht' ⊢
  rw [← List.append_assoc]
  exact ht'

-- What a write leads to, if it does not fail.
def Writes (C : Crypto) (s₀ : Session) (hello before all : List UInt8) (c : Calls) (received buf : List UInt8) :
    Poll Nat × RealityStream × Sink → Prop
  | (.error _, _, _)         => True
  | (.pending, stream, sink) => Mirrors C s₀ hello before all { c with stream, sink } received
  | (.ready n, stream, sink) =>
    Mirrors C s₀ hello before all { c with stream, sink, accepted := c.accepted ++ buf.take n } received

theorem pollWrite_spec (h : Mirrors C s₀ hello before all c received) {buf : List UInt8}
    {res : Poll Nat × RealityStream × Sink} (hw : c.stream.pollWrite C c.sink buf = some res) :
    Writes C s₀ hello before all c received buf res := by
  rw [RealityStream.pollWrite] at hw
  rcases hf : flushWbuf c.sink.responses c.stream.wbuf c.sink.written with ⟨q₁, wbuf, sink₁⟩
  have hm := h.flushed hf
  rw [hf] at hw
  cases q₁
  case error e =>
    cases hw
    trivial
  case pending =>
    cases hw
    exact hm
  case ready =>
    dsimp only at hw
    split at hw
    case isTrue hnil =>
      cases hw
      rw [Writes, List.take_zero, List.append_nil]
      exact hm
    case isFalse =>
      split at hw
      case h_1 => cases hw
      case h_2 =>
        cases hw
        trivial
      case h_3 hd =>
        have hdrained := hm.drained (hm.tracks.write buf) ⟨rfl, rfl⟩ hd
        rcases hf' : flushWbuf sink₁.responses _ sink₁.written with ⟨q₂, wbuf₂, sink₂⟩
        rw [hf'] at hw
        have hm' := hdrained.flushed hf'
        cases q₂
        case error e =>
          cases hw
          trivial
        all_goals
          cases hw
          rw [Writes, List.take_length]
          exact hm'

theorem pollFlush_spec (h : Mirrors C s₀ hello before all c received) {q : Poll Unit} {sink : Sink}
    (hf : c.stream.pollFlush c.sink = (q, stream, sink)) :
    Mirrors C s₀ hello before all { c with stream, sink } received ∧
      (q = .ready () → sink.written = c.sink.written ++ c.stream.wbuf) := by
  rw [RealityStream.pollFlush] at hf
  rcases hw : flushWbuf c.sink.responses c.stream.wbuf c.sink.written with ⟨q₁, wbuf, sink₁⟩
  have hm := h.flushed hw
  rw [hw] at hf
  cases q₁
  case error e =>
    cases hf
    exact ⟨hm, nofun⟩
  case pending =>
    cases hf
    exact ⟨hm, nofun⟩
  case ready =>
    have hdone := Encoder.pollDone_written sink₁
    rcases hk : sink₁.pollDone with ⟨q₂, sink₂⟩
    rw [hk] at hdone
    simp only [hk] at hf
    cases hf
    refine ⟨⟨⟨?_, hm.ready⟩, hm.start, hm.rest, hm.done, hm.idle⟩, fun _ => hdone.trans (flushWbuf_ready hw).2⟩
    have ht := hm.tracks
    dsimp only [Calls.run] at ht hdone ⊢
    rw [hdone]
    exact ht

theorem pollShutdown_spec (h : Mirrors C s₀ hello before all c received) {q : Poll Unit} {sink : Sink}
    (hs : c.stream.pollShutdown C c.sink = some (q, stream, sink)) (hne : ∀ e, q ≠ .error e) :
    Mirrors C s₀ hello before all
      { c with stream, sink, notified := c.notified + (canNotify c.stream.conn).toNat } received := by
  obtain ⟨conn, hc, hs⟩ := Option.bind_eq_some_iff.mp hs
  split at hs
  case h_1 => cases hs
  case h_2 =>
    cases hs
    exact absurd rfl (hne _)
  case h_3 hd =>
    obtain ⟨_, _, hconn, _⟩ := sendCloseNotify_spec h.tracks.toSim hc
    have hm := h.drained (h.tracks.closeNotify hc) (by rw [hconn]; exact ⟨rfl, rfl⟩) hd
    exact (pollFlush_spec hm (Option.some.inj hs)).1

theorem Mirrors.step (h : Mirrors C s₀ hello before all c received) {call : Call} (hs : Calls.step C c call = some c') :
    ∃ received, Mirrors C s₀ hello before all c' received := by
  cases call
  case read want =>
    rw [Calls.step] at hs
    split at hs
    case h_1 hr =>
      cases hs
      exact (pollRead_spec h hr).imp fun _ h => h.1
    case h_2 hr =>
      cases hs
      exact pollRead_spec h hr
    case h_3 => cases hs
  case write buf =>
    rw [Calls.step] at hs
    split at hs
    case h_1 hw =>
      cases hs
      exact ⟨received, pollWrite_spec h hw⟩
    case h_2 hw =>
      cases hs
      exact ⟨received, pollWrite_spec h hw⟩
    case h_3 => cases hs
  case flush =>
    rw [Calls.step] at hs
    split at hs
    case h_1 => cases hs
    case h_2 hf =>
      cases hs
      exact ⟨received, (pollFlush_spec h hf).1⟩
  case shutdown =>
    rw [Calls.step] at hs
    split at hs
    case h_1 => cases hs
    case h_2 => cases hs
    case h_3 q stream sink hne hq =>
      cases hs
      exact ⟨received, pollShutdown_spec h hq hne⟩

theorem Mirrors.calls (h : Mirrors C s₀ hello before all c received) {calls : List Call}
    (hr : Machine.run (Calls.step C) c calls = some c') : ∃ received, Mirrors C s₀ hello before all c' received := by
  induction calls generalizing c received
  case nil =>
    cases hr
    exact ⟨received, h⟩
  case cons call calls hi =>
    obtain ⟨c₁, hs, hr⟩ := run_cons hr
    obtain ⟨received₁, h₁⟩ := h.step hs
    exact hi h₁ hr

theorem mirrors_begin {r : Run} {conn : RealityClientConnection} (hacc : r.accepted = []) (hdel : r.delivered = [])
    (hnot : r.notified = 0)
    (h : Tracks C s₀ hello { r with conn } (s₀.drain C r.received).1) (hdone : conn.isHandshaking = false)
    (hidle : Idle (s₀.drain C r.received).1 conn) (hp : CaughtUp C s₀ r.received conn) (responses : List Response)
    (source : Source) :
    Mirrors C s₀ hello r.received (r.received ++ source.rest) (begin_ conn r.wire responses source) r.received := by
  obtain ⟨c₀, finished, read, hready⟩ := (isHandshaking_eq_false_iff h).mp hdone
  refine ⟨⟨?_, c₀, finished, read, hready⟩, List.prefix_rfl, rfl, hp, hidle.1, hidle.2 c₀ finished read hready⟩
  dsimp only [Calls.run, begin_] at h ⊢
  rw [List.append_nil]
  rw [hacc, hdel, hnot] at h
  exact h

-- What the server has sent is delivered or waits to be read, and a server that has the keys finds exactly what has been
-- accepted, and each notification, in what has been written or waits to be.
def Conserves (C : Crypto) (hello : List UInt8) (c : Calls) (s : Session) : Prop :=
  c.delivered ++ c.stream.conn.plaintextReadBuf.asSlice = s.plaintext ∧
    ∃ c₀ finished read st sealed parts, s.phase = .established c₀ finished read ∧
      c.stream.conn.handshakeState = .complete st ∧
      c.sink.written ++ c.stream.wbuf = hello ++ finished ++ sealed ∧
      Framed.drain records (RecordCipher.opener C.aead) ⟨c₀.write, [], none⟩ sealed = (⟨st.write, parts, none⟩, []) ∧
      Carries parts c.accepted c.notified

theorem Mirrors.conserves (h : Mirrors C s₀ hello before all c received) : Conserves C hello c (s₀.drain C received).1 := by
  obtain ⟨hout, hplain⟩ := h.idle
  obtain ⟨st, hst⟩ := h.complete
  have hsends := h.tracks.sends
  dsimp only [Calls.run] at hst hsends
  rw [hst] at hsends
  obtain ⟨c₀, finished, read, sealed, parts, data, hphase, hwire, hd, hcarries, hacc⟩ := hsends
  dsimp only at hwire hcarries hacc
  rw [hout, List.append_nil] at hwire
  rw [hplain, List.append_nil] at hacc
  exact ⟨h.tracks.plaintext, c₀, finished, read, st, sealed, parts, hphase, hst, hwire, hd, hacc ▸ hcarries⟩

-- The end is only reported when all that the server has sent has been delivered.
theorem Mirrors.ended (h : Mirrors C s₀ hello before all c received) (hne : want ≠ 0)
    (hr : c.stream.read C c.source want = some (.ready [], stream, source)) :
    source.rest = [] ∧ c.delivered = (s₀.drain C all).1.plaintext := by
  obtain ⟨received', hm, hend⟩ := pollRead_spec h hr
  obtain ⟨hrest, hnil⟩ := hend hne rfl
  have hall := hm.rest
  have hplain := hm.tracks.plaintext
  rw [List.append_nil] at hplain
  dsimp only [Run.ghost, Calls.run] at hall hplain
  rw [hrest, List.append_nil] at hall
  rw [hnil, List.append_nil, hall] at hplain
  exact ⟨hrest, hplain⟩

theorem tracks_new {m : Memory} {cfg : RealityClientConfig} {e : Entropy} {conn : RealityClientConnection}
    (hnew : RealityClientConnection.new C m cfg e = .ok conn) :
    Tracks C (Session.begin_ conn) conn.ciphertextWriteBuf (Run.begin_ conn) ((Session.begin_ conn).drain C []).1 ∧
      CaughtUp C (Session.begin_ conn) [] conn := by
  have hnil : (Session.begin_ conn).drain C [] = (Session.begin_ conn, []) := drain_none (by rfl)
  rw [CaughtUp, hnil]
  refine ⟨tracks_begin hnew, fun _ => ?_⟩
  rw [(new_buffers hnew).1]
  exact SlideBuffer.asSlice_new _

theorem mirrors_of_handshake {m : Memory} {cfg : RealityClientConfig} {e : Entropy}
    {conn conn' : RealityClientConnection} {reads reads' : List (Except Error (List UInt8))} {wire : List UInt8}
    (hnew : RealityClientConnection.new C m cfg e = .ok conn)
    (hdone : handshakeLoop C conn [] reads = some (.done, conn', wire, reads')) :
    ∃ taken : List (List UInt8), reads = taken.map .ok ++ reads' ∧ ∀ responses source,
      Mirrors C (Session.begin_ conn) conn.ciphertextWriteBuf taken.flatten (taken.flatten ++ source.rest)
        (begin_ conn' wire responses source) taken.flatten := by
  obtain ⟨ht, hp⟩ := tracks_new hnew
  obtain ⟨taken, hreads, hshaken, hidle, hp', ht'⟩ := handshakeLoop_spec ht hp hdone
  exact ⟨taken, hreads, mirrors_begin (r := { Run.begin_ conn with wire, received := taken.flatten }) rfl rfl rfl ht'
    hshaken hidle hp'⟩

end Calls
end JammVpn.Reality
