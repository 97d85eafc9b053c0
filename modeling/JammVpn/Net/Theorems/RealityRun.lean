import JammVpn.Net.Theorems.RealityCalls

-- What a connection has come to after any number of calls, in any order.
namespace JammVpn.Reality

open Bytes Framed Machine

-- What is done with a connection.
inductive Op
  | feed (data : List UInt8)
  | process
  | read (cap : Nat)
  | write (buf : List UInt8)
  | writeTls (writer : List UInt8 → Nat)
  | closeNotify

-- A run with all that came in and went out on both sides of the connection.
structure Run where
  conn      : RealityClientConnection
  received  : List UInt8
  delivered : List UInt8
  accepted  : List UInt8
  wire      : List UInt8
  notified  : Nat

namespace Run

def begin_ (conn : RealityClientConnection) : Run where
  conn := conn
  received := []
  delivered := []
  accepted := []
  wire := []
  notified := 0

-- There is no step where a call panics or reports an error.
def step (C : Crypto) (r : Run) : Op → Option Run
  | .feed data       => do return { r with conn := ← r.conn.feed data, received := r.received ++ data }
  | .process         =>
    match r.conn.processNewPackets C with
    | some (.ok _, conn) => some { r with conn }
    | _                  => none
  | .read cap        =>
    let (bs, conn) := r.conn.read cap
    some { r with conn, delivered := r.delivered ++ bs }
  | .write buf       => some { r with conn := r.conn.write buf, accepted := r.accepted ++ buf }
  | .writeTls writer =>
    match r.conn.writeTls C writer with
    | some (.ok bs, conn) => some { r with conn, wire := r.wire ++ bs }
    | _                   => none
  | .closeNotify     => do
    return { r with conn := ← r.conn.sendCloseNotify C, notified := r.notified + (canNotify r.conn).toNat }

def ghost (hello : List UInt8) (r : Run) : Ghost :=
  ⟨hello, r.delivered, r.accepted, r.wire, r.notified⟩

-- The session that the records begin with which have not been processed yet.
structure Tracks (C : Crypto) (s₀ : Session) (hello : List UInt8) (r : Run) (s : Session) : Prop
    extends Sim C (r.ghost hello) r.conn s where
  before   : ∃ cut, cut <+: r.received ∧ (s₀.drain C cut).1 = s
  progress :
    s.status = .live ∧ r.conn.receivedCloseNotify = false ∧
        s₀.drain C r.received = s.drain C r.conn.ciphertextReadBuf.asSlice ∨
      s.status = .closed ∧ r.conn.receivedCloseNotify = true ∧ (s₀.drain C r.received).1 = s

end Run

-- The session of a connection that has not done anything yet.
def Session.begin_ (conn : RealityClientConnection) : Session where
  phase :=
    match conn.handshakeState with
    | .awaitingServerHello a => .hello a
    | .processingHandshake p => .handshake p
    | .complete c            => .established c [] c.read
  plaintext := []
  status := .live

section Zeros

-- Primitives that make zeros of everything.
def zeroCrypto : Crypto where
  aead _ := .zeroTag
  digest suite _ := List.replicate suite.hashLen 0
  hmac suite _ _ := List.replicate suite.hashLen 0
  hmacSha512 _ _ := List.replicate 64 0
  hkdfSha256 _ _ _ := List.replicate 32 0
  aes256Gcm := .zeroTag
  publicKey _ := List.replicate 32 0
  agree _ _ := some (List.replicate 32 0)
  signEd25519 _ _ := List.replicate 64 0
  verifyEd25519 _ _ _ := true
  certificate _ := .ok (List.replicate 32 0, List.replicate 64 0)
  length_digest _ _ := List.length_replicate
  length_hmac _ _ _ := List.length_replicate

def zeroMemory : Memory where
  ciphertext := List.replicate ciphertextReadBufCapacity 0
  plaintext := List.replicate plaintextReadBufCapacity 0
  length_ciphertext := List.length_replicate
  length_plaintext := List.length_replicate

def zeroConfig : RealityClientConfig where
  publicKey := List.replicate 32 0
  shortId := List.replicate 8 0
  serverName := "a"
  cipherSuites := []

def zeroEntropy : Entropy where
  privateKey := List.replicate 32 0
  clientRandom := List.replicate 32 0
  timestamp := 0

theorem exists_new : ∃ conn, RealityClientConnection.new zeroCrypto zeroMemory zeroConfig zeroEntropy = .ok conn :=
  ⟨_, rfl⟩

end Zeros

namespace Run

variable {C : Crypto} {s₀ s : Session} {hello : List UInt8} {r r' : Run} {op : Op} {ops : List Op}

-- When what has come has been processed, the session has taken all of it that it takes, and the rest is left.
theorem Tracks.processed (h : Tracks C s₀ hello r s) {n : Nat} {conn : RealityClientConnection}
    (hp : r.conn.processNewPackets C = some (.ok n, conn)) :
    Tracks C s₀ hello { r with conn } (s₀.drain C r.received).1 ∧
      (conn.receivedCloseNotify = false → conn.ciphertextReadBuf.asSlice = (s₀.drain C r.received).2) := by
  have hall : r.received <+: r.received := List.prefix_rfl
  obtain ⟨hlive, hopen, hd⟩ | ⟨hclosed, hopen, hd⟩ := h.progress
  case inl =>
    have hspec := processNewPackets_spec ⟨h.toSim, hlive, hopen, rfl⟩
    rw [hp] at hspec
    obtain ⟨⟨s', rest, hr, hsettled⟩, _⟩ := hspec
    have hs' : (s₀.drain C r.received).1 = s' := by rw [hd, hr]
    rw [hs', hd, hr]
    obtain hl | ⟨hsim, hc, ho⟩ := hsettled
    case inl =>
      refine ⟨⟨hl.toSim, ⟨_, hall, hs'⟩, .inl ⟨hl.status, hl.open_, ?_⟩⟩, fun _ => hl.buffer⟩
      have hdd : (s.drain C r.conn.ciphertextReadBuf.asSlice).1.drain C (s.drain C r.conn.ciphertextReadBuf.asSlice).2 =
          s.drain C r.conn.ciphertextReadBuf.asSlice := drain_drain _ _
      rw [hr] at hdd
      rw [hd, hr, hl.buffer, hdd]
    case inr => exact ⟨⟨hsim, ⟨_, hall, hs'⟩, .inr ⟨hc, ho, hs'⟩⟩, fun hno => by cases hno.symm.trans ho⟩
  case inr =>
    rw [RealityClientConnection.processNewPackets, h.fatal, hopen] at hp
    cases hp
    rw [hd]
    exact ⟨h, fun hno => by cases hno.symm.trans hopen⟩

-- More has come into the buffer.
theorem Tracks.extended (h : Tracks C s₀ hello r s) {data : List UInt8} {b : SlideBuffer}
    (hb : b.asSlice = r.conn.ciphertextReadBuf.asSlice ++ data)
    (hcap : b.capacity = r.conn.ciphertextReadBuf.capacity) :
    Tracks C s₀ hello { r with conn := { r.conn with ciphertextReadBuf := b }, received := r.received ++ data } s := by
  obtain ⟨cut, hcut, hbefore⟩ := h.before
  refine ⟨⟨?_, h.plaintext, h.fatal, hcap.trans h.sizes.1, h.sizes.2⟩, ?_, ?_⟩
  case refine_1 => exact h.phase.congr rfl rfl rfl (List.append_nil _).symm (List.append_nil _).symm rfl
  case refine_2 => exact ⟨cut, hcut.trans (List.prefix_append _ _), hbefore⟩
  case refine_3 =>
    have hmore : s₀.drain C (r.received ++ data) =
        (s₀.drain C r.received).1.drain C ((s₀.drain C r.received).2 ++ data) := drain_append _ _ _
    refine Or.imp (fun ⟨hlive, hopen, hd⟩ => ⟨hlive, hopen, ?_⟩) (fun ⟨hclosed, hopen, hd⟩ => ⟨hclosed, hopen, ?_⟩)
      h.progress
    case refine_1 =>
      have hbuf : s.drain C (r.conn.ciphertextReadBuf.asSlice ++ data) = _ := drain_append _ _ _
      rw [hmore, hd, hb, hbuf]
      rfl
    case refine_2 =>
      rw [hmore, hd, drain_of_not_live (by rw [Session.isLive, hclosed])]

theorem Tracks.feed (h : Tracks C s₀ hello r s) {data : List UInt8} {conn : RealityClientConnection}
    (hf : r.conn.feed data = some conn) : Tracks C s₀ hello { r with conn, received := r.received ++ data } s := by
  obtain ⟨b, rfl, hb, hcap⟩ := feed_spec hf
  exact h.extended hb hcap

-- So much has been taken out of the buffer.
theorem Tracks.taken (h : Tracks C s₀ hello r s) {n : Nat} {b : SlideBuffer}
    (hb : b.asSlice = r.conn.plaintextReadBuf.asSlice.drop n)
    (hcap : b.capacity = r.conn.plaintextReadBuf.capacity) :
    Tracks C s₀ hello { r with
      conn := { r.conn with plaintextReadBuf := b }
      delivered := r.delivered ++ r.conn.plaintextReadBuf.asSlice.take n } s := by
  refine ⟨⟨?_, ?_, h.fatal, h.sizes.1, hcap.trans h.sizes.2⟩, h.before, h.progress⟩
  case refine_1 => exact h.phase.congr rfl rfl rfl (List.append_nil _).symm (List.append_nil _).symm rfl
  case refine_2 =>
    have hall : r.delivered ++ r.conn.plaintextReadBuf.asSlice = s.plaintext := h.plaintext
    show r.delivered ++ r.conn.plaintextReadBuf.asSlice.take n ++ b.asSlice = s.plaintext
    rw [hb, List.append_assoc, List.take_append_drop, hall]

theorem Tracks.read (h : Tracks C s₀ hello r s) (cap : Nat) :
    ∃ b, r.conn.read cap = (r.conn.plaintextReadBuf.asSlice.take cap, { r.conn with plaintextReadBuf := b }) ∧
      b.asSlice = r.conn.plaintextReadBuf.asSlice.drop cap ∧ Tracks C s₀ hello { r with
        conn := { r.conn with plaintextReadBuf := b }
        delivered := r.delivered ++ r.conn.plaintextReadBuf.asSlice.take cap } s := by
  obtain ⟨b, hr, hb, hcap⟩ := read_spec r.conn cap
  exact ⟨b, hr, hb, h.taken hb hcap⟩

theorem Tracks.write (h : Tracks C s₀ hello r s) (buf : List UInt8) :
    Tracks C s₀ hello { r with conn := r.conn.write buf, accepted := r.accepted ++ buf } s :=
  ⟨⟨h.phase.congr rfl rfl rfl rfl rfl rfl, h.plaintext, h.fatal, h.sizes⟩, h.before, h.progress⟩

-- Where there are keys, nothing is left to be encrypted.
theorem Tracks.encrypted (h : Tracks C s₀ hello r s) {conn : RealityClientConnection}
    (he : r.conn.encryptPending C = some (.ok (), conn)) :
    Tracks C s₀ hello { r with conn } s ∧
      ∃ state plain out, conn = { r.conn with
        handshakeState := state, plaintextWriteBuf := plain, ciphertextWriteBuf := out } ∧
      ∀ c₀ finished read, s.phase = .established c₀ finished read → plain = [] := by
  obtain ⟨state, plain, out, rfl, hsim, hplain⟩ := encryptPending_spec h.toSim he
  exact ⟨⟨⟨hsim.phase, hsim.plaintext, hsim.fatal, hsim.sizes⟩, h.before, h.progress⟩, state, plain, out, rfl, hplain⟩

-- The network has taken so much.
theorem Tracks.sent (h : Tracks C s₀ hello r s) (n : Nat) :
    Tracks C s₀ hello { r with
      conn := { r.conn with ciphertextWriteBuf := r.conn.ciphertextWriteBuf.drop n }
      wire := r.wire ++ r.conn.ciphertextWriteBuf.take n } s := by
  refine ⟨⟨?_, h.plaintext, h.fatal, h.sizes⟩, h.before, h.progress⟩
  refine h.phase.congr rfl rfl ?_ (List.append_nil _).symm (List.append_nil _).symm rfl
  exact (List.append_assoc _ _ _).trans (congrArg _ (List.take_append_drop _ _))

-- Where there are keys, a writer that takes everything leaves nothing.
theorem Tracks.writeTls (h : Tracks C s₀ hello r s) {writer : List UInt8 → Nat} {bs : List UInt8}
    {conn : RealityClientConnection} (hw : r.conn.writeTls C writer = some (.ok bs, conn)) :
    Tracks C s₀ hello { r with conn, wire := r.wire ++ bs } s ∧
      (writer = List.length → conn.ciphertextWriteBuf = [] ∧
        ∀ c₀ finished read, s.phase = .established c₀ finished read → conn.plaintextWriteBuf = []) := by
  simp only [RealityClientConnection.writeTls] at hw
  split at hw
  case h_1 => cases hw
  case h_2 => cases hw
  case h_3 conn₁ he =>
    cases hw
    obtain ⟨ht, state, plain, out, rfl, hplain⟩ := h.encrypted he
    refine ⟨ht.sent _, ?_⟩
    rintro rfl
    exact ⟨List.drop_length, hplain⟩

theorem Tracks.closeNotify (h : Tracks C s₀ hello r s) {conn : RealityClientConnection}
    (hc : r.conn.sendCloseNotify C = some conn) :
    Tracks C s₀ hello { r with conn, notified := r.notified + (canNotify r.conn).toNat } s := by
  obtain ⟨state, out, rfl, hsim⟩ := sendCloseNotify_spec h.toSim hc
  exact ⟨⟨hsim.phase, hsim.plaintext, hsim.fatal, hsim.sizes⟩, h.before, h.progress⟩

theorem Tracks.step (h : Tracks C s₀ hello r s) (hs : Run.step C r op = some r') : ∃ s', Tracks C s₀ hello r' s' := by
  cases op
  case feed data =>
    obtain ⟨conn, hf, hs⟩ := Option.bind_eq_some_iff.mp hs
    cases hs
    exact ⟨s, h.feed hf⟩
  case process =>
    simp only [Run.step] at hs
    split at hs
    case h_2 => cases hs
    case h_1 hp =>
      cases hs
      exact ⟨_, (h.processed hp).1⟩
  case read cap =>
    obtain ⟨b, hr, _, ht⟩ := h.read cap
    simp only [Run.step, hr, Option.some.injEq] at hs
    subst hs
    exact ⟨s, ht⟩
  case write buf =>
    cases hs
    exact ⟨s, h.write buf⟩
  case writeTls writer =>
    simp only [Run.step] at hs
    split at hs
    case h_2 => cases hs
    case h_1 hw =>
      cases hs
      exact ⟨s, (h.writeTls hw).1⟩
  case closeNotify =>
    obtain ⟨conn, hc, hs⟩ := Option.bind_eq_some_iff.mp hs
    cases hs
    exact ⟨s, h.closeNotify hc⟩

theorem Tracks.run (h : Tracks C s₀ hello r s) (hr : Machine.run (Run.step C) r ops = some r') :
    ∃ s', Tracks C s₀ hello r' s' := by
  induction ops generalizing r s
  case nil =>
    cases hr
    exact ⟨s, h⟩
  case cons op ops hi =>
    obtain ⟨r₁, hs, hr⟩ := run_cons hr
    obtain ⟨s₁, h₁⟩ := h.step hs
    exact hi h₁ hr

theorem new_buffers {m : Memory} {cfg : RealityClientConfig} {e : Entropy} {conn : RealityClientConnection}
    (h : RealityClientConnection.new C m cfg e = .ok conn) :
    conn.ciphertextReadBuf = .new m.ciphertext ∧ conn.plaintextReadBuf = .new m.plaintext := by
  simp only [RealityClientConnection.new, bind, Except.bind] at h
  split at h
  case h_1 => cases h
  case h_2 =>
    cases h
    exact ⟨rfl, rfl⟩

theorem tracks_begin {m : Memory} {cfg : RealityClientConfig} {e : Entropy} {conn : RealityClientConnection}
    (h : RealityClientConnection.new C m cfg e = .ok conn) :
    Tracks C (Session.begin_ conn) conn.ciphertextWriteBuf (begin_ conn) (Session.begin_ conn) := by
  simp only [RealityClientConnection.new, bind, Except.bind] at h
  split at h
  case h_1 => cases h
  case h_2 =>
    cases h
    refine ⟨⟨⟨rfl, rfl, rfl, rfl⟩, rfl, rfl, m.length_ciphertext, m.length_plaintext⟩, ?_, .inl ⟨rfl, rfl, rfl⟩⟩
    exact ⟨[], List.nil_prefix, by rw [Session.drain, drain_none (by rfl)]⟩

-- How far the handshake is, for a connection and for a session.
def SameState : HandshakeState → Phase → Prop
  | .awaitingServerHello a, .hello a'              => a = a'
  | .processingHandshake p, .handshake p'          => p = p'
  | .complete c,            .established c₀ _ read =>
    c.read = read ∧ c.write.key = c₀.write.key ∧ c.write.iv = c₀.write.iv
  | _,                      _                      => False

theorem sameState_of_matches {g : Ghost} {conn : RealityClientConnection} {phase : Phase} (h : Matches C g conn phase) :
    SameState conn.handshakeState phase := by
  cases phase
  case hello a =>
    rw [h.1]
    rfl
  case handshake p =>
    rw [h.1]
    rfl
  case established c₀ finished read =>
    obtain ⟨c, hc, hread, _, _, _, _, _, hs, _⟩ := h
    rw [hc]
    exact ⟨hread, hs.iv.2, hs.iv.1⟩

-- What a call does that processes what has come, and what can be read then.
def Agrees (r : Run) (s : Session) : Option (Result Nat) → Prop
  | none                  => s.status = .panicked ∨ Overflows r.conn r.conn.ciphertextReadBuf.asSlice
  | some (.error e, conn) => s.status = .failed e ∧
      conn.fatalError = if RealityClientConnection.isFatal e.kind then some e.kind else none
  | some (.ok n, conn)    => r.delivered ++ conn.plaintextReadBuf.asSlice = s.plaintext ∧
      n = conn.plaintextReadBuf.len ∧ (s.status = .live ∨ s.status = .closed) ∧
      (conn.receivedCloseNotify = true ↔ s.status = .closed) ∧ SameState conn.handshakeState s.phase

theorem Tracks.agrees (h : Tracks C s₀ hello r s) :
    Agrees r (s₀.drain C r.received).1 (r.conn.processNewPackets C) := by
  obtain ⟨hlive, hopen, hd⟩ | ⟨hclosed, hopen, hd⟩ := h.progress
  case inl =>
    have hspec := processNewPackets_spec ⟨h.toSim, hlive, hopen, rfl⟩
    rw [hd]
    match hp : r.conn.processNewPackets C with
    | none                  => rw [hp] at hspec; exact hspec
    | some (.error e, conn) => rw [hp] at hspec; exact hspec
    | some (.ok n, conn)    =>
      rw [hp] at hspec
      obtain ⟨⟨s', rest, hr, hl | ⟨hsim, hc, ho⟩⟩, hn⟩ := hspec
      case inl =>
        rw [hr]
        refine ⟨hl.plaintext, hn, .inl hl.status, ?_, sameState_of_matches hl.phase⟩
        rw [hl.open_, hl.status]
        exact iff_of_false nofun nofun
      case inr =>
        rw [hr]
        exact ⟨hsim.plaintext, hn, .inr hc, iff_of_true ho hc, sameState_of_matches hsim.phase⟩
  case inr =>
    rw [RealityClientConnection.processNewPackets, h.fatal, hopen, hd]
    exact ⟨h.plaintext, rfl, .inr hclosed, iff_of_true hopen hclosed, sameState_of_matches h.phase⟩

-- Where nothing is left to be read, there is room for the content of all that the other buffer can hold.
theorem Tracks.not_overflows (h : Tracks C s₀ hello r s) (hnil : r.conn.plaintextReadBuf.asSlice = []) :
    ¬Overflows r.conn r.conn.ciphertextReadBuf.asSlice := by
  have hle := r.conn.ciphertextReadBuf.len_le_capacity
  rw [h.sizes.1, ciphertextReadBufCapacity] at hle
  rw [Overflows, SlideBuffer.end_eq_zero hnil, SlideBuffer.length_asSlice, plaintextReadBufCapacity]
  omega

-- Processing what has come panics when the server goes on with the handshake after its end.
theorem Tracks.processNewPackets_eq_none_iff (h : Tracks C s₀ hello r s)
    (hnil : r.conn.plaintextReadBuf.asSlice = []) :
    r.conn.processNewPackets C = none ↔ (s₀.drain C r.received).1.status = .panicked := by
  have hagrees := h.agrees
  cases hp : r.conn.processNewPackets C
  case none =>
    rw [hp] at hagrees
    exact iff_of_true rfl (hagrees.resolve_right (h.not_overflows hnil))
  case some p =>
    refine iff_of_false nofun fun hs => ?_
    rw [hp] at hagrees
    match p with
    | (.error e, _) => cases hs.symm.trans hagrees.1
    | (.ok n, _) =>
      obtain hl | hc := hagrees.2.2.1
      case inl => cases hs.symm.trans hl
      case inr => cases hs.symm.trans hc

-- After the call there is less than a record left, if the server has not closed.
theorem Tracks.lt_of_process (h : Tracks C s₀ hello r s) {n : Nat} {conn : RealityClientConnection}
    (hp : r.conn.processNewPackets C = some (.ok n, conn)) (hopen : conn.receivedCloseNotify = false) :
    conn.ciphertextReadBuf.len < tlsRecordHeaderSize + recordLen conn.ciphertextReadBuf.asSlice := by
  obtain ⟨ht, hrest⟩ := h.processed hp
  have hstop : (s₀.drain C r.received).1.isLive = false ∨ records.size (s₀.drain C r.received).2 = none :=
    drain_stops (F := records) (M := Session.consumer C) _ _
  obtain hdead | hnone := hstop
  case inl =>
    obtain ⟨hlive, _⟩ | ⟨_, hclose, _⟩ := ht.progress
    case inl => cases hdead.symm.trans (isLive_of_live (C := C) hlive)
    case inr => cases hopen.symm.trans hclose
  case inr =>
    rw [← hrest hopen] at hnone
    have hlt := length_lt_of_size_eq_none hnone
    rw [SlideBuffer.length_asSlice] at hlt
    omega

-- What has gone out or waits to, when the server has sent what has made this session: the hello, and once there
-- are keys, the last message of the handshake and the records in which a server that has the keys finds what has been
-- accepted from the application, a notification for each time that it has been notified, and nothing else.
def Sends (C : Crypto) (hello : List UInt8) (r : Run) (s : Session) : HandshakeState → Prop
  | .complete c => ∃ c₀ finished read sealed parts data, s.phase = .established c₀ finished read ∧
      r.wire ++ r.conn.ciphertextWriteBuf = hello ++ finished ++ sealed ∧
      Framed.drain records (RecordCipher.opener C.aead) ⟨c₀.write, [], none⟩ sealed = (⟨c.write, parts, none⟩, []) ∧
      Carries parts data r.notified ∧ data ++ r.conn.plaintextWriteBuf = r.accepted
  | _ => r.wire ++ r.conn.ciphertextWriteBuf = hello ∧ r.conn.plaintextWriteBuf = r.accepted ∧ r.notified = 0

theorem Tracks.sends (h : Tracks C s₀ hello r s) : Sends C hello r (s₀.drain C r.received).1 r.conn.handshakeState := by
  have hphase := h.phase
  cases hp : s.phase
  case hello a =>
    rw [hp] at hphase
    rw [hphase.1]
    exact hphase.2
  case handshake p =>
    rw [hp] at hphase
    rw [hphase.1]
    exact hphase.2
  case established c₀ finished read =>
    rw [hp] at hphase
    obtain ⟨c, hc, _, hiv, inners, parts, sealed, data, hs, hh, hwire, hcarries, hacc⟩ := hphase
    have hread : ∃ read, (s₀.drain C r.received).1.phase = .established c₀ finished read := by
      obtain ⟨_, _, hd⟩ | ⟨_, _, hd⟩ := h.progress
      case inl =>
        rw [hd]
        exact exists_phase_drain hp _
      case inr => exact ⟨read, by rw [hd, hp]⟩
    obtain ⟨read', hread⟩ := hread
    obtain ⟨recs, rfl, ht⟩ := hs.takes hh hiv []
    have hd := (ht.drain []).trans (drain_none (by rfl))
    rw [List.append_nil] at hd
    rw [hc]
    exact ⟨c₀, finished, read', _, parts, data, hread, hwire, hd, hcarries, hacc⟩

-- Where there are keys, nothing waits to be encrypted, or it fits into one record and there is a number for it.
def Ample (s : Session) (conn : RealityClientConnection) : Prop :=
  ∀ c₀ finished read, s.phase = .established c₀ finished read →
    conn.plaintextWriteBuf = [] ∨ conn.plaintextWriteBuf.length ≤ maxTlsPlaintextLen ∧ canNotify conn = true

theorem plaintextWriteBuf_of_accepted (h : Tracks C s₀ hello r s) (hacc : r.accepted = []) :
    r.conn.plaintextWriteBuf = [] := by
  have hphase := h.phase
  cases hp : s.phase
  case hello a =>
    rw [hp] at hphase
    exact hphase.2.2.1.trans hacc
  case handshake p =>
    rw [hp] at hphase
    exact hphase.2.2.1.trans hacc
  case established c₀ finished read =>
    rw [hp] at hphase
    obtain ⟨_, _, _, _, _, _, _, _, _, _, _, _, haccepted⟩ := hphase
    exact (List.append_eq_nil_iff.mp (haccepted.trans hacc)).2

theorem ample_of_accepted (h : Tracks C s₀ hello r s) (hacc : r.accepted = []) : Ample s r.conn :=
  fun _ _ _ _ => .inl (plaintextWriteBuf_of_accepted h hacc)

theorem exists_encryptPending (h : Tracks C s₀ hello r s) (ha : Ample s r.conn) :
    ∃ conn, r.conn.encryptPending C = some (.ok (), conn) := by
  have hphase := h.phase
  cases hp : s.phase
  case hello a =>
    rw [hp] at hphase
    simp only [RealityClientConnection.encryptPending, hphase.1]
    exact ⟨_, rfl⟩
  case handshake p =>
    rw [hp] at hphase
    simp only [RealityClientConnection.encryptPending, hphase.1]
    exact ⟨_, rfl⟩
  case established c₀ finished read =>
    rw [hp] at hphase
    obtain ⟨c, hc, _, hiv, hsent⟩ := hphase
    have hsealed : ∃ write out, c.write.encryptAppData C.aead r.conn.plaintextWriteBuf r.conn.ciphertextWriteBuf =
        (.ok (), write, [], out) := by
      obtain hnil | ⟨hl, hn⟩ := ha c₀ finished read hp
      case inl =>
        rw [hnil]
        exact ⟨_, _, rfl⟩
      case inr =>
        rw [canNotify_eq hc] at hn
        exact RecordCipher.encryptAppData_short (hsent.iv hiv) (of_decide_eq_true hn) hl _
    obtain ⟨write, out, hsealed⟩ := hsealed
    simp only [RealityClientConnection.encryptPending, hc, hsealed]
    exact ⟨_, rfl⟩

theorem exists_writeTls (h : Tracks C s₀ hello r s) (ha : Ample s r.conn) (writer : List UInt8 → Nat) :
    ∃ bs conn, r.conn.writeTls C writer = some (.ok bs, conn) := by
  obtain ⟨conn, he⟩ := exists_encryptPending h ha
  rw [RealityClientConnection.writeTls, he]
  exact ⟨_, _, rfl⟩

end Run
end JammVpn.Reality
