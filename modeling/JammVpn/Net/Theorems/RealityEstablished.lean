import JammVpn.Net.Theorems.RealityRun

-- A connection that has keys, and of which all that has been received has been processed.
namespace JammVpn.Reality

open Bytes Framed Machine Run
open RealityClientConnection (processApplicationData processNewPackets)

section Output

variable {C : Crypto} {conn conn' : RealityClientConnection} {c : Complete} {α : Type}

-- What is to be written is not touched.
def KeepsOutput (conn : RealityClientConnection) : Option (Result α) → Prop
  | none            => True
  | some (_, conn') => conn'.ciphertextWriteBuf = conn.ciphertextWriteBuf ∧ conn'.plaintextWriteBuf = conn.plaintextWriteBuf

theorem processApplicationData_output (C : Crypto) (conn : RealityClientConnection) (c : Complete) (turns : Nat) :
    KeepsOutput conn (conn.processApplicationData C c turns) := by
  induction turns generalizing conn c
  case zero => exact ⟨rfl, rfl⟩
  case succ turns hi =>
    rw [processApplicationData]
    split
    case h_1 => exact ⟨rfl, rfl⟩
    case h_2 n _ =>
      rcases hd : c.read.decryptRecordInPlace C.aead ((conn.ciphertextReadBuf.asSlice.take n).drop tlsRecordHeaderSize)
        ((conn.ciphertextReadBuf.asSlice.take n).drop tlsRecordHeaderSize).length with ⟨r, read, decrypted⟩
      simp only [hd]
      cases hs : conn.ciphertextReadBuf.sliceMut tlsRecordHeaderSize decrypted
      case none => trivial
      case some b =>
        -- The record is dropped, and the loop goes on.
        have hskip : KeepsOutput conn (processApplicationData C { conn with
            handshakeState := .complete { c with read }, ciphertextReadBuf := b.consume n } { c with read } turns) :=
          hi { conn with handshakeState := .complete { c with read }, ciphertextReadBuf := b.consume n } _
        simp only [Option.bind_eq_bind, Option.bind_some]
        cases r
        case error e => exact ⟨rfl, rfl⟩
        case ok part =>
          dsimp only
          split
          case isTrue =>
            cases (conn.plaintextReadBuf.maybeCompact 4096).extendFromSlice part.2
            case none => trivial
            case some pb =>
              exact hi { conn with
                handshakeState := .complete { c with read }
                plaintextReadBuf := pb
                ciphertextReadBuf := b.consume n } _
          case isFalse =>
            split
            case isFalse => trivial
            case isTrue =>
              split
              case h_2 => exact hskip
              case h_1 =>
                split
                case isTrue => exact ⟨rfl, rfl⟩
                case isFalse =>
                  split
                  case isTrue  => exact ⟨rfl, rfl⟩
                  case isFalse => exact hskip

-- Once there are keys.
theorem processNewPackets_output (hc : conn.handshakeState = .complete c) :
    KeepsOutput conn (conn.processNewPackets C) := by
  have hd := processApplicationData_output C conn c conn.ciphertextReadBuf.len
  rw [processNewPackets]
  split
  case h_1 => exact ⟨rfl, rfl⟩
  case h_2 =>
    split
    case isTrue => exact ⟨rfl, rfl⟩
    case isFalse =>
      rw [RealityClientConnection.processNewPacketsInner, hc]
      dsimp only
      rcases hr : conn.processApplicationData C c conn.ciphertextReadBuf.len with _ | ⟨_ | _, conn'⟩
      case none => trivial
      case some.ok =>
        rw [hr] at hd
        exact hd
      case some.error =>
        rw [hr] at hd
        dsimp only
        split
        case isTrue  => exact hd
        case isFalse => exact hd

end Output
section Established

variable {C : Crypto} {s₀ s : Session} {hello : List UInt8} {r : Run}

theorem isHandshaking_eq_false_iff (h : Tracks C s₀ hello r s) :
    r.conn.isHandshaking = false ↔ ∃ c₀ finished read, s.phase = .established c₀ finished read := by
  have hphase := h.phase
  rw [RealityClientConnection.isHandshaking]
  cases hp : s.phase
  case hello a =>
    rw [hp] at hphase
    rw [hphase.1]
    exact iff_of_false nofun nofun
  case handshake p =>
    rw [hp] at hphase
    rw [hphase.1]
    exact iff_of_false nofun nofun
  case established c₀ finished read =>
    rw [hp] at hphase
    obtain ⟨c, hc, _⟩ := hphase
    rw [hc]
    exact iff_of_true rfl ⟨c₀, finished, read, rfl⟩

-- What has not been processed is less than a whole record, unless the server has closed.
def CaughtUp (C : Crypto) (s₀ : Session) (received : List UInt8) (conn : RealityClientConnection) : Prop :=
  conn.receivedCloseNotify = false → conn.ciphertextReadBuf.asSlice = (s₀.drain C received).2

-- What has come in is not touched.
structure SameInput (conn conn' : RealityClientConnection) : Prop where
  buffer : conn'.ciphertextReadBuf = conn.ciphertextReadBuf
  closed : conn'.receivedCloseNotify = conn.receivedCloseNotify

theorem SameInput.trans {conn conn₁ conn₂ : RealityClientConnection} (h : SameInput conn conn₁)
    (h' : SameInput conn₁ conn₂) : SameInput conn conn₂ :=
  ⟨h'.buffer.trans h.buffer, h'.closed.trans h.closed⟩

theorem CaughtUp.congr {received : List UInt8} {conn conn' : RealityClientConnection} (h : CaughtUp C s₀ received conn)
    (hsame : SameInput conn conn') : CaughtUp C s₀ received conn' := by
  rw [CaughtUp, hsame.buffer, hsame.closed]
  exact h

-- What is known of a run in which everything is processed as soon as it has been received.
structure Kept (C : Crypto) (s₀ : Session) (hello : List UInt8) (r : Run) : Prop where
  tracks : Tracks C s₀ hello r (s₀.drain C r.received).1
  ready  : ∃ c₀ finished read, (s₀.drain C r.received).1.phase = .established c₀ finished read

theorem Kept.complete (h : Kept C s₀ hello r) : ∃ st, r.conn.handshakeState = .complete st := by
  have hphase := h.tracks.phase
  obtain ⟨c₀, finished, read, hready⟩ := h.ready
  rw [hready] at hphase
  obtain ⟨st, hst, _⟩ := hphase
  exact ⟨st, hst⟩

-- More bytes have come, and have been processed.
theorem Kept.extended (h : Kept C s₀ hello r) {data : List UInt8} {b : SlideBuffer} {conn : RealityClientConnection}
    {n : Nat} (hb : b.asSlice = r.conn.ciphertextReadBuf.asSlice ++ data)
    (hcap : b.capacity = r.conn.ciphertextReadBuf.capacity)
    (hp : ({ r.conn with ciphertextReadBuf := b } : RealityClientConnection).processNewPackets C = some (.ok n, conn)) :
    Kept C s₀ hello { r with conn, received := r.received ++ data } ∧ CaughtUp C s₀ (r.received ++ data) conn ∧
      conn.ciphertextWriteBuf = r.conn.ciphertextWriteBuf ∧ conn.plaintextWriteBuf = r.conn.plaintextWriteBuf ∧
      n = conn.plaintextReadBuf.len := by
  have hmore := h.tracks.extended hb hcap
  obtain ⟨ht, hdone⟩ := hmore.processed hp
  have hagrees := hmore.agrees
  obtain ⟨st, hst⟩ := h.complete
  have hout := @processNewPackets_output C { r.conn with ciphertextReadBuf := b } st hst
  dsimp only at hagrees
  rw [hp] at hout hagrees
  refine ⟨⟨ht, ?_⟩, hdone, hout.1, hout.2, hagrees.2.1⟩
  obtain ⟨c₀, finished, read, hready⟩ := h.ready
  have hdrain : s₀.drain C (r.received ++ data) = (s₀.drain C r.received).1.drain C ((s₀.drain C r.received).2 ++ data) :=
    drain_append _ _ _
  show ∃ c₀ finished read, (s₀.drain C (r.received ++ data)).1.phase = .established c₀ finished read
  rw [hdrain]
  exact ⟨c₀, finished, exists_phase_drain hready _⟩

theorem Kept.processed (h : Kept C s₀ hello r) {data : List UInt8} {conn conn' : RealityClientConnection} {n : Nat}
    (hf : r.conn.feed data = some conn) (hp : conn.processNewPackets C = some (.ok n, conn')) :
    Kept C s₀ hello { r with conn := conn', received := r.received ++ data } ∧
      CaughtUp C s₀ (r.received ++ data) conn' ∧ conn'.ciphertextWriteBuf = r.conn.ciphertextWriteBuf ∧
      conn'.plaintextWriteBuf = r.conn.plaintextWriteBuf ∧ n = conn'.plaintextReadBuf.len := by
  obtain ⟨b, rfl, hb, hcap⟩ := feed_spec hf
  exact h.extended hb hcap hp

end Established
end JammVpn.Reality
