import JammVpn.Net.Theorems.VisionPadded

-- Reads of a stream with padding in its records, in whatever mode it is.
namespace JammVpn.Vision

open Bytes Machine PollIo Reality
open VisionUnpadder (Ends)

namespace VisionStream

variable {C : Crypto} {s₀ : Session} {hello uuid before all received taken given wire delivered rest : List UInt8}
  {s s' : VisionStream}

-- What a read leads to, if it does not fail: nothing is delivered only when nothing is left.
def Serves (C : Crypto) (s₀ : Session) (hello uuid before all given wire delivered : List UInt8) (cap : Nat)
    (s : VisionStream) : Option Read → Prop
  | some (.ready bs, s', src) =>
    Delivers C s₀ hello uuid before all given wire (delivered ++ bs) src.rest s' ∧ s'.writing = s.writing ∧
      (cap ≠ 0 → bs = [] → src.rest = [] ∧ s'.pendingRead = [] ∧ s'.session.plaintextReadBuf.asSlice = [])
  | some (.pending, s', src) =>
    Delivers C s₀ hello uuid before all given wire delivered src.rest s' ∧ s'.writing = s.writing
  | _ => True

theorem Serves.trans {cap : Nat} {res : Option Read} (hw : s'.writing = s.writing)
    (h : Serves C s₀ hello uuid before all given wire delivered cap s' res) :
    Serves C s₀ hello uuid before all given wire delivered cap s res := by
  match res with
  | none                  => trivial
  | some (.error e, _, _) => trivial
  | some (.ready _, _, _) => exact ⟨h.1, h.2.1.trans hw, h.2.2⟩
  | some (.pending, _, _) => exact ⟨h.1, h.2.trans hw⟩

theorem servePending_spec {src : Source} (h : Delivers C s₀ hello uuid before all given wire delivered src.rest s)
    (hne : s.pendingRead ≠ []) (cap : Nat) :
    Serves C s₀ hello uuid before all given wire delivered cap s (some (s.servePending src cap)) := by
  have hmove : delivered ++ s.pendingRead.take cap ++ s.pendingRead.drop cap = delivered ++ s.pendingRead := by
    rw [List.append_assoc, List.take_append_drop]
  refine ⟨⟨h.eof, ?_⟩, rfl, fun hcap hnil => ?_⟩
  case refine_2 =>
    obtain hz | hz := List.take_eq_nil_iff.mp hnil
    case inl => exact absurd hz hcap
    case inr => exact absurd hz hne
  case refine_1 =>
    obtain ⟨received, taken, hpre, hkept, hr⟩ := h.reads
    refine ⟨received, taken, hpre, hkept, ?_⟩
    cases hr
    case response hpending _ _ _ => exact absurd hpending hne
    case padding hm hs hd hall hcut hbody hun hgoes hnothing =>
      exact .padding hm hs hd hall hcut hbody (hmove.symm ▸ hun) hgoes hnothing
    case tls hm hall hearly hcut hbody hun hmade =>
      exact .tls hm hall hearly hcut hbody hun (hmove.trans hmade)
    case direct hm hall hcut hbody hun hmade hnothing =>
      exact .direct hm hall hcut hbody hun (hmove.trans hmade) hnothing

-- Once there is no padding any more, what the session has is delivered as it is.
theorem serveTls_spec {src : Source} (h : Delivers C s₀ hello uuid before all given wire delivered src.rest s)
    (hm : s.readMode = .tls) (hpending : s.pendingRead = []) (hne : s.session.plaintextReadBuf.asSlice ≠ []) (cap : Nat) :
    ∃ session, s.session.reader.consume (min cap s.session.plaintextReadBuf.asSlice.length) = session ∧
      Serves C s₀ hello uuid before all given wire delivered cap s (some (.ready (s.session.plaintextReadBuf.asSlice.take
        (min cap s.session.plaintextReadBuf.asSlice.length)), { s with session }, src)) := by
  obtain ⟨b, hconsume, hb, hcap⟩ := consume_reader (Nat.min_le_right cap s.session.plaintextReadBuf.asSlice.length)
  refine ⟨_, hconsume, ⟨h.eof, ?_⟩, rfl, fun hcap hnil => ?_⟩
  case refine_2 =>
    have hpos := List.length_pos_iff.mpr hne
    obtain hz | hz := List.take_eq_nil_iff.mp hnil
    case inl => exact absurd hz (by omega)
    case inr => exact absurd hz hne
  case refine_1 =>
    obtain ⟨received, taken, hpre, hkept, hr⟩ := h.reads
    have ht := hkept.tracks.taken hb hcap
    refine ⟨received, _, hpre, ⟨ht, hkept.ready⟩, ?_⟩
    cases hr
    case response hmode _ _ _ _ _ _ _ _  => cases hm.symm.trans hmode
    case padding hmode _ _ _ _ _ _ _ _   => cases hm.symm.trans hmode
    case direct hmode _ _ _ _ _ _         => cases hm.symm.trans hmode
    case tls early pieces content u more _ hall hearly hcut hbody hun hmade =>
      have hbody' := hbody.append (s.session.plaintextReadBuf.asSlice.take
        (min cap s.session.plaintextReadBuf.asSlice.length))
      rw [List.append_assoc] at hbody'
      refine .tls hm hall hearly hcut hbody' hun ?_
      rw [hpending, List.append_nil] at hmade ⊢
      rw [hmade, List.append_assoc]

-- More of the connection has come, and the session has processed it.
theorem Delivers.fed {chunk rest' : List UInt8} (h : Delivers C s₀ hello uuid before all given wire delivered rest s)
    (hm : s.readMode = .tls) (hrest : chunk ++ rest' = rest) {session session' : RealityClientConnection} {n m : Nat}
    (hr : s.session.readTls chunk = some (n, session)) (hl : chunk.length ≤ tlsMaxRecordSize)
    (hp : session.processNewPackets C = some (.ok m, session')) :
    Delivers C s₀ hello uuid before all given wire delivered rest' { s with session := session' } ∧
      ({ s with session := session' } : VisionStream).writing = s.writing ∧ m = session'.plaintextReadBuf.len := by
  obtain ⟨received, taken, hpre, hkept, hreads⟩ := h.reads
  obtain ⟨_, b, rfl, hb, hcap⟩ := readTls_spec hr
  rw [List.take_of_length_le hl] at hb
  obtain ⟨hk, _, hout, hplain, hn⟩ := hkept.extended hb hcap hp
  refine ⟨⟨fun he => ?_, received ++ chunk, taken, hpre.trans (List.prefix_append _ _), hk, ?_⟩,
    Prod.ext hout (Prod.ext hplain rfl), hn⟩
  case refine_1 =>
    have hnil := h.eof he
    rw [← hrest] at hnil
    exact (List.append_eq_nil_iff.mp hnil).2
  case refine_2 =>
    cases hreads
    case response hmode _ _ _ _ _ _ _ _  => cases hm.symm.trans hmode
    case padding hmode _ _ _ _ _ _ _ _   => cases hm.symm.trans hmode
    case direct hmode _ _ _ _ _ _         => cases hm.symm.trans hmode
    case tls _ hall hearly hcut hbody hun hmade =>
      rw [← hrest, ← List.append_assoc] at hall
      exact .tls hm hall (hearly.trans (List.prefix_append _ _)) hcut hbody hun hmade

-- The end of the connection below.
theorem Delivers.ended (h : Delivers C s₀ hello uuid before all given wire delivered [] s) {n : Nat}
    {session : RealityClientConnection} (hr : s.session.readTls [] = some (n, session)) :
    Delivers C s₀ hello uuid before all given wire delivered [] { s with session, isReadEof := true } ∧
      session.plaintextReadBuf = s.session.plaintextReadBuf ∧
      ({ s with session, isReadEof := true } : VisionStream).writing = s.writing := by
  obtain ⟨received, taken, hpre, hkept, hreads⟩ := h.reads
  obtain ⟨_, b, rfl, hb, hcap⟩ := readTls_spec hr
  have ht := hkept.tracks.extended hb hcap
  rw [List.take_nil, List.append_nil] at ht
  refine ⟨⟨fun _ => rfl, received, taken, hpre, ⟨ht, hkept.ready⟩, ?_⟩, rfl, rfl⟩
  cases hreads
  case response hmode hs hd hall hun hpending hdel hpart hno =>
    exact .response hmode hs hd hall hun hpending hdel hpart hno
  case padding hmode hs hd hall hcut hbody hun hgoes hnothing =>
    exact .padding hmode hs hd hall hcut hbody hun hgoes hnothing
  case direct hmode hall hcut hbody hun hmade hnothing => exact .direct hmode hall hcut hbody hun hmade hnothing
  case tls hmode hall hearly hcut hbody hun hmade      => exact .tls hmode hall hearly hcut hbody hun hmade

theorem pollLoop_spec (h : Delivers C s₀ hello uuid before all given wire delivered rest s) (hm : s.readMode = .tls)
    (hpending : s.pendingRead = []) (hnothing : s.session.plaintextReadBuf.asSlice = []) (responses : List Response)
    (cap : Nat) :
    Serves C s₀ hello uuid before all given wire delivered cap s (pollReadTls.pollLoop C cap s responses rest) := by
  induction responses generalizing s rest
  case nil => exact ⟨h, rfl⟩
  case cons response responses hi =>
    cases response
    case pending => exact ⟨h, rfl⟩
    case error   => trivial
    case ready n =>
      rw [pollReadTls.pollLoop]
      dsimp only
      have hsplit := List.take_append_drop (min (n + 1) tlsMaxRecordSize) rest
      have hl : (rest.take (min (n + 1) tlsMaxRecordSize)).length ≤ tlsMaxRecordSize :=
        (List.length_take_le _ _).trans (Nat.min_le_right _ _)
      have hend : rest.take (min (n + 1) tlsMaxRecordSize) = [] → rest = [] := fun hnil => by
        obtain hz | hz := List.take_eq_nil_iff.mp hnil
        case inl => exact absurd hz (Nat.ne_of_gt (Nat.lt_min.mpr ⟨n.succ_pos, by decide⟩))
        case inr => exact hz
      generalize rest.take (min (n + 1) tlsMaxRecordSize) = chunk at *
      generalize rest.drop (min (n + 1) tlsMaxRecordSize) = rest' at *
      cases hr : s.session.readTls chunk
      case none => trivial
      case some p =>
        obtain ⟨m, session⟩ := p
        simp only [Option.bind_eq_bind, Option.bind_some]
        split
        case isTrue hz =>
          obtain ⟨hlen, _⟩ := readTls_spec hr
          rw [hz, List.take_of_length_le hl] at hlen
          have hnil := List.length_eq_zero_iff.mp hlen.symm
          cases hend hnil
          rw [hnil] at hsplit hr
          cases (List.nil_append rest').symm.trans hsplit
          obtain ⟨hdel, hbuf, hwriting⟩ := h.ended hr
          rw [← List.append_nil delivered] at hdel
          exact ⟨hdel, hwriting, fun _ _ => ⟨rfl, hpending, hbuf ▸ hnothing⟩⟩
        case isFalse =>
          rcases hp : session.processNewPackets C with _ | ⟨_ | m', session⟩
          case none       => trivial
          case some.error => trivial
          case some.ok =>
            obtain ⟨hdel, hwriting, hm'⟩ := h.fed hm hsplit hr hl hp
            dsimp only
            split
            case isTrue hz =>
              refine (hi hdel hm hpending ?_).trans hwriting
              rw [← List.length_eq_zero_iff, SlideBuffer.length_asSlice, ← hm', hz]
            case isFalse hnz =>
              have hne : session.plaintextReadBuf.asSlice ≠ [] := fun hnil => by
                rw [hm', ← SlideBuffer.length_asSlice, hnil] at hnz
                exact hnz rfl
              obtain hfill | ⟨_, hnil⟩ := @fillBuf_reader session
              case inr => exact absurd hnil hne
              case inl =>
                obtain ⟨session', hconsume, hserves⟩ :=
                  @serveTls_spec C s₀ hello uuid before all given wire delivered { s with session } ⟨responses, rest'⟩
                    hdel hm hpending hne cap
                rw [hfill]
                dsimp only
                rw [if_neg fun he => hne (List.isEmpty_iff.mp he), hconsume]
                exact hserves.trans hwriting

-- Only room has been made in the session.
theorem Delivers.reader (h : Delivers C s₀ hello uuid before all given wire delivered rest s)
    (hm : s.readMode ≠ .paddingTls) :
    Delivers C s₀ hello uuid before all given wire delivered rest { s with session := s.session.reader } := by
  obtain ⟨received, taken, hpre, hkept, hreads⟩ := h.reads
  have hbuf := s.session.plaintextReadBuf.maybeCompacted 4096
  have ht := hkept.tracks.taken (n := 0) hbuf.asSlice hbuf.capacity
  rw [List.take_zero, List.append_nil] at ht
  refine ⟨h.eof, received, taken, hpre, ⟨ht, hkept.ready⟩, ?_⟩
  cases hreads
  case response hmode _ _ _ _ _ _ _ _             => exact absurd hmode hm
  case padding hmode _ _ _ _ _ _ _ _              => exact absurd hmode hm
  case tls hmode hall hearly hcut hbody hun hmade => exact .tls hmode hall hearly hcut hbody hun hmade
  case direct hmode hall hcut hbody hun hmade hnothing =>
    exact .direct hmode hall hcut hbody hun hmade (hbuf.asSlice.trans hnothing)

theorem pollReadTls_spec (h : Delivers C s₀ hello uuid before all given wire delivered rest s) (hm : s.readMode = .tls)
    (hpending : s.pendingRead = []) (responses : List Response) (cap : Nat) :
    Serves C s₀ hello uuid before all given wire delivered cap s (s.pollReadTls C responses rest cap) := by
  have hbuf := s.session.plaintextReadBuf.maybeCompacted 4096
  have hdel := h.reader fun hmode => by cases hm.symm.trans hmode
  rw [pollReadTls]
  dsimp only
  split
  case h_1 b available hfill =>
    have hall : s.session.plaintextReadBuf.asSlice = b :: available := by
      obtain ha | ⟨ha, _⟩ := @fillBuf_reader s.session
      case inl => exact Except.ok.inj (ha.symm.trans hfill)
      case inr => cases ha.symm.trans hfill
    obtain ⟨session, hconsume, hserves⟩ :=
      @serveTls_spec C s₀ hello uuid before all given wire delivered s ⟨responses, rest⟩ h hm hpending
        (hall ▸ List.cons_ne_nil _ _) cap
    rw [hall] at hconsume hserves
    rw [hconsume]
    exact hserves
  case h_2 hno =>
    have hnothing : s.session.plaintextReadBuf.asSlice = [] := by
      obtain hfill | ⟨_, hnil⟩ := @fillBuf_reader s.session
      case inr => exact hnil
      case inl =>
        cases hs : s.session.plaintextReadBuf.asSlice
        case nil  => rfl
        case cons => exact absurd (hs ▸ hfill) (hno _ _)
    have hnothing' : s.session.reader.plaintextReadBuf.asSlice = [] := hbuf.asSlice.trans hnothing
    split
    case isTrue heof =>
      rw [← List.append_nil delivered] at hdel
      exact ⟨hdel, rfl, fun _ _ => ⟨h.eof heof, hpending, hnothing'⟩⟩
    case isFalse => exact (pollLoop_spec hdel hm hpending hnothing' responses cap).trans rfl

theorem pollReadUnpadded_spec {src : Source}
    (h : Delivers C s₀ hello uuid before all given wire delivered src.rest s)
    (hm : s.readMode ≠ .paddingTls ∨ s.pendingRead ≠ []) (cap : Nat) :
    Serves C s₀ hello uuid before all given wire delivered cap s (s.pollReadUnpadded C src cap) := by
  rw [pollReadUnpadded]
  split
  case isTrue hne => exact servePending_spec h (fun hnil => hne (List.isEmpty_iff.mpr hnil)) cap
  case isFalse hnil =>
    have hpending := List.isEmpty_iff.mp (not_not.mp hnil)
    have hm : s.readMode ≠ .paddingTls := hm.resolve_right (not_not.mpr hpending)
    split
    case isFalse hd =>
      refine pollReadTls_spec h ?_ hpending _ cap
      cases hmode : s.readMode
      case paddingTls => exact absurd hmode hm
      case tls        => rfl
      case direct     => exact absurd hmode hd
    case isTrue hd =>
      obtain ⟨received, taken, hpre, hkept, hreads⟩ := h.reads
      cases hreads
      case response hmode _ _ _ _ _ _ _ _ => exact absurd hmode hm
      case padding hmode _ _ _ _ _ _ _ _  => exact absurd hmode hm
      case tls hmode _ _ _ _ _ _          => cases hd.symm.trans hmode
      case direct pieces content u raw _ hall hcut hbody hun hmade hnothing =>
        rcases hp : src.pollRead cap with ⟨p, src'⟩
        dsimp only
        obtain ⟨hread, _⟩ := Source.read_pollRead hp
        cases hread
        case inner   => trivial
        case pending hsame =>
          rw [← hsame.1] at hall h
          exact ⟨⟨h.eof, received, taken, hpre, hkept, .direct hd hall hcut hbody hun hmade hnothing⟩, rfl⟩
        case bytes bs hgives =>
          rw [hpending, List.append_nil] at hmade
          have hall' : received ++ (raw ++ bs) ++ src'.rest = all := by
            rw [← hall, ← hgives.split]
            simp only [List.append_assoc]
          refine ⟨⟨fun he => ?_, received, taken, hpre, hkept, .direct hd hall' hcut hbody hun ?_ hnothing⟩, rfl,
            fun hcap hnil => ?_⟩
          case refine_1 =>
            have hnil := h.eof he
            rw [← hgives.split] at hnil
            exact (List.append_eq_nil_iff.mp hnil).2
          case refine_2 => rw [hpending, List.append_nil, hmade, List.append_assoc]
          case refine_3 =>
            have hend := hgives.ends hcap hnil
            rw [← hgives.split] at hend
            exact ⟨(List.append_eq_nil_iff.mp hend).2, hpending, hnothing⟩

theorem pollReadPaddingTls_spec (h : Unpads C s₀ hello uuid before all given wire delivered rest [] s)
    (hpending : s.pendingRead = []) (responses : List Response) (cap : Nat) :
    Serves C s₀ hello uuid before all given wire delivered cap s (s.pollReadPaddingTls C uuid responses rest cap) := by
  induction responses generalizing s rest
  case nil => exact ⟨h.delivers, rfl⟩
  case cons response responses hi =>
    cases response
    case pending => exact ⟨h.delivers, rfl⟩
    case error   => trivial
    case ready n =>
      have hsplit := List.take_append_drop (min (n + 1) readLen) rest
      have hend : rest.take (min (n + 1) readLen) = [] → rest = [] := fun hnil => by
        obtain hz | hz := List.take_eq_nil_iff.mp hnil
        case inl => exact absurd hz (Nat.ne_of_gt (Nat.lt_min.mpr ⟨n.succ_pos, by decide⟩))
        case inr => exact hz
      rw [pollReadPaddingTls]
      dsimp only
      generalize rest.take (min (n + 1) readLen) = chunk at *
      generalize rest.drop (min (n + 1) readLen) = rest' at *
      split
      case isTrue hnil =>
        have hnil := List.isEmpty_iff.mp hnil
        cases hend hnil
        cases hnil
        cases (List.nil_append rest').symm.trans hsplit
        have hdel : Delivers C s₀ hello uuid before all given wire (delivered ++ []) [] { s with isReadEof := true } := by
          rw [List.append_nil]
          exact Unpads.delivers ⟨fun _ => rfl, h.mode, h.stripped, h.nothing, h.reads⟩
        exact ⟨hdel, rfl, fun _ _ => ⟨rfl, hpending, h.nothing⟩⟩
      case isFalse =>
        obtain ⟨received, taken, d, pieces, command, hpre, hkept, hd, hall, hcut, hbody, hun, hgoes⟩ := h.reads
        rw [hd]
        dsimp only
        have hmore : received ++ (d.feed chunk).buffer ++ rest' = all := by
          rw [← hall, ← hsplit, TlsDeframer.feed]
          simp only [List.append_assoc]
        have hfed : Unpads C s₀ hello uuid before all given wire delivered rest' []
            { s with outerReadDeframer := some (d.feed chunk) } := by
          refine ⟨fun he => ?_, h.mode, h.stripped, h.nothing, received, taken, _, pieces, command, hpre, hkept, rfl,
            hmore, hcut, hbody, hun, hgoes⟩
          have hnil := h.eof he
          rw [← hsplit] at hnil
          exact (List.append_eq_nil_iff.mp hnil).2
        have hrecords := unpadRecords_spec hfed ((d.feed chunk).buffer.length + 1)
        split
        case h_1 => trivial
        case h_2 => trivial
        case h_3 s₁ hs₁ =>
          rw [hs₁] at hrecords
          have hs₁ : Handled C s₀ hello uuid before all given wire delivered rest' s s₁ := hrecords
          split
          case isTrue hm => exact (pollReadUnpadded_spec hs₁.1 (.inl hm) cap).trans hs₁.2.2
          case isFalse hm =>
            split
            case isTrue hne =>
              exact (servePending_spec hs₁.1 (fun hnil => hne (List.isEmpty_iff.mpr hnil)) cap).trans hs₁.2.2
            case isFalse hnil =>
              have hpending := List.isEmpty_iff.mp (not_not.mp hnil)
              exact (hi (hs₁.1.unpads (not_not.mp hm) hs₁.2.1) hpending).trans hs₁.2.2

theorem padded_spec {src : Source} (h : Unpads C s₀ hello uuid before all given wire delivered src.rest [] s)
    (hpending : s.pendingRead = []) (cap : Nat) :
    Serves C s₀ hello uuid before all given wire delivered cap s (pollRead.padded C uuid cap s src) := by
  rw [pollRead.padded]
  split
  case isTrue heof =>
    have hdel := h.delivers
    rw [← List.append_nil delivered] at hdel
    exact ⟨hdel, rfl, fun _ _ => ⟨h.eof heof, hpending, h.nothing⟩⟩
  case isFalse => exact pollReadPaddingTls_spec h hpending _ cap

-- Nothing has been delivered before the header of the response has been read.
theorem Delivers.waiting (h : Delivers C s₀ hello uuid before all given wire delivered rest s)
    (hm : s.readMode = .paddingTls) (hs : s.vlessResponsePending = true) : delivered = [] := by
  obtain ⟨received, taken, hpre, hkept, hreads⟩ := h.reads
  cases hreads
  case response _ _ _ _ _ _ hdel _ _   => exact hdel
  case padding hstripped _ _ _ _ _ _ _ => cases hs.symm.trans hstripped
  case tls hmode _ _ _ _ _ _           => cases hm.symm.trans hmode
  case direct hmode _ _ _ _ _ _        => cases hm.symm.trans hmode

theorem pollRead_spec {src : Source} (h : Delivers C s₀ hello uuid before all given wire delivered src.rest s)
    (cap : Nat) :
    Serves C s₀ hello uuid before all given wire delivered cap s (s.pollRead C uuid src cap) := by
  rw [pollRead]
  split
  case isTrue hne => exact servePending_spec h (fun hnil => hne (List.isEmpty_iff.mpr hnil)) cap
  case isFalse hnil =>
    have hpending := List.isEmpty_iff.mp (not_not.mp hnil)
    split
    case isTrue hm => exact pollReadUnpadded_spec h (.inl hm) cap
    case isFalse hm =>
      have hm := not_not.mp hm
      split
      case isFalse hs => exact padded_spec (h.unpads hm (Bool.eq_false_iff.mpr hs)) hpending cap
      case isTrue hs =>
        cases h.waiting hm hs
        have hresponds := pollReadVlessResponse_spec h hm hs src.responses
        split
        case h_1 => trivial
        case h_2 s₁ src₁ hs₁ =>
          rw [hs₁] at hresponds
          exact hresponds
        case h_3 => trivial
        case h_4 plaintext s₁ src₁ hs₁ =>
          rw [hs₁] at hresponds
          obtain ⟨hun, hwriting, hpending⟩ := hresponds
          dsimp only
          split
          case isTrue hnil =>
            rw [List.isEmpty_iff.mp hnil] at hun
            exact (padded_spec hun.empty hpending cap).trans hwriting
          case isFalse hne =>
            have hhandled := handlePaddedBytes_spec hun fun hnil => hne (List.isEmpty_iff.mpr hnil)
            split
            case h_1 => trivial
            case h_2 => trivial
            case h_3 s₂ hs₂ =>
              rw [hs₂] at hhandled
              obtain ⟨hdel, hstripped, hwriting'⟩ := hhandled
              have hwriting := hwriting'.trans hwriting
              split
              case isTrue hgoes =>
                refine (pollReadUnpadded_spec hdel (hgoes.imp_right fun hne hnil => ?_) cap).trans hwriting
                exact hne (List.isEmpty_iff.mpr hnil)
              case isFalse hstays =>
                obtain ⟨hm, hpending⟩ := not_or.mp hstays
                exact (padded_spec (hdel.unpads (not_not.mp hm) hstripped) (List.isEmpty_iff.mp (not_not.mp hpending))
                  cap).trans hwriting

-- A write leaves the reading side as it is.
theorem Reads.congr (h : Reads C s₀ uuid all received taken delivered rest s) (he : s'.reading = s.reading) :
    Reads C s₀ uuid all received taken delivered rest s' := by
  simp only [reading, Prod.mk.injEq] at he
  obtain ⟨hbuf, hmode, hdeframer, hunpadder, hpending, hresponse, hbegun, _⟩ := he
  have hslice {bs : List UInt8} (h : s.session.plaintextReadBuf.asSlice = bs) :
      s'.session.plaintextReadBuf.asSlice = bs := hbuf ▸ h
  have hmoved {bs : List UInt8} (h : delivered ++ s.pendingRead = bs) : delivered ++ s'.pendingRead = bs := hpending ▸ h
  cases h
  case response hm hs hd hall hun hnil hdel hpart hno =>
    exact .response (hmode.trans hm) (hresponse.trans hs) (hdeframer.trans hd) hall (hunpadder.trans hun)
      (hpending.trans hnil) hdel (hbegun.trans hpart) hno
  case padding hm hs hd hall hcut hbody hun hgoes hnothing =>
    refine .padding (hmode.trans hm) (hresponse.trans hs) (hdeframer.trans hd) hall hcut hbody ?_ hgoes (hslice hnothing)
    rw [hpending, hunpadder]
    exact hun
  case tls hm hall hearly hcut hbody hun hmade =>
    exact .tls (hmode.trans hm) hall hearly hcut hbody hun (hmoved hmade)
  case direct hm hall hcut hbody hun hmade hnothing =>
    exact .direct (hmode.trans hm) hall hcut hbody hun (hmoved hmade) (hslice hnothing)

-- A read leaves the writing side as it is.
theorem Writes.congr {raw accepted : List UInt8} (h : Writes uuid s given raw accepted) (he : s'.writing = s.writing) :
    Writes uuid s' given raw accepted := by
  simp only [writing, Prod.mk.injEq] at he
  obtain ⟨hout, hplain, hmode, hdeframer, hpadder, hdirect, htls⟩ := he
  cases h
  case padding hm hraw hpads =>
    refine .padding (hmode.trans hm) hraw ⟨htls.trans hpads.tls, hdirect.trans hpads.direct, ?_, ?_, ?_⟩
    case refine_1 => exact hdeframer ▸ hpads.checked
    case refine_2 => exact hdeframer ▸ hpads.short
    case refine_3 =>
      rw [hdeframer, hpadder]
      exact hpads.blocks
  case announced hm hraw hnew hann hlast =>
    refine .announced (hmode.trans hm) hraw (hdeframer.trans hnew) ?_ hlast
    rw [Announces, hdirect, htls]
    exact hann
  case tls hm hraw hnew hlast => exact .tls (hmode.trans hm) hraw (hdeframer.trans hnew) hlast
  case direct hm hnone hnew hlast =>
    exact .direct (hmode.trans hm) ⟨hout.trans hnone.1, hplain.trans hnone.2⟩ (hdeframer.trans hnew) hlast

section

variable {early : List UInt8} {pieces : List (List UInt8)} {content : List UInt8}
  {command : Option UnpadCommand} {u : VisionUnpadder}

-- Behind a last block, pieces are handed on as they are.
theorem Unpadded.shows (h : Unpadded uuid pieces content command u) (ps : List (List UInt8)) :
    (Ends command → shown uuid .new (pieces ++ ps) = content ++ ps.flatten) ∧
      (¬Ends command → shown uuid .new (pieces ++ ps) = content ++ shown uuid u ps) := by
  induction h generalizing ps
  case nil => exact ⟨fun he => absurd he not_ends_none, fun _ => rfl⟩
  case empty hgoes hi =>
    refine ⟨fun he => absurd he hgoes, fun _ => ?_⟩
    rw [List.append_assoc, (hi _).2 hgoes, List.singleton_append, shown_nil]
  case snoc hgoes hne hr hi =>
    refine ⟨fun he => ?_, fun he => ?_⟩
    case refine_1 =>
      rw [List.append_assoc, (hi _).2 hgoes, List.singleton_append, shown_last hne hr he, List.append_assoc]
    case refine_2 =>
      rw [List.append_assoc, (hi _).2 hgoes, List.singleton_append, shown_cons hne hr he, List.append_assoc]

-- If the first piece has all of the id, the pieces are read as blocks, however they are cut.
theorem Unpadded.fed (huuid : uuid.length = 16) (h : Unpadded uuid pieces content command u)
    (hfirst : ∀ p, pieces.find? (fun p => !p.isEmpty) = some p → Opens uuid p) :
    (pieces.flatten = [] ∧ content = [] ∧ ¬Ends command ∧ u = .new) ∨
      ∃ wire, pieces.flatten = uuid ++ wire ∧ VisionUnpadder.feed ⟨.readingCommand, true⟩ wire = .ok (content, u) ∧
        (Ends command ↔ u.state = .done) := by
  induction h
  case nil => exact .inl ⟨rfl, rfl, not_ends_none, rfl⟩
  case empty hi =>
    rw [List.flatten_append, List.flatten_singleton, List.append_nil]
    exact hi fun p hp => hfirst p (by rw [List.find?_append, hp, Option.some_or])
  case snoc pieces piece content command u r u' _ hgoes hne hr hi =>
    rw [List.flatten_append, List.flatten_singleton]
    obtain ⟨hnil, rfl, _, rfl⟩ | ⟨wire, hwire, hfeed, hends⟩ :=
      hi fun p hp => hfirst p (by rw [List.find?_append, hp, Option.some_or])
    case inl =>
      have hnone : pieces.find? (fun p => !p.isEmpty) = none := by
        rw [List.find?_eq_none]
        intro p hp
        rw [List.flatten_eq_nil_iff.mp hnil p hp]
        decide
      have hopens : Opens uuid piece := hfirst piece <| by
        rw [List.find?_append, hnone, Option.none_or, List.find?_cons_of_pos (by simpa using hne)]
      obtain ⟨data, rfl⟩ : ∃ data, piece = uuid ++ data :=
        ⟨piece.drop 16, by rw [← hopens.2, List.take_append_drop]⟩
      have hq := @VisionUnpadder.unpads_new uuid data huuid
      rw [hr] at hq
      cases hf : VisionUnpadder.feed ⟨.readingCommand, true⟩ data
      case error =>
        rw [hf] at hq
        cases hq
      case ok fed =>
        rw [hf] at hq
        obtain ⟨command', he, hends⟩ := hq
        cases he
        exact .inr ⟨data, by rw [hnil, List.nil_append], by rw [List.nil_append, List.nil_append]; exact hf, hends⟩
    case inr =>
      have hrun : u.Running := (VisionUnpadder.feed_running (by trivial) hfeed).resolve_left fun hd => hgoes (hends.mpr hd)
      have hq := @VisionUnpadder.unpads_unpad uuid piece u hrun
      rw [hr] at hq
      cases hf : u.feed piece
      case error =>
        rw [hf] at hq
        cases hq
      case ok fed =>
        rw [hf] at hq
        obtain ⟨command', he, hends'⟩ := hq
        cases he
        refine .inr ⟨wire ++ piece, by rw [hwire, List.append_assoc], ?_, hends'⟩
        rw [VisionUnpadder.feed_append hfeed, hf]
        rfl

-- What one unpadder makes of the body, in the pieces in which the records have brought it. Behind the last block comes
-- more of the plaintext, or what comes below the session. Where the first piece has all of the id, it is what the
-- unpadder makes of all that has come at once.
structure Payload (C : Crypto) (s₀ : Session) (uuid received taken raw made : List UInt8) (pieces : List (List UInt8))
    (more : List UInt8) : Prop where
  body     : HasBody taken (pieces.flatten ++ more)
  cut      : ∃ early, early <+: received ∧ Cut C s₀ early pieces
  commands : ∃ content command u, Unpadded uuid pieces content command u ∧ made = content ++ (more ++ raw) ∧
    (more ≠ [] → command = some .«end») ∧ (raw ≠ [] → command = some .direct)
  left     : made = loose uuid (pieces ++ [more ++ raw]) ++
    contents ⟨.readingCommand, true⟩ (blocks uuid (pieces ++ [more ++ raw]))
  whole    : (∀ p, pieces.find? (fun p => !p.isEmpty) = some p → Opens uuid p) →
    ∃ r u, VisionUnpadder.new.unpad uuid (pieces.flatten ++ (more ++ raw)) = (.ok r, u) ∧ r.content = made

theorem Unpadded.payload (huuid : uuid.length = 16) (h : Unpadded uuid pieces content command u)
    (hearly : early <+: received) (hcut : Cut C s₀ early pieces) {more raw : List UInt8}
    (hbody : HasBody taken (pieces.flatten ++ more)) (hmore : more ≠ [] → command = some .«end»)
    (hraw : raw ≠ [] → command = some .direct) :
    Payload C s₀ uuid received taken raw (content ++ (more ++ raw)) pieces more := by
  -- Nothing comes behind the pieces where there was no last block.
  have hnone (hgoes : ¬Ends command) : more ++ raw = [] :=
    List.append_eq_nil_iff.mpr ⟨not_not.mp fun hne => hgoes (.inl (hmore hne)),
      not_not.mp fun hne => hgoes (.inr (hraw hne))⟩
  refine ⟨hbody, ⟨early, hearly, hcut⟩, ⟨content, command, u, h, rfl, hmore, hraw⟩, ?_, fun hfirst => ?_⟩
  case refine_1 =>
    rw [← shown_new huuid]
    by_cases hends : Ends command
    case pos => rw [(h.shows _).1 hends, List.flatten_singleton]
    case neg => rw [(h.shows _).2 hends, hnone hends, shown_nil, shown]
  case refine_2 =>
    obtain ⟨hnil, rfl, hgoes, _⟩ | ⟨wire, hwire, hfeed, hends⟩ := h.fed huuid hfirst
    case inl =>
      rw [hnil, hnone hgoes]
      exact ⟨_, _, unpad_short (by decide), rfl⟩
    case inr =>
      have hall : VisionUnpadder.feed ⟨.readingCommand, true⟩ (wire ++ (more ++ raw)) =
          .ok (content ++ (more ++ raw), u) := by
        rw [VisionUnpadder.feed_append hfeed]
        by_cases hdone : Ends command
        case pos =>
          rw [VisionUnpadder.feed_done (hends.mp hdone)]
          rfl
        case neg =>
          rw [hnone hdone]
          rfl
      have hq := @VisionUnpadder.unpads_new uuid (wire ++ (more ++ raw)) huuid
      rw [hall, ← List.append_assoc, ← hwire] at hq
      obtain ⟨command', he, _⟩ := hq
      exact ⟨_, _, he, List.nil_append _⟩

end

-- What the plaintext of the session, and what comes below it, make.
inductive Made (C : Crypto) (s₀ : Session) (uuid received taken raw made : List UInt8) : Prop
  | waiting : raw = [] → made = [] → (∀ body, ¬HasBody taken body) → Made C s₀ uuid received taken raw made
  | payload {pieces more} : Payload C s₀ uuid received taken raw made pieces more →
      Made C s₀ uuid received taken raw made

theorem Reads.made (huuid : uuid.length = 16) (h : Reads C s₀ uuid all received taken delivered rest s) :
    ∃ kept raw, received ++ kept ++ raw ++ rest = all ∧
      Made C s₀ uuid received taken raw (delivered ++ s.pendingRead) := by
  have hnil {p : Prop} (hne : ([] : List UInt8) ≠ []) : p := absurd rfl hne
  cases h
  case response d _ _ _ hall _ hnil hdel _ hno =>
    refine ⟨d.buffer, [], ?_, .waiting rfl ?_ hno⟩
    case refine_1 => rw [List.append_nil, hall]
    case refine_2 => rw [hdel, hnil, List.append_nil]
  case padding d pieces command _ _ _ hall hcut hbody hun _ _ =>
    refine ⟨d.buffer, [], ?_, .payload (?_ : Payload C s₀ uuid received taken [] _ pieces [])⟩
    case refine_1 => rw [List.append_nil, hall]
    case refine_2 =>
      rw [← List.append_nil (delivered ++ s.pendingRead)]
      exact hun.payload huuid List.prefix_rfl hcut (by rwa [List.append_nil]) hnil hnil
  case tls early pieces content u more _ hall hearly hcut hbody hun hmade =>
    refine ⟨[], [], ?_, .payload (?_ : Payload C s₀ uuid received taken [] _ pieces more)⟩
    case refine_1 => rw [List.append_nil, List.append_nil, hall]
    case refine_2 =>
      have hp : Payload C s₀ uuid received taken [] (content ++ (more ++ [])) pieces more :=
        hun.payload huuid hearly hcut hbody (fun _ => rfl) hnil
      rwa [List.append_nil, ← hmade] at hp
  case direct pieces content u raw _ hall hcut hbody hun hmade _ =>
    refine ⟨[], raw, ?_, .payload (?_ : Payload C s₀ uuid received taken raw _ pieces [])⟩
    case refine_1 => rw [List.append_nil, hall]
    case refine_2 =>
      rw [hmade]
      exact hun.payload huuid List.prefix_rfl hcut (by rwa [List.append_nil]) hnil fun _ => rfl

end VisionStream
end JammVpn.Vision
