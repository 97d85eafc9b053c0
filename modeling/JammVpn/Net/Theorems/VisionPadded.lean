import JammVpn.Net.Theorems.VisionSend
import JammVpn.Net.Theorems.VisionSplit

-- What the padding in the records of a stream hides, and when it ends.
namespace JammVpn.Vision

open Bytes Machine PollIo Reality
open VisionUnpadder (Ends)

namespace VisionStream

variable {C : Crypto} {s₀ : Session} {hello uuid before all received taken given wire delivered rest : List UInt8}
  {s s' s'' : VisionStream} {d : TlsDeframer} {α β : Type}

-- What a call gives, and the stream that it leaves, if it does not fail.
def Gives (Q : α → VisionStream → Prop) : Option (Result α) → Prop
  | some (.ok a, s) => Q a s
  | _               => True

theorem Gives.andThen {P : α → VisionStream → Prop} {Q : β → VisionStream → Prop} {r : Option (Result α)}
    {f : α → VisionStream → Option (Result β)} (h : Gives P r) (hf : ∀ a s, P a s → Gives Q (f a s)) :
    Gives Q (VisionStream.andThen r f) := by
  match r with
  | none               => trivial
  | some (.error e, _) => trivial
  | some (.ok a, s)    => exact hf a s h

theorem Gives.mono {P Q : α → VisionStream → Prop} {r : Option (Result α)} (h : Gives P r)
    (hpq : ∀ a s, P a s → Q a s) : Gives Q r := by
  match r with
  | none               => trivial
  | some (.error e, _) => trivial
  | some (.ok a, s)    => exact hpq a s h

section Reader

variable {conn : RealityClientConnection}

theorem fillBuf_reader : conn.reader.fillBuf = .ok conn.plaintextReadBuf.asSlice ∨
    conn.reader.fillBuf = .error .wouldBlock ∧ conn.plaintextReadBuf.asSlice = [] := by
  have hm := conn.plaintextReadBuf.maybeCompacted 4096
  rw [RealityClientConnection.fillBuf, RealityClientConnection.reader]
  dsimp only
  split
  case isTrue => exact .inl (by rw [hm.asSlice])
  case isFalse he =>
    have hnil : conn.plaintextReadBuf.asSlice = [] := by
      rw [← hm.asSlice, SlideBuffer.asSlice_eq_nil_iff]
      simpa [SlideBuffer.isEmpty] using he
    split
    case isTrue  => exact .inl (by rw [hnil])
    case isFalse => exact .inr ⟨rfl, hnil⟩

theorem consume_reader {n : Nat} (hle : n ≤ conn.plaintextReadBuf.asSlice.length) :
    ∃ b, conn.reader.consume n = { conn with plaintextReadBuf := b } ∧
      b.asSlice = conn.plaintextReadBuf.asSlice.drop n ∧ b.capacity = conn.plaintextReadBuf.capacity := by
  have hm := conn.plaintextReadBuf.maybeCompacted 4096
  have hlen : (conn.plaintextReadBuf.maybeCompact 4096).len = conn.plaintextReadBuf.asSlice.length := by
    rw [← SlideBuffer.length_asSlice, hm.asSlice]
  have hb := (conn.plaintextReadBuf.maybeCompact 4096).consumed n
  rw [RealityClientConnection.consume, RealityClientConnection.reader]
  dsimp only
  rw [hlen, Nat.min_eq_left hle]
  exact ⟨_, rfl, by rw [hb.asSlice, hm.asSlice], hb.capacity.trans hm.capacity⟩

end Reader

-- What a read does not touch.
def writing (s : VisionStream) :=
  (s.session.ciphertextWriteBuf, s.session.plaintextWriteBuf, s.writeMode, s.innerWriteDeframer, s.padder,
    s.pendingDirectModeSwitch, s.pendingTlsModeSwitch)

-- Only the session has changed: it has been given so many bytes, and so much has been taken from it.
structure Advanced (C : Crypto) (s₀ : Session) (hello received taken given wire : List UInt8) (s s' : VisionStream) :
    Prop where
  session : ∃ session, s' = { s with session }
  kept    : Kept C s₀ hello ⟨s'.session, received, taken, given, wire, 0⟩
  writing : s'.writing = s.writing

theorem feedAndProcess_spec (h : Kept C s₀ hello ⟨s.session, received, taken, given, wire, 0⟩) (data : List UInt8) :
    Gives (fun n s' => Advanced C s₀ hello (received ++ data) taken given wire s s' ∧
      n = s'.session.plaintextReadBuf.len) (s.feedAndProcess C data) := by
  rw [feedAndProcess]
  cases hf : s.session.feed data
  case none => trivial
  case some conn =>
    simp only [Option.bind_eq_bind, Option.bind_some]
    rcases hp : conn.processNewPackets C with _ | ⟨_ | n, session⟩
    case none       => trivial
    case some.error => trivial
    case some.ok =>
      obtain ⟨hk, _, hout, hplain, hn⟩ := h.processed hf hp
      exact ⟨⟨⟨session, rfl⟩, hk, Prod.ext hout (Prod.ext hplain rfl)⟩, hn⟩

theorem takePlaintext_zero (s : VisionStream) (acc : List UInt8) (turns : Nat) :
    s.takePlaintext acc 0 turns = some (.ok acc, s) := by
  cases turns
  case zero => rfl
  case succ => exact if_pos rfl

-- All that can be read is taken at once.
theorem takePlaintext_eq (s : VisionStream) :
    ∃ b, s.takePlaintext [] s.session.plaintextReadBuf.len s.session.plaintextReadBuf.len =
        some (.ok s.session.plaintextReadBuf.asSlice, { s with session := { s.session with plaintextReadBuf := b } }) ∧
      b.asSlice = [] ∧ b.capacity = s.session.plaintextReadBuf.capacity := by
  cases hlen : s.session.plaintextReadBuf.len
  case zero =>
    have hnil : s.session.plaintextReadBuf.asSlice = [] := by
      rw [← List.length_eq_zero_iff, SlideBuffer.length_asSlice, hlen]
    exact ⟨_, by rw [takePlaintext_zero, hnil], hnil, rfl⟩
  case succ n =>
    have hall : s.session.plaintextReadBuf.asSlice.length = n + 1 := by rw [SlideBuffer.length_asSlice, hlen]
    rw [takePlaintext, if_neg (Nat.succ_ne_zero n)]
    obtain hfill | ⟨_, hnil⟩ := @fillBuf_reader s.session
    case inr =>
      rw [hnil] at hall
      cases hall
    case inl =>
      obtain ⟨b, hconsume, hb, hcap⟩ := consume_reader (Nat.le_of_eq hall.symm)
      simp only [hfill, hall, hconsume, Nat.sub_self, takePlaintext_zero, List.nil_append]
      exact ⟨b, rfl, hb.trans (List.drop_of_length_le (Nat.le_of_eq hall)), hcap⟩

theorem takePlaintext_spec (h : Kept C s₀ hello ⟨s.session, received, taken, given, wire, 0⟩) :
    Gives (fun bs s' => Advanced C s₀ hello received (taken ++ bs) given wire s s' ∧
      s'.session.plaintextReadBuf.asSlice = [])
      (s.takePlaintext [] s.session.plaintextReadBuf.len s.session.plaintextReadBuf.len) := by
  obtain ⟨b, htake, hb, hcap⟩ := s.takePlaintext_eq
  rw [htake]
  have hdrop : b.asSlice = s.session.plaintextReadBuf.asSlice.drop s.session.plaintextReadBuf.asSlice.length := by
    rw [hb, List.drop_length]
  have ht := h.tracks.taken hdrop hcap
  rw [List.take_length] at ht
  exact ⟨⟨⟨_, rfl⟩, ⟨ht, h.ready⟩, rfl⟩, hb⟩

theorem plaintext_of_nothing {session : RealityClientConnection}
    (h : Kept C s₀ hello ⟨session, received, taken, given, wire, 0⟩) (hnil : session.plaintextReadBuf.asSlice = []) :
    (s₀.drain C received).1.plaintext = taken := by
  have hplain : taken ++ session.plaintextReadBuf.asSlice = (s₀.drain C received).1.plaintext := h.tracks.plaintext
  rw [← hplain, hnil, List.append_nil]

theorem Advanced.trans {received' taken' : List UInt8} (h : Advanced C s₀ hello received taken given wire s s')
    (h' : Advanced C s₀ hello received' taken' given wire s' s'') :
    Advanced C s₀ hello received' taken' given wire s s'' := by
  obtain ⟨session, rfl⟩ := h.session
  obtain ⟨session', rfl⟩ := h'.session
  exact ⟨⟨session', rfl⟩, h'.kept, h'.writing.trans h.writing⟩

-- The session has been given a record, and its plaintext has been taken.
theorem decrypt_spec (h : Kept C s₀ hello ⟨s.session, received, taken, given, wire, 0⟩) (record : List UInt8) :
    Gives (fun plaintext s' => Advanced C s₀ hello (received ++ record) (taken ++ plaintext) given wire s s' ∧
      s'.session.plaintextReadBuf.asSlice = []) (s.decrypt C record) := by
  refine (feedAndProcess_spec h record).andThen fun n s₁ hfed => ?_
  obtain ⟨hadv, rfl⟩ := hfed
  exact (takePlaintext_spec hadv.kept).mono fun bs s' htaken => ⟨hadv.trans htaken.1, htaken.2⟩

-- All of the records that have come behind the last block.
theorem decryptRest_spec (h : Kept C s₀ hello ⟨s.session, received, taken, given, wire, 0⟩) (d : TlsDeframer) :
    Gives (fun d' s' => ∃ session received' more, s' = { s with session, pendingRead := s.pendingRead ++ more } ∧
      Kept C s₀ hello ⟨session, received', taken ++ more, given, wire, 0⟩ ∧ s'.writing = s.writing ∧
      received <+: received' ∧ received' ++ d'.buffer = received ++ d.buffer) (s.decryptRest C d) := by
  fun_induction decryptRest C s d generalizing received taken
  case case1 => trivial
  case case2 s d d' hn =>
    have hrem := (TlsDeframer.nextRecord_remaining hn).1
    refine ⟨s.session, received, [], ?_, ?_, rfl, List.prefix_rfl, congrArg _ hrem⟩
    case refine_1 => rw [List.append_nil]
    case refine_2 =>
      rw [List.append_nil]
      exact h
  case case3 s d record d' hn hi =>
    have hrem := (TlsDeframer.nextRecord_remaining hn).1
    refine (decrypt_spec h record).andThen fun plaintext s₁ hdec => ?_
    obtain ⟨⟨⟨session, rfl⟩, hkept, hwriting⟩, _⟩ := hdec
    refine (hi plaintext _ hkept).mono fun d'' s' hrest => ?_
    obtain ⟨session', received', more, rfl, hkept', hwriting', hpre, hall⟩ := hrest
    refine ⟨session', received', plaintext ++ more, ?_, ?_, hwriting'.trans hwriting, ?_, ?_⟩
    case refine_1 => rw [List.append_assoc]
    case refine_2 => rwa [List.append_assoc] at hkept'
    case refine_3 => exact (List.prefix_append _ _).trans hpre
    case refine_4 => rw [hall, ← hrem, List.append_assoc]; rfl

-- The body of the response, as the records have cut it. The first piece came with the header.
inductive Cut (C : Crypto) (s₀ : Session) : (received : List UInt8) → (pieces : List (List UInt8)) → Prop
  | first {received piece} : HasBody (s₀.drain C received).1.plaintext piece → Cut C s₀ received [piece]
  | next {received pieces record piece} {d d' : TlsDeframer} : Cut C s₀ received pieces →
      d.nextRecord = (.ok (some record), d') →
      (s₀.drain C (received ++ record)).1.plaintext = (s₀.drain C received).1.plaintext ++ piece →
      Cut C s₀ (received ++ record) (pieces ++ [piece])

-- What the unpadder has made of the pieces. It is not given those that are empty.
inductive Unpadded (uuid : List UInt8) : (pieces : List (List UInt8)) → (content : List UInt8) →
    Option UnpadCommand → VisionUnpadder → Prop
  | nil : Unpadded uuid [] [] none .new
  | empty {pieces content command u} : Unpadded uuid pieces content command u → ¬Ends command →
      Unpadded uuid (pieces ++ [[]]) content command u
  | snoc {pieces piece content command u r u'} : Unpadded uuid pieces content command u → ¬Ends command →
      piece ≠ [] → u.unpad uuid piece = (.ok r, u') →
      Unpadded uuid (pieces ++ [piece]) (content ++ r.content) r.command u'

-- What has been taken from the session and from below it, and what has been made of it.
inductive Reads (C : Crypto) (s₀ : Session) (uuid all received taken delivered rest : List UInt8) (s : VisionStream) :
    Prop
  | response {d : TlsDeframer} : s.readMode = .paddingTls → s.vlessResponsePending = true → s.outerReadDeframer = some d →
      received ++ d.buffer ++ rest = all → s.readUnpadder = .new → s.pendingRead = [] → delivered = [] →
      s.partialVlessResponse = taken → (∀ body, ¬HasBody taken body) →
      Reads C s₀ uuid all received taken delivered rest s
  | padding {d : TlsDeframer} {pieces command} : s.readMode = .paddingTls → s.vlessResponsePending = false →
      s.outerReadDeframer = some d → received ++ d.buffer ++ rest = all → Cut C s₀ received pieces →
      HasBody taken pieces.flatten → Unpadded uuid pieces (delivered ++ s.pendingRead) command s.readUnpadder →
      ¬Ends command → s.session.plaintextReadBuf.asSlice = [] → Reads C s₀ uuid all received taken delivered rest s
  | tls {early pieces content u more} : s.readMode = .tls → received ++ rest = all → early <+: received →
      Cut C s₀ early pieces → HasBody taken (pieces.flatten ++ more) → Unpadded uuid pieces content (some .«end») u →
      delivered ++ s.pendingRead = content ++ more → Reads C s₀ uuid all received taken delivered rest s
  | direct {pieces content u raw} : s.readMode = .direct → received ++ raw ++ rest = all → Cut C s₀ received pieces →
      HasBody taken pieces.flatten → Unpadded uuid pieces content (some .direct) u →
      delivered ++ s.pendingRead = content ++ raw → s.session.plaintextReadBuf.asSlice = [] →
      Reads C s₀ uuid all received taken delivered rest s

-- All that the session has been given came behind the handshake.
structure Delivers (C : Crypto) (s₀ : Session) (hello uuid before all given wire delivered rest : List UInt8)
    (s : VisionStream) : Prop where
  eof   : s.isReadEof = true → rest = []
  reads : ∃ received taken, before <+: received ∧ Kept C s₀ hello ⟨s.session, received, taken, given, wire, 0⟩ ∧
    Reads C s₀ uuid all received taken delivered rest s

-- A stream that is ready for more padded bytes, with what comes next of the plaintext.
structure Unpads (C : Crypto) (s₀ : Session) (hello uuid before all given wire delivered rest : List UInt8)
    (todo : List (List UInt8)) (s : VisionStream) : Prop where
  eof      : s.isReadEof = true → rest = []
  mode     : s.readMode = .paddingTls
  stripped : s.vlessResponsePending = false
  nothing  : s.session.plaintextReadBuf.asSlice = []
  reads    : ∃ received taken d pieces command, before <+: received ∧
    Kept C s₀ hello ⟨s.session, received, taken, given, wire, 0⟩ ∧ s.outerReadDeframer = some d ∧
    received ++ d.buffer ++ rest = all ∧ Cut C s₀ received (pieces ++ todo) ∧
    HasBody taken (pieces ++ todo).flatten ∧
    Unpadded uuid pieces (delivered ++ s.pendingRead) command s.readUnpadder ∧ ¬Ends command

-- A record without plaintext changes nothing.
theorem Unpads.empty (h : Unpads C s₀ hello uuid before all given wire delivered rest [[]] s) :
    Unpads C s₀ hello uuid before all given wire delivered rest [] s := by
  obtain ⟨received, taken, d, pieces, command, hpre, hkept, hd, hall, hcut, hbody, hun, hgoes⟩ := h.reads
  refine ⟨h.eof, h.mode, h.stripped, h.nothing, received, taken, d, pieces ++ [[]], command, hpre, hkept, hd, hall, ?_,
    ?_, hun.empty hgoes, hgoes⟩
  all_goals rwa [List.append_nil]

theorem Unpads.delivers (h : Unpads C s₀ hello uuid before all given wire delivered rest [] s) :
    Delivers C s₀ hello uuid before all given wire delivered rest s := by
  obtain ⟨received, taken, d, pieces, command, hpre, hkept, hd, hall, hcut, hbody, hun, hgoes⟩ := h.reads
  rw [List.append_nil] at hcut hbody
  exact ⟨h.eof, received, taken, hpre, hkept, .padding h.mode h.stripped hd hall hcut hbody hun hgoes h.nothing⟩

theorem Delivers.unpads (h : Delivers C s₀ hello uuid before all given wire delivered rest s)
    (hm : s.readMode = .paddingTls) (hs : s.vlessResponsePending = false) :
    Unpads C s₀ hello uuid before all given wire delivered rest [] s := by
  obtain ⟨received, taken, hpre, hkept, hr⟩ := h.reads
  cases hr
  case response hresponse _ _ _ _ _ _ _ => cases hs.symm.trans hresponse
  case tls hmode _ _ _ _ _ _              => cases hm.symm.trans hmode
  case direct hmode _ _ _ _ _ _           => cases hm.symm.trans hmode
  case padding d pieces command _ _ hd hall hcut hbody hun hgoes hnothing =>
    exact ⟨h.eof, hm, hs, hnothing, received, taken, d, pieces, command, hpre, hkept, hd, hall,
      by rwa [List.append_nil], by rwa [List.append_nil], hun, hgoes⟩

-- What is known when padded bytes have been handled.
def Handled (C : Crypto) (s₀ : Session) (hello uuid before all given wire delivered rest : List UInt8)
    (s s' : VisionStream) : Prop :=
  Delivers C s₀ hello uuid before all given wire delivered rest s' ∧ s'.vlessResponsePending = false ∧
    s'.writing = s.writing

theorem switchReadTo_eq (hm : s.readMode = .paddingTls) (mode : VisionMode) :
    s.switchReadTo mode = (.ok (), { s with readMode := mode }) :=
  if_neg (not_not.mpr hm)

-- One more piece has gone through the unpadder.
theorem handleCommand_spec {pieces : List (List UInt8)} {content : List UInt8} {command : Option UnpadCommand}
    (heof : s.isReadEof = true → rest = []) (hm : s.readMode = .paddingTls) (hs : s.vlessResponsePending = false)
    (hnothing : s.session.plaintextReadBuf.asSlice = []) (hpre : before <+: received)
    (hkept : Kept C s₀ hello ⟨s.session, received, taken, given, wire, 0⟩) (hd : s.outerReadDeframer = some d)
    (hall : received ++ d.buffer ++ rest = all) (hcut : Cut C s₀ received pieces) (hbody : HasBody taken pieces.flatten)
    (hun : Unpadded uuid pieces (delivered ++ s.pendingRead ++ content) command s.readUnpadder) :
    Gives (fun _ s' => Handled C s₀ hello uuid before all given wire delivered rest s s')
      (s.handleCommand C content command) := by
  have hon (hno : ¬Ends command) : Handled C s₀ hello uuid before all given wire delivered rest s
      { s with pendingRead := s.pendingRead ++ content } := by
    rw [List.append_assoc] at hun
    exact ⟨⟨heof, received, taken, hpre, hkept, .padding hm hs hd hall hcut hbody hun hno hnothing⟩, hs, rfl⟩
  match command with
  | none              => exact hon not_ends_none
  | some .«continue» => exact hon (by rintro (h | h) <;> cases h)
  | some .direct      =>
    rw [handleCommand, hd]
    dsimp only
    rw [switchReadTo_eq (by exact hm)]
    refine ⟨⟨heof, received, taken, hpre, hkept, .direct rfl hall hcut hbody hun ?_ hnothing⟩, hs, rfl⟩
    rw [← List.append_assoc, ← List.append_assoc]
  | some .«end»      =>
    rw [handleCommand, hd]
    refine (decryptRest_spec (s := { s with pendingRead := s.pendingRead ++ content, outerReadDeframer := none }) hkept
      d).andThen fun d' s₁ hrest => ?_
    obtain ⟨session, received', more, rfl, hkept', hwriting, hpre', hall'⟩ := hrest
    have hbody' := hbody.append more
    have hmade : delivered ++ (s.pendingRead ++ content ++ more) = delivered ++ s.pendingRead ++ content ++ more := by
      simp only [List.append_assoc]
    rw [← hall'] at hall
    split
    case isTrue hnil =>
      rw [List.isEmpty_iff.mp hnil, List.append_nil] at hall
      rw [switchReadTo_eq (by exact hm)]
      exact ⟨⟨heof, received', _, hpre.trans hpre', hkept', .tls rfl hall hpre' hcut hbody' hun hmade⟩, hs, hwriting⟩
    case isFalse =>
      refine (feedAndProcess_spec hkept' d'.buffer).andThen fun n s₂ hfed => ?_
      obtain ⟨⟨⟨session', rfl⟩, hkept'', hwriting'⟩, _⟩ := hfed
      split
      case isFalse => trivial
      case isTrue =>
        rw [switchReadTo_eq (by exact hm)]
        have hmore := hpre'.trans (List.prefix_append received' d'.buffer)
        exact ⟨⟨heof, _, _, hpre.trans hmore, hkept'', .tls rfl hall hmore hcut hbody' hun hmade⟩, hs,
          hwriting'.trans hwriting⟩

theorem handlePaddedBytes_spec {plaintext : List UInt8}
    (h : Unpads C s₀ hello uuid before all given wire delivered rest [plaintext] s) (hne : plaintext ≠ []) :
    Gives (fun _ s' => Handled C s₀ hello uuid before all given wire delivered rest s s')
      (s.handlePaddedBytes C uuid plaintext) := by
  obtain ⟨received, taken, d, pieces, command, hpre, hkept, hd, hall, hcut, hbody, hun, hgoes⟩ := h.reads
  rw [handlePaddedBytes]
  split
  case h_1 => trivial
  case h_2 r u hr =>
    exact handleCommand_spec h.eof h.mode h.stripped h.nothing hpre hkept hd hall hcut hbody (hun.snoc hgoes hne hr)

theorem Handled.trans (h : Handled C s₀ hello uuid before all given wire delivered rest s s')
    (h' : Handled C s₀ hello uuid before all given wire delivered rest s' s'') :
    Handled C s₀ hello uuid before all given wire delivered rest s s'' :=
  ⟨h'.1, h'.2.1, h'.2.2.trans h.2.2⟩

theorem unpadRecords_spec (h : Unpads C s₀ hello uuid before all given wire delivered rest [] s) (turns : Nat) :
    Gives (fun _ s' => Handled C s₀ hello uuid before all given wire delivered rest s s')
      (s.unpadRecords C uuid turns) := by
  induction turns generalizing s
  case zero => exact ⟨h.delivers, h.stripped, rfl⟩
  case succ turns hi =>
    obtain ⟨received, taken, d, pieces, command, hpre, hkept, hd, hall, hcut, hbody, hun, hgoes⟩ := h.reads
    rw [unpadRecords, hd]
    dsimp only
    split
    case h_1 => trivial
    case h_2 d' hn =>
      have hrem : d'.buffer = d.buffer := (TlsDeframer.nextRecord_remaining hn).1
      refine ⟨Unpads.delivers ⟨h.eof, h.mode, h.stripped, h.nothing, received, taken, d', pieces, command, hpre, hkept,
        rfl, ?_, hcut, hbody, hun, hgoes⟩, h.stripped, rfl⟩
      rw [hrem, hall]
    case h_3 record d' hn =>
      have hrem : record ++ d'.buffer = d.buffer := (TlsDeframer.nextRecord_remaining hn).1
      refine (decrypt_spec (s := { s with outerReadDeframer := some d' }) hkept record).andThen fun plaintext s₁ hdec => ?_
      obtain ⟨⟨⟨session, rfl⟩, hkept', hwriting⟩, hnothing⟩ := hdec
      rw [List.append_nil] at hcut hbody
      rw [← hrem, ← List.append_assoc] at hall
      have hmore : ((s₀.drain C (received ++ record)).1).plaintext = ((s₀.drain C received).1).plaintext ++ plaintext := by
        rw [plaintext_of_nothing hkept h.nothing, plaintext_of_nothing hkept' hnothing]
      have hun' : Unpads C s₀ hello uuid before all given wire delivered rest [plaintext]
          { s with outerReadDeframer := some d', session } := by
        refine ⟨h.eof, h.mode, h.stripped, hnothing, received ++ record, taken ++ plaintext, d', pieces, command,
          hpre.trans (List.prefix_append _ _), hkept', rfl, hall, hcut.next hn hmore, ?_, hun, hgoes⟩
        rw [List.flatten_append, List.flatten_singleton]
        exact hbody.append plaintext
      split
      case isTrue hnil =>
        rw [List.isEmpty_iff.mp hnil] at hun'
        exact (hi hun'.empty).mono fun _ s' hs => ⟨hs.1, hs.2.1, hs.2.2.trans hwriting⟩
      case isFalse hne =>
        refine (handlePaddedBytes_spec hun' fun hnil => hne (List.isEmpty_iff.mpr hnil)).andThen fun _ s₂ hs => ?_
        have hs : Handled C s₀ hello uuid before all given wire delivered rest s s₂ :=
          ⟨hs.1, hs.2.1, hs.2.2.trans hwriting⟩
        split
        case isTrue hm =>
          exact (hi (hs.1.unpads hm hs.2.1)).mono fun _ s' hs' => hs.trans hs'
        case isFalse => exact hs

theorem nextRecords_spec {d d' : TlsDeframer} {records : List (List UInt8)}
    (h : TlsDeframer.nextRecords d = (.ok records, d')) : records.flatten ++ d'.buffer = d.buffer := by
  fun_induction TlsDeframer.nextRecords d generalizing records
  case case1 => cases h
  case case2 d d₁ hn =>
    cases h
    exact (TlsDeframer.nextRecord_remaining hn).1
  case case3 d record d₁ hn r d₂ hrest hi =>
    have hrem : record ++ d₁.buffer = d.buffer := (TlsDeframer.nextRecord_remaining hn).1
    cases r
    case error => cases h
    case ok records =>
      cases h
      rw [List.flatten_cons, List.append_assoc, hi hrest, hrem]

theorem decryptAll_spec (h : Kept C s₀ hello ⟨s.session, received, taken, given, wire, 0⟩)
    (records : List (List UInt8)) :
    Gives (fun _ s' => ∃ session more, s' = { s with session, partialVlessResponse := s.partialVlessResponse ++ more } ∧
      Kept C s₀ hello ⟨session, received ++ records.flatten, taken ++ more, given, wire, 0⟩ ∧
      (records = [] → more = [] ∧ session = s.session) ∧
      (records ≠ [] → session.plaintextReadBuf.asSlice = []) ∧ s'.writing = s.writing) (s.decryptAll C records) := by
  induction records generalizing s received taken
  case nil =>
    refine ⟨s.session, [], ?_, ?_, fun _ => ⟨rfl, rfl⟩, fun hne => absurd rfl hne, rfl⟩
    case refine_1 => rw [List.append_nil]
    case refine_2 =>
      rw [List.flatten_nil, List.append_nil, List.append_nil]
      exact h
  case cons record records hi =>
    refine (decrypt_spec h record).andThen fun plaintext s₁ hdec => ?_
    obtain ⟨⟨⟨session, rfl⟩, hkept, hwriting⟩, hnothing⟩ := hdec
    refine (hi (s := { s with session, partialVlessResponse := s.partialVlessResponse ++ plaintext }) hkept).mono
      fun _ s' hs => ?_
    obtain ⟨session', more, rfl, hkept', hnone, hsome, hwriting'⟩ := hs
    rw [List.append_assoc, List.append_assoc] at hkept'
    refine ⟨session', plaintext ++ more, ?_, hkept', (fun hnil => by cases hnil), fun _ => ?_,
      hwriting'.trans hwriting⟩
    case refine_1 => rw [List.append_assoc]
    case refine_2 =>
      by_cases hrecords : records = []
      case pos => exact (hnone hrecords).2 ▸ hnothing
      case neg => exact hsome hrecords

-- Where all of a header has come, the body begins behind it.
theorem hasBody_drop {addonLength : UInt8} {tail : List UInt8} (hl : 2 + addonLength.toNat ≤ tail.length + 2) :
    HasBody (0 :: addonLength :: tail) ((0 :: addonLength :: tail).drop (2 + addonLength.toNat)) := by
  refine ⟨addonLength, tail.take addonLength.toNat, ?_, ?_⟩
  case refine_1 =>
    rw [List.length_take, Nat.min_eq_left]
    omega
  case refine_2 => rw [Nat.add_comm, List.drop_succ_cons, List.drop_succ_cons, List.take_append_drop]

theorem not_hasBody_of_lt {version addonLength : UInt8} {tail body : List UInt8}
    (hl : tail.length + 2 < 2 + addonLength.toNat) : ¬HasBody (version :: addonLength :: tail) body := by
  rintro ⟨n, addons, hn, he⟩
  cases he
  rw [List.length_append] at hl
  omega

-- What reading the header of the response leads to, if it does not fail.
def Responds (C : Crypto) (s₀ : Session) (hello uuid before all given wire : List UInt8) (s : VisionStream) :
    Option (Poll (List UInt8) × VisionStream × Source) → Prop
  | some (.ready plaintext, s', src) =>
    Unpads C s₀ hello uuid before all given wire [] src.rest [plaintext] { s' with vlessResponsePending := false } ∧
      s'.writing = s.writing ∧ s'.pendingRead = []
  | some (.pending, s', src) =>
    Delivers C s₀ hello uuid before all given wire [] src.rest s' ∧ s'.writing = s.writing
  | _ => True

theorem Responds.trans {res : Option (Poll (List UInt8) × VisionStream × Source)} (hw : s'.writing = s.writing)
    (h : Responds C s₀ hello uuid before all given wire s' res) :
    Responds C s₀ hello uuid before all given wire s res := by
  match res with
  | none                  => trivial
  | some (.error e, _, _) => trivial
  | some (.ready _, _, _) => exact ⟨h.1, h.2.1.trans hw, h.2.2⟩
  | some (.pending, _, _) => exact ⟨h.1, h.2.trans hw⟩

-- All of the header has come, and what is behind it is the first piece.
theorem unpads_first {body : List UInt8} (heof : s.isReadEof = true → rest = []) (hm : s.readMode = .paddingTls)
    (hpre : before <+: received) (hkept : Kept C s₀ hello ⟨s.session, received, taken, given, wire, 0⟩)
    (hd : s.outerReadDeframer = some d) (hall : received ++ d.buffer ++ rest = all) (hbody : HasBody taken body)
    (hnothing : s.session.plaintextReadBuf.asSlice = []) (hun : s.readUnpadder = .new) (hpending : s.pendingRead = []) :
    Unpads C s₀ hello uuid before all given wire [] rest [body] { s with vlessResponsePending := false } := by
  refine ⟨heof, hm, rfl, hnothing, received, taken, d, [], none, hpre, hkept, hd, hall, .first ?_, ?_, ?_,
    not_ends_none⟩
  case refine_1 => rwa [plaintext_of_nothing hkept hnothing]
  case refine_2 => rwa [List.nil_append, List.flatten_singleton]
  case refine_3 =>
    dsimp only
    rw [hun, hpending]
    exact .nil

theorem pollReadVlessResponse_spec (h : Delivers C s₀ hello uuid before all given wire [] rest s)
    (hm : s.readMode = .paddingTls) (hs : s.vlessResponsePending = true) (responses : List Response) :
    Responds C s₀ hello uuid before all given wire s (s.pollReadVlessResponse C responses rest) := by
  induction responses generalizing s rest
  case nil => exact ⟨h, rfl⟩
  case cons response responses hi =>
    cases response
    case pending => exact ⟨h, rfl⟩
    case error   => trivial
    case ready n =>
      rw [pollReadVlessResponse]
      dsimp only
      split
      case isTrue => trivial
      case isFalse =>
        obtain ⟨received, taken, hpre, hkept, hr⟩ := h.reads
        cases hr
        case padding hstripped _ _ _ _ _ _ _ => cases hs.symm.trans hstripped
        case tls hmode _ _ _ _ _ _           => cases hm.symm.trans hmode
        case direct hmode _ _ _ _ _ _        => cases hm.symm.trans hmode
        case response d _ _ hd hall hun hpending _ hpart hno =>
          have hsplit := List.take_append_drop (min (n + 1) readLen) rest
          generalize rest.take (min (n + 1) readLen) = chunk at hsplit
          generalize rest.drop (min (n + 1) readLen) = rest' at hsplit
          have heof (he : s.isReadEof = true) : rest' = [] := by
            have hnil := h.eof he
            rw [← hsplit] at hnil
            exact (List.append_eq_nil_iff.mp hnil).2
          rw [hd]
          dsimp only
          split
          case h_1 => trivial
          case h_2 records d' hrecords =>
            have hrem : records.flatten ++ d'.buffer = d.buffer ++ chunk := nextRecords_spec hrecords
            have hmore : received ++ records.flatten ++ d'.buffer ++ rest' = all := by
              rw [← hall, ← hsplit, List.append_assoc received, hrem]
              simp only [List.append_assoc]
            have hdec := decryptAll_spec (s := { s with outerReadDeframer := some d' }) hkept records
            split
            case h_1 => trivial
            case h_2 => trivial
            case h_3 s₁ hs₁ =>
              rw [hs₁] at hdec
              obtain ⟨session, more, rfl, hkept', hnone, hsome, hwriting⟩ := hdec
              have hpre' := hpre.trans (List.prefix_append received records.flatten)
              -- More is waited for.
              have hwait (hno : ∀ body, ¬HasBody (taken ++ more) body) :
                  Delivers C s₀ hello uuid before all given wire [] rest' { s with
                    outerReadDeframer := some d', session
                    partialVlessResponse := s.partialVlessResponse ++ more } :=
                ⟨heof, _, _, hpre', hkept', .response hm hs rfl hmore hun hpending rfl (congrArg (· ++ more) hpart) hno⟩
              subst hpart
              dsimp only
              split
              case h_2 hshort =>
                refine (hi (hwait ?_) hm hs).trans hwriting
                rintro body ⟨n, addons, _, he⟩
                exact hshort _ _ _ he
              case h_1 version addonLength tail hheader =>
                split
                case isTrue => trivial
                case isFalse hversion =>
                  cases not_not.mp hversion
                  split
                  case isTrue hlt =>
                    refine (hi (hwait ?_) hm hs).trans hwriting
                    rw [hheader] at hlt ⊢
                    exact fun body => not_hasBody_of_lt hlt
                  case isFalse hle =>
                    rw [hheader] at hle hkept'
                    have hbody := hasBody_drop (Nat.le_of_not_lt hle)
                    have hnothing' : session.plaintextReadBuf.asSlice = [] := hsome fun hnil => by
                      rw [(hnone hnil).1, List.append_nil] at hheader
                      exact hno _ (hheader ▸ hbody)
                    rw [← hheader] at hbody hkept'
                    exact ⟨unpads_first heof hm hpre' hkept' rfl hmore hbody hnothing' hun hpending, hwriting, hpending⟩

end VisionStream
end JammVpn.Vision
