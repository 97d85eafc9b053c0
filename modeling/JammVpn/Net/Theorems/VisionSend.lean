import JammVpn.Net.Theorems.RealityStream
import JammVpn.Net.Theorems.VisionWrite
import JammVpn.Net.VisionStream

-- What a stream with padding in its records has taken from the application.
namespace JammVpn.Vision

open Bytes PollIo Reality
open Encoder (pollDone_written pollWrite_pending pollWrite_ready)

section Kept

variable {C : Crypto} {s₀ : Session} {hello : List UInt8} {r : Run}

theorem kept_write (h : Kept C s₀ hello r) (buf : List UInt8) :
    Kept C s₀ hello { r with conn := r.conn.write buf, accepted := r.accepted ++ buf } :=
  ⟨h.tracks.write buf, h.ready⟩

-- What was to be encrypted has been, and the network has taken so much of it.
theorem kept_encrypted (h : Kept C s₀ hello r) {conn : RealityClientConnection}
    (he : r.conn.encryptPending C = some (.ok (), conn)) (n : Nat) :
    Kept C s₀ hello { r with
        conn := { conn with ciphertextWriteBuf := conn.ciphertextWriteBuf.drop n }
        wire := r.wire ++ conn.ciphertextWriteBuf.take n } ∧
      conn.plaintextReadBuf = r.conn.plaintextReadBuf := by
  obtain ⟨ht, _, _, _, rfl, _⟩ := h.tracks.encrypted he
  exact ⟨⟨ht.sent n, h.ready⟩, rfl⟩

end Kept

theorem pollWrite_error {k k' : Sink} {buf : List UInt8} {e : IoError} (h : k.pollWrite buf = (.error e, k')) :
    k'.written = k.written ∧ e = .inner := by
  obtain ⟨rs, written⟩ := k
  cases rs
  case nil => cases h
  case cons r rs => cases r <;> cases h; exact ⟨rfl, rfl⟩

-- What is kept until more comes is less than a record.
theorem pendingBytes_of_needData {d d' : FuzzyTlsDeframer} (hc : d.Checked) (h : d.nextRecord = (.ok .needData, d')) :
    d'.pendingBytes < tlsRecordHeaderSize + maxTlsCiphertextLen := by
  have hrem := (FuzzyTlsDeframer.nextRecord_remaining h).1
  rw [DeframeResult.bytes, List.nil_append] at hrem
  rw [FuzzyTlsDeframer.pendingBytes, hrem, tlsRecordHeaderSize]
  have hcut {buffer : List UInt8} {d' : FuzzyTlsDeframer} (hd : Deframed buffer (.ok .needData, d')) :
      buffer.length < 5 + maxTlsCiphertextLen := by
    cases hd
    case short hl hc => omega
    case cut hb hv hl hc =>
      have hlen := hv.2.2.2.1
      rw [hb]
      simp only [List.length_cons]
      omega
  cases d
  case deframing inner =>
    have hd := deframed hc
    rw [show FuzzyTlsDeframer.deframe inner = _ from h] at hd
    exact hcut hd
  case searching buffer =>
    rw [FuzzyTlsDeframer.nextRecord, FuzzyTlsDeframer.search] at h
    split at h
    case isTrue he =>
      rw [FuzzyTlsDeframer.remainingData, List.isEmpty_iff.mp he]
      exact Nat.add_pos_left (by decide) _
    case isFalse =>
      split at h
      case h_1 =>
        have hd := @deframed (TlsDeframer.new.feed buffer) fun _ hs => by cases hs
        rw [h] at hd
        exact hcut hd
      case h_2 => cases h
      case h_3 =>
        dsimp only at h
        split at h
        case isTrue => cases h
        case isFalse hl =>
          have hsuffix := findPotentialTlsSuffixLen_le buffer
          rw [FuzzyTlsDeframer.remainingData, maxTlsCiphertextLen]
          omega

theorem remainingData_of_error {d d' : FuzzyTlsDeframer} {e : IoError} (h : d.nextRecord = (.error e, d')) :
    d'.remainingData = d.remainingData := by
  have hdeframe {inner : TlsDeframer} (h : FuzzyTlsDeframer.deframe inner = (.error e, d')) :
      d'.remainingData = inner.buffer := by
    rw [FuzzyTlsDeframer.deframe] at h
    split at h
    case h_1 inner' hn =>
      cases h
      rw [TlsDeframer.nextRecord] at hn
      split at hn
      case h_1 => cases hn
      case h_2 =>
        split at hn
        case h_1 =>
          split at hn
          case h_1 =>
            cases hn
            rfl
          case h_2 => cases hn
        case h_2 => cases hn
    case h_2 => cases h
    case h_3 => cases h
  cases d
  case deframing inner => exact hdeframe h
  case searching buffer =>
    rw [FuzzyTlsDeframer.nextRecord, FuzzyTlsDeframer.search] at h
    split at h
    case isTrue => cases h
    case isFalse =>
      split at h
      case h_1 => exact hdeframe h
      case h_2 => cases h
      case h_3 =>
        dsimp only at h
        split at h
        case isTrue  => cases h
        case isFalse => cases h

namespace VisionStream

variable {C : Crypto} {s₀ : Session} {hello received taken given : List UInt8} {s s' : VisionStream} {k k' : Sink}

-- What a write does not touch.
def reading (s : VisionStream) :=
  (s.session.plaintextReadBuf, s.readMode, s.outerReadDeframer, s.readUnpadder, s.pendingRead, s.vlessResponsePending,
    s.partialVlessResponse, s.isReadEof)

-- The session, and what it has been given and has written.
def Carries (C : Crypto) (s₀ : Session) (hello received taken given : List UInt8) (s : VisionStream) (k : Sink) : Prop :=
  Kept C s₀ hello ⟨s.session, received, taken, given, k.written, 0⟩

-- As much has been written as the stream below has taken.
structure Drained (C : Crypto) (s₀ : Session) (hello received taken given : List UInt8) (s : VisionStream) (p : Poll Unit)
    (s' : VisionStream) (k' : Sink) : Prop where
  session : ∃ session, s' = { s with session } ∧ session.plaintextReadBuf = s.session.plaintextReadBuf
  carries : Carries C s₀ hello received taken given s' k'
  done    : p = .ready () → s'.session.ciphertextWriteBuf = [] ∧ s'.session.plaintextWriteBuf = []

-- Nothing is said of a session that cannot encrypt any more.
def Drains (C : Crypto) (s₀ : Session) (hello received taken given : List UInt8) (s : VisionStream) :
    Option (Write Unit) → Prop
  | none            => True
  | some (p, s', k) => (∀ msg, p ≠ .error (.other msg)) → Drained C s₀ hello received taken given s p s' k

theorem Drains.trans {session : RealityClientConnection} {res : Option (Write Unit)}
    (hread : session.plaintextReadBuf = s.session.plaintextReadBuf)
    (h : Drains C s₀ hello received taken given { s with session } res) :
    Drains C s₀ hello received taken given s res := by
  match res with
  | none            => trivial
  | some (p, s', k) =>
    intro hne
    obtain ⟨⟨session', rfl, hread'⟩, hcarries, hdone⟩ := h hne
    exact ⟨⟨session', rfl, hread'.trans hread⟩, hcarries, hdone⟩

theorem drainLoop_spec (h : Carries C s₀ hello received taken given s k) (turns : Nat) :
    Drains C s₀ hello received taken given s (s.drainLoop C k turns) := by
  induction turns generalizing s k
  case zero => exact fun _ => ⟨⟨_, rfl, rfl⟩, h, fun hr => by cases hr⟩
  case succ turns hi =>
    rw [drainLoop]
    split
    case isFalse hw =>
      simp only [RealityClientConnection.wantsWrite, Bool.or_eq_true, Bool.not_eq_true', not_or, Bool.not_eq_false,
        List.isEmpty_iff] at hw
      exact fun _ => ⟨⟨_, rfl, rfl⟩, h, fun _ => hw⟩
    case isTrue =>
      rw [writeTlsDirect]
      rcases he : s.session.encryptPending C with _ | ⟨_ | _, session⟩
      case none => trivial
      case some.error e => exact fun hne => absurd rfl (hne _)
      case some.ok =>
        have henc := fun n => kept_encrypted h he n
        rcases hp : k.pollWrite session.ciphertextWriteBuf with ⟨p, k₁⟩
        simp only [hp]
        cases p
        case pending =>
          obtain ⟨hk, hread⟩ := henc 0
          rw [List.take_zero, List.append_nil, ← pollWrite_pending hp] at hk
          exact fun _ => ⟨⟨_, rfl, hread⟩, hk, fun hr => by cases hr⟩
        case error e =>
          obtain ⟨hk, hread⟩ := henc 0
          rw [List.take_zero, List.append_nil, ← (pollWrite_error hp).1] at hk
          exact fun _ => ⟨⟨_, rfl, hread⟩, hk, fun hr => by cases hr⟩
        case ready n =>
          obtain ⟨hk, hread⟩ := henc n
          dsimp only at hk
          rw [← pollWrite_ready hp] at hk
          cases n
          case zero => exact fun _ => ⟨⟨_, rfl, hread⟩, hk, fun hr => by cases hr⟩
          case succ n =>
            refine Drains.trans ?_ (hi ?_)
            case refine_1 => exact hread
            case refine_2 => exact hk

theorem drainAllWrites_spec (h : Carries C s₀ hello received taken given s k) :
    Drains C s₀ hello received taken given s (s.drainAllWrites C k) :=
  drainLoop_spec h _

-- The session has been given one more block.
theorem writeBlock_spec (h : Carries C s₀ hello received taken given s k) {uuid data : List UInt8}
    (hl : data.length < 65536) (command : UInt8) (isTls : Bool) :
    ∃ padding padder, Fits data padding ∧ padder.firstPacket = false ∧
      Drains C s₀ hello received taken (given ++ (s.padder.head uuid ++ block command data padding)) { s with padder }
        (s.writeBlock C uuid k data command isTls) := by
  obtain ⟨padding, hf, hout, hfirst⟩ := @pad_eq_block uuid s.padder data isTls hl command
  refine ⟨padding, _, hf, hfirst, Drains.trans ?_ (drainAllWrites_spec ?_)⟩
  case refine_1 => rfl
  case refine_2 =>
    rw [← hout]
    exact kept_write h _

-- While there is padding, the deframer keeps less than a record.
structure Pads (uuid : List UInt8) (s : VisionStream) (given accepted : List UInt8) : Prop where
  tls     : s.pendingTlsModeSwitch = false
  direct  : s.pendingDirectModeSwitch = false
  checked : s.innerWriteDeframer.Checked
  short   : s.innerWriteDeframer.pendingBytes < tlsRecordHeaderSize + maxTlsCiphertextLen
  blocks  : ∃ blocks out, Headed uuid s.padder given blocks ∧ Blocks blocks out ∧
    out ++ s.innerWriteDeframer.remainingData = accepted

-- The last block has this command, and more comes behind it.
def Lasts (uuid : List UInt8) (command : UInt8) (given more accepted : List UInt8) : Prop :=
  ∃ blocks out last padding rest, given = uuid ++ (blocks ++ (block command last padding ++ rest)) ∧
    Blocks blocks out ∧ Fits last padding ∧ out ++ last ++ (rest ++ more) = accepted ∧
    (command = commandDirect → rest = [])

-- The last block announces what the next write does.
def Announces (s : VisionStream) (command : UInt8) : Prop :=
  s.pendingDirectModeSwitch = true ∧ command = commandDirect ∨
    s.pendingDirectModeSwitch = false ∧ s.pendingTlsModeSwitch = true ∧ command = commandEnd

-- What the session has been given for all that has been taken, and what has been written behind its records.
inductive Writes (uuid : List UInt8) (s : VisionStream) (given raw accepted : List UInt8) : Prop
  | padding : s.writeMode = .paddingTls → raw = [] → Pads uuid s given accepted → Writes uuid s given raw accepted
  | announced {command} : s.writeMode = .paddingTls → raw = [] → s.innerWriteDeframer = .new → Announces s command →
      Lasts uuid command given [] accepted → Writes uuid s given raw accepted
  | tls : s.writeMode = .tls → raw = [] → s.innerWriteDeframer = .new → Lasts uuid commandEnd given [] accepted →
      Writes uuid s given raw accepted
  | direct : s.writeMode = .direct → s.session.ciphertextWriteBuf = [] ∧ s.session.plaintextWriteBuf = [] →
      s.innerWriteDeframer = .new → Lasts uuid commandDirect given raw accepted → Writes uuid s given raw accepted

-- All that the session has been given is in its records or waits to be, and the header came before it.
def Accepts (C : Crypto) (s₀ : Session) (hello uuid header received taken accepted : List UInt8) (s : VisionStream)
    (k : Sink) : Prop :=
  ∃ given wire raw, k.written = wire ++ raw ∧ Kept C s₀ hello ⟨s.session, received, taken, header ++ given, wire, 0⟩ ∧
    Writes uuid s given raw accepted

-- What a write leads to, if it does not fail.
def Wrote (C : Crypto) (s₀ : Session) (hello uuid header received taken accepted buf : List UInt8) (s : VisionStream) :
    Option (Write Nat) → Prop
  | some (.ready n, s', k) =>
    Accepts C s₀ hello uuid header received taken (accepted ++ buf.take n) s' k ∧ s'.reading = s.reading
  | some (.pending, s', k) => Accepts C s₀ hello uuid header received taken accepted s' k ∧ s'.reading = s.reading
  | _                      => True

variable {uuid header accepted buf total : List UInt8} {d d' : FuzzyTlsDeframer} {count : Nat} {r : DeframeResult}

-- The loop has made blocks of so many bytes of all that there is, and the deframer has the rest.
structure Loops (uuid : List UInt8) (s : VisionStream) (d : FuzzyTlsDeframer) (given total : List UInt8) (count : Nat) :
    Prop where
  mode    : s.writeMode = .paddingTls
  tls     : s.pendingTlsModeSwitch = false
  direct  : s.pendingDirectModeSwitch = false
  checked : d.Checked
  short   : d.pendingBytes < 65536
  blocks  : ∃ blocks out, Headed uuid s.padder given blocks ∧ Blocks blocks out ∧ out ++ d.remainingData = total ∧
    out.length = count

theorem checked_next (hc : d.Checked) (hn : d.nextRecord = (.ok r, d')) : d'.Checked := by
  have hr := refusedNext hc
  rw [hn] at hr
  cases r <;> exact hr.1

theorem Loops.found (h : Loops uuid s d given total count) (hn : d.nextRecord = (.ok r, d')) :
    d'.Checked ∧ r.bytes.length < 65536 ∧ d'.pendingBytes < 65536 := by
  have hshort := h.short
  rw [FuzzyTlsDeframer.pendingBytes, ← (FuzzyTlsDeframer.nextRecord_remaining hn).1, List.length_append] at hshort
  exact ⟨checked_next h.checked hn, Nat.lt_of_add_right_lt hshort, Nat.lt_of_add_left_lt hshort⟩

theorem Loops.block (h : Loops uuid s d given total count) (hn : d.nextRecord = (.ok r, d')) {padding : List UInt8}
    (hf : Fits r.bytes padding) {padder : Padder} (hfirst : padder.firstPacket = false)
    (session : RealityClientConnection) (filter : VisionFilter) :
    Loops uuid { s with session, filter, innerWriteDeframer := d', padder } d'
      (given ++ (s.padder.head uuid ++ Vision.block commandContinue r.bytes padding)) total (count + r.bytes.length) := by
  obtain ⟨hchecked, _, hshort⟩ := h.found hn
  obtain ⟨blocks, out, hhead, hb, hall, hcount⟩ := h.blocks
  refine ⟨h.mode, h.tls, h.direct, hchecked, hshort, _, _, .inr ⟨hfirst, hhead.append⟩, hb.snoc hf, ?_, ?_⟩
  case refine_1 => rw [List.append_assoc, (FuzzyTlsDeframer.nextRecord_remaining hn).1, hall]
  case refine_2 => rw [List.length_append, hcount]

-- Of the buffer, as much is in the blocks as has been counted.
theorem taken_of_count {out rest : List UInt8} {n : Nat} (h : out ++ rest = accepted ++ buf)
    (hl : out.length = accepted.length + n) : out = accepted ++ buf.take n := by
  calc
    out = (out ++ rest).take out.length := List.take_left.symm
    _ = accepted ++ buf.take n := by rw [h, hl, List.take_length_add_append]

-- A last block ends the padding, and the deframer is cleared.
theorem wrote_last (h : Carries C s₀ hello received taken (header ++ given) s k) {data : List UInt8} {n : Nat}
    (hl : data.length < 65536) {command : UInt8} {isTls : Bool} {p : Poll Unit}
    (hb : s.writeBlock C uuid k data command isTls = some (p, s', k')) (hne : ∀ e, p ≠ .error e)
    (hw : ∀ padding padder session, Fits data padding → padder.firstPacket = false →
      Writes uuid { s with session, padder, innerWriteDeframer := .new }
        (given ++ (s.padder.head uuid ++ Vision.block command data padding)) [] (accepted ++ buf.take n)) :
    Wrote C s₀ hello uuid header received taken accepted buf s
      (some (.ready n, { s' with innerWriteDeframer := s'.innerWriteDeframer.clear }, k')) := by
  obtain ⟨padding, padder, hf, hfirst, hd⟩ := @writeBlock_spec _ _ _ _ _ _ _ _ h uuid data hl command isTls
  rw [hb] at hd
  obtain ⟨⟨session, rfl, hread⟩, hcarries, _⟩ := hd fun _ => hne _
  refine ⟨⟨_, k'.written, [], (List.append_nil _).symm, ?_, hw padding padder session hf hfirst⟩, Prod.ext hread rfl⟩
  rw [← List.append_assoc]
  exact hcarries

-- The caller gives the rest of its buffer again.
theorem writeLast_spec (h : Carries C s₀ hello received taken (header ++ given) s k) {data : List UInt8}
    {processed existing : Nat} (hl : data.length < 65536) (command : UInt8) (isTls : Bool)
    (hw : existing ≤ processed → ∀ padding padder session, Fits data padding → padder.firstPacket = false →
      Writes uuid { s with session, padder, innerWriteDeframer := .new }
        (given ++ (s.padder.head uuid ++ Vision.block command data padding)) []
        (accepted ++ buf.take (processed - existing))) :
    Wrote C s₀ hello uuid header received taken accepted buf s
      (s.writeLast C uuid k data command isTls processed existing) := by
  rw [writeLast]
  split
  case h_1 => trivial
  case h_2 => trivial
  case h_3 hne hb =>
    split
    case isTrue     => trivial
    case isFalse hle => exact wrote_last h hl hb (fun e he => hne e he) (hw (Nat.le_of_not_lt hle))

-- A block that is to be continued has been given to the session.
theorem Loops.written (h : Loops uuid s d given total count) (hn : d.nextRecord = (.ok r, d'))
    (hc : Carries C s₀ hello received taken (header ++ given) s k) {filter : VisionFilter} {isTls : Bool} {p : Poll Unit}
    (hb : writeBlock C uuid { s with filter, innerWriteDeframer := d' } k r.bytes commandContinue isTls =
      some (p, s', k')) (hne : ∀ e, p ≠ .error e) :
    ∃ given', Carries C s₀ hello received taken (header ++ given') s' k' ∧
      Loops uuid s' d' given' total (count + r.bytes.length) ∧ s'.innerWriteDeframer = d' ∧ s'.reading = s.reading := by
  obtain ⟨padding, padder, hf, hfirst, hd⟩ :=
    @writeBlock_spec _ _ _ _ _ _ { s with filter, innerWriteDeframer := d' } _ hc uuid _ (h.found hn).2.1
      commandContinue isTls
  rw [hb] at hd
  obtain ⟨⟨session, rfl, hread⟩, hcarries, _⟩ := hd fun _ => hne _
  refine ⟨_, ?_, h.block hn hf hfirst session filter, rfl, Prod.ext hread rfl⟩
  rw [← List.append_assoc]
  exact hcarries

theorem Wrote.trans {s₁ : VisionStream} {res : Option (Write Nat)}
    (h : Wrote C s₀ hello uuid header received taken accepted buf s₁ res) (hread : s₁.reading = s.reading) :
    Wrote C s₀ hello uuid header received taken accepted buf s res := by
  match res with
  | none                   => trivial
  | some (.error e, _, _)  => trivial
  | some (.pending, _, _)  => exact ⟨h.1, h.2.trans hread⟩
  | some (.ready n, _, _)  => exact ⟨h.1, h.2.trans hread⟩

theorem lasts_of_headed {p : Padder} {wire blocks out last padding : List UInt8} (h : Headed uuid p wire blocks)
    (hb : Blocks blocks out) (hf : Fits last padding) (hacc : out ++ last = accepted) (command : UInt8) :
    Lasts uuid command (wire ++ (p.head uuid ++ Vision.block command last padding)) [] accepted := by
  refine ⟨blocks, out, last, padding, [], ?_, hb, hf, ?_, fun _ => rfl⟩
  case refine_1 => rw [h.append, List.append_nil]
  case refine_2 => rw [List.append_nil, List.append_nil, hacc]

-- With what is found, so much of the buffer has been taken.
theorem Loops.covers (h : Loops uuid s d given (accepted ++ buf) count) (hn : d.nextRecord = (.ok r, d'))
    {existing processed : Nat} (hcount : count + existing = accepted.length + processed)
    (hle : existing ≤ processed + r.bytes.length) :
    ∃ blocks out, Headed uuid s.padder given blocks ∧ Blocks blocks out ∧
      out ++ r.bytes = accepted ++ buf.take (processed + r.bytes.length - existing) := by
  obtain ⟨blocks, out, hhead, hb, hall, hlen⟩ := h.blocks
  have hrem : out ++ r.bytes ++ d'.remainingData = accepted ++ buf := by
    rw [List.append_assoc, (FuzzyTlsDeframer.nextRecord_remaining hn).1, hall]
  refine ⟨blocks, out, hhead, hb, taken_of_count hrem ?_⟩
  rw [List.length_append]
  omega

theorem writeLoop_spec {existing len processed : Nat} (hc : Carries C s₀ hello received taken (header ++ given) s k)
    (h : Loops uuid s d given (accepted ++ buf) count) (hcount : count + existing = accepted.length + processed)
    (hlen : len = buf.length) :
    Wrote C s₀ hello uuid header received taken accepted buf s (s.writeLoop C uuid d k existing len processed) := by
  fun_induction writeLoop C uuid s d k existing len processed generalizing given count
  case case1  => trivial
  case case2  => trivial
  case case5  => trivial
  case case8  => trivial
  case case9  => trivial
  case case11 => trivial
  case case13 => trivial
  case case14 => trivial
  case case3 s d k processed e d' hn s₁ p s₂ k₂ hne hb =>
    have hrem := remainingData_of_error hn
    obtain ⟨blocks, out, hhead, hbl, hall, _⟩ := h.blocks
    have hshort : d'.remainingData.length < 65536 := hrem ▸ h.short
    refine (wrote_last (s := s₁) hc hshort hb hne fun padding padder session hf _ => ?_).trans rfl
    refine .announced h.mode rfl rfl (.inr ⟨h.direct, rfl, rfl⟩) (lasts_of_headed hhead hbl hf ?_ commandEnd)
    rw [hrem, hall, hlen, List.take_length]
  case case4 s d k processed d' hn =>
    have hrem := (FuzzyTlsDeframer.nextRecord_remaining hn).1
    obtain ⟨blocks, out, hhead, hbl, hall, _⟩ := h.blocks
    refine ⟨⟨given, k.written, [], (List.append_nil _).symm, hc, .padding h.mode rfl ⟨h.tls, h.direct,
      checked_next h.checked hn, pendingBytes_of_needData h.checked hn, blocks, out, hhead, hbl, ?_⟩⟩, rfl⟩
    rw [hlen, List.take_length, ← hall, ← hrem]
    rfl
  case case6 s d k processed record d' hn processed' s₁ _ hlt _ =>
    refine (writeLast_spec (s := { s₁ with pendingDirectModeSwitch := true }) hc (h.found hn).2.1 commandDirect true
      fun hle padding padder session hf _ => ?_).trans rfl
    obtain ⟨blocks, out, hhead, hbl, htaken⟩ := h.covers hn hcount hle
    exact .announced h.mode rfl rfl (.inl ⟨rfl, rfl⟩) (lasts_of_headed hhead hbl hf htaken commandDirect)
  case case7 s d k processed record d' hn processed' s₁ _ hlt _ =>
    refine (writeLast_spec (s := { s₁ with pendingTlsModeSwitch := true }) hc (h.found hn).2.1 commandEnd true
      fun hle padding padder session hf _ => ?_).trans rfl
    obtain ⟨blocks, out, hhead, hbl, htaken⟩ := h.covers hn hcount hle
    exact .announced h.mode rfl rfl (.inr ⟨h.direct, rfl, rfl⟩) (lasts_of_headed hhead hbl hf htaken commandEnd)
  case case16 s d k processed before d' hn processed' s₁ _ =>
    refine (writeLast_spec (s := { s₁ with pendingTlsModeSwitch := true, innerWriteDeframer := d'.clear }) hc
      (h.found hn).2.1 commandEnd _ fun hle padding padder session hf _ => ?_).trans rfl
    obtain ⟨blocks, out, hhead, hbl, htaken⟩ := h.covers hn hcount hle
    exact .announced h.mode rfl rfl (.inr ⟨h.direct, rfl, rfl⟩) (lasts_of_headed hhead hbl hf htaken commandEnd)
  case case10 s d k processed record d' hn processed' s₁ _ s₂ k₂ hb hi =>
    obtain ⟨given', hc', h', _, hread⟩ := h.written hn hc hb nofun
    exact (hi hc' h' (by simp only [processed', DeframeResult.bytes]; omega)).trans hread
  case case15 s d k processed before d' hn processed' s₁ _ p s₂ k₂ hne hb hi =>
    obtain ⟨given', hc', h', _, hread⟩ := h.written hn hc hb hne
    exact (hi hc' h' (by simp only [processed', DeframeResult.bytes]; omega)).trans hread
  case case12 s d k processed record d' hn processed' s₁ _ s₂ k₂ hb taken' hpanic =>
    obtain ⟨given', hc', h', _, hread⟩ := h.written hn hc hb nofun
    obtain ⟨blocks, out, hhead, hbl, hall, hcnt⟩ := h'.blocks
    have hnew : FuzzyTlsDeframer.new.pendingBytes < tlsRecordHeaderSize + maxTlsCiphertextLen := by decide
    refine ⟨⟨given', k₂.written, [], (List.append_nil _).symm, hc', .padding h'.mode rfl ⟨h'.tls, h'.direct, trivial,
      hnew, blocks, out, hhead, hbl, ?_⟩⟩, hread⟩
    refine (List.append_nil _).trans (taken_of_count hall ?_)
    simp only [processed', DeframeResult.bytes, not_or, not_lt] at hcnt hpanic
    omega

-- Until what is written goes on as it is, the session's records are all that has been written.
theorem Accepts.indirect (h : Accepts C s₀ hello uuid header received taken accepted s k) (hm : s.writeMode ≠ .direct) :
    ∃ given, Carries C s₀ hello received taken (header ++ given) s k ∧ Writes uuid s given [] accepted := by
  obtain ⟨given, wire, raw, hk, hkept, hw⟩ := h
  have hraw : raw = [] := by
    cases hw
    case padding hraw _       => exact hraw
    case announced hraw _ _ _ => exact hraw
    case tls hraw _ _         => exact hraw
    case direct hmode _ _ _   => exact absurd hmode hm
  rw [hraw, List.append_nil] at hk
  subst hk hraw
  exact ⟨given, hkept, hw⟩

theorem pollWriteTls_spec (h : Accepts C s₀ hello uuid header received taken accepted s k) (hm : s.writeMode = .tls) :
    Wrote C s₀ hello uuid header received taken accepted buf s (s.pollWriteTls C k buf) := by
  rw [pollWriteTls]
  split
  case isTrue =>
    refine ⟨?_, rfl⟩
    rw [List.take_zero, List.append_nil]
    exact h
  case isFalse =>
    obtain ⟨given, hkept, hw⟩ := h.indirect fun hmode => by cases hm.symm.trans hmode
    cases hw
    case padding hmode _ _       => cases hm.symm.trans hmode
    case announced hmode _ _ _ _ => cases hm.symm.trans hmode
    case direct hmode _ _ _      => cases hm.symm.trans hmode
    case tls _ _ hnew hlast =>
      obtain ⟨blocks, out, last, padding, rest, hgiven, hb, hf, hacc, _⟩ := hlast
      have hmore : given ++ buf = uuid ++ (blocks ++ (Vision.block commandEnd last padding ++ (rest ++ buf))) := by
        rw [hgiven, List.append_assoc, List.append_assoc, List.append_assoc]
      have htaken : out ++ last ++ (rest ++ buf ++ []) = accepted ++ buf.take buf.length := by
        rw [List.take_length, ← hacc, List.append_nil, List.append_nil, List.append_assoc _ rest]
      have hd := drainAllWrites_spec (s := { s with session := s.session.write buf }) (k := k) (kept_write hkept buf)
      -- What the stream below does not take is kept, whether it reports that or takes nothing.
      have hdone {p : Poll Unit} {s' : VisionStream} {k' : Sink}
          (hp : drainAllWrites C { s with session := s.session.write buf } k = some (p, s', k'))
          (hne : ∀ msg, p ≠ .error (.other msg)) :
          Wrote C s₀ hello uuid header received taken accepted buf s (some (.ready buf.length, s', k')) := by
        rw [hp] at hd
        obtain ⟨⟨session, rfl, hread⟩, hcarries, _⟩ := hd hne
        refine ⟨⟨given ++ buf, k'.written, [], (List.append_nil _).symm, ?_, .tls hm rfl hnew
          ⟨blocks, out, last, padding, rest ++ buf, hmore, hb, hf, htaken, nofun⟩⟩, Prod.ext hread rfl⟩
        rw [← List.append_assoc]
        exact hcarries
      split
      case h_1 => trivial
      case h_2 hp => exact hdone hp nofun
      case h_3 => trivial
      case h_4 hne hp => exact hdone hp fun msg he => hne _ he

-- What is drained is only the session.
theorem Writes.drained (hw : Writes uuid s given [] accepted) (hc : Carries C s₀ hello received taken (header ++ given) s k)
    (hm : s.writeMode ≠ .direct) {p : Poll Unit} (hd : s.drainAllWrites C k = some (p, s', k'))
    (hne : ∀ msg, p ≠ .error (.other msg)) :
    Carries C s₀ hello received taken (header ++ given) s' k' ∧ Writes uuid s' given [] accepted ∧
      s'.writeMode = s.writeMode ∧ s'.reading = s.reading ∧
      (p = .ready () → s'.session.ciphertextWriteBuf = [] ∧ s'.session.plaintextWriteBuf = []) := by
  have hs := drainAllWrites_spec hc
  rw [hd] at hs
  obtain ⟨⟨session, rfl, hread⟩, hcarries, hdone⟩ := hs hne
  refine ⟨hcarries, ?_, rfl, Prod.ext hread rfl, hdone⟩
  cases hw
  case padding hmode hraw hpads             =>
    exact .padding hmode hraw ⟨hpads.tls, hpads.direct, hpads.checked, hpads.short, hpads.blocks⟩
  case announced hmode hraw hnew hann hlast => exact .announced hmode hraw hnew hann hlast
  case tls hmode hraw hnew hlast            => exact .tls hmode hraw hnew hlast
  case direct hmode _ _ _                   => exact absurd hmode hm

-- Behind the last record that announced it, what is taken goes on as it is.
theorem wrote_direct {wire raw : List UInt8} (hk : k.written = wire ++ raw)
    (hkept : Kept C s₀ hello ⟨s.session, received, taken, header ++ given, wire, 0⟩) (hm : s.writeMode = .direct)
    (hout : s.session.ciphertextWriteBuf = [] ∧ s.session.plaintextWriteBuf = []) (hnew : s.innerWriteDeframer = .new)
    (hlast : Lasts uuid commandDirect given raw accepted) :
    Wrote C s₀ hello uuid header received taken accepted buf s (some ((k.pollWrite buf).1, s, (k.pollWrite buf).2)) := by
  rcases hp : k.pollWrite buf with ⟨p, k'⟩
  cases p
  case error e => trivial
  case pending =>
    refine ⟨⟨given, wire, raw, ?_, hkept, .direct hm hout hnew hlast⟩, rfl⟩
    rw [pollWrite_pending hp, hk]
  case ready n =>
    obtain ⟨blocks, out, last, padding, rest, hgiven, hb, hf, hacc, hrest⟩ := hlast
    refine ⟨⟨given, wire, raw ++ buf.take n, ?_, hkept, .direct hm hout hnew
      ⟨blocks, out, last, padding, rest, hgiven, hb, hf, ?_, hrest⟩⟩, rfl⟩
    case refine_1 => rw [pollWrite_ready hp, hk, List.append_assoc]
    case refine_2 => rw [← List.append_assoc rest, ← List.append_assoc, hacc]

theorem remainingData_feed (d : FuzzyTlsDeframer) (buf : List UInt8) :
    (d.feed buf).remainingData = d.remainingData ++ buf := by
  cases d <;> rfl

-- The switches that a last block has announced.
theorem switchWriteTo_eq (hm : s.writeMode = .paddingTls) (mode : VisionMode) :
    s.switchWriteTo mode = (.ok (), { s with writeMode := mode }) :=
  if_neg (not_not.mpr hm)

theorem pollWritePaddingTls_spec (h : Accepts C s₀ hello uuid header received taken accepted s k)
    (hm : s.writeMode = .paddingTls) (hl : buf.length + (tlsRecordHeaderSize + maxTlsCiphertextLen) ≤ 65536) :
    Wrote C s₀ hello uuid header received taken accepted buf s (s.pollWritePaddingTls C uuid k buf) := by
  have hne : s.writeMode ≠ .direct := fun hmode => by cases hm.symm.trans hmode
  obtain ⟨given, hc, hw⟩ := h.indirect hne
  rw [pollWritePaddingTls]
  split
  case h_1 => trivial
  case h_3 => trivial
  case h_2 s₁ k₁ hd =>
    obtain ⟨hc, hw, _, hread, _⟩ := hw.drained hc hne hd nofun
    exact ⟨⟨given, k₁.written, [], (List.append_nil _).symm, hc, hw⟩, hread⟩
  case h_4 s₁ k₁ hd =>
    obtain ⟨hc, hw, hmode, hread, hdone⟩ := hw.drained hc hne hd nofun
    have hm := hmode.trans hm
    refine Wrote.trans ?_ hread
    cases hw
    case tls hmode _ _ _    => cases hm.symm.trans hmode
    case direct hmode _ _ _ => cases hm.symm.trans hmode
    case padding _ hpads =>
      obtain ⟨blocks, out, hhead, hb, hacc⟩ := hpads.blocks
      rw [if_neg (Bool.eq_false_iff.mp hpads.direct), if_neg (Bool.eq_false_iff.mp hpads.tls)]
      have hfeed := remainingData_feed s₁.innerWriteDeframer buf
      have hloops : Loops uuid s₁ (s₁.innerWriteDeframer.feed buf) given (accepted ++ buf) out.length := by
        refine ⟨hm, hpads.tls, hpads.direct, hpads.checked.feed buf, ?_, blocks, out, hhead, hb, ?_, rfl⟩
        case refine_1 =>
          have hshort := hpads.short
          rw [FuzzyTlsDeframer.pendingBytes] at hshort ⊢
          rw [hfeed, List.length_append]
          omega
        case refine_2 => rw [hfeed, ← List.append_assoc, hacc]
      refine writeLoop_spec hc hloops ?_ rfl
      rw [← hacc, List.length_append, FuzzyTlsDeframer.pendingBytes, Nat.add_zero]
    case announced command _ hnew hann hlast =>
      obtain ⟨hflag, rfl⟩ | ⟨hno, hflag, rfl⟩ := hann
      case inl =>
        rw [if_pos hflag, switchWriteTo_eq (by exact hm)]
        refine (wrote_direct (s := { s₁ with pendingDirectModeSwitch := false, writeMode := .direct })
          (List.append_nil _).symm hc rfl (hdone rfl) hnew hlast).trans rfl
      case inr =>
        rw [if_neg (Bool.eq_false_iff.mp hno), if_pos hflag, switchWriteTo_eq (by exact hm)]
        refine (pollWriteTls_spec (s := { s₁ with pendingTlsModeSwitch := false, writeMode := .tls }) ?_ rfl).trans rfl
        exact ⟨given, k₁.written, [], (List.append_nil _).symm, hc, .tls rfl rfl hnew hlast⟩

theorem pollWrite_spec (h : Accepts C s₀ hello uuid header received taken accepted s k)
    (hl : buf.length + (tlsRecordHeaderSize + maxTlsCiphertextLen) ≤ 65536) :
    Wrote C s₀ hello uuid header received taken accepted buf s (s.pollWrite C uuid k buf) := by
  rw [pollWrite]
  split
  case h_1 hm => exact pollWritePaddingTls_spec h hm hl
  case h_2 hm => exact pollWriteTls_spec h hm
  case h_3 hm =>
    obtain ⟨given, wire, raw, hk, hkept, hw⟩ := h
    cases hw
    case padding hmode _ _            => cases hm.symm.trans hmode
    case announced hmode _ _ _ _      => cases hm.symm.trans hmode
    case tls hmode _ _ _              => cases hm.symm.trans hmode
    case direct _ hout hnew hlast     => exact wrote_direct hk hkept hm hout hnew hlast

-- What a flush leads to, if it does not fail.
def Flushed (C : Crypto) (s₀ : Session) (hello uuid header received taken accepted : List UInt8) (s : VisionStream) :
    Option (Write Unit) → Prop
  | none                 => True
  | some (.error _, _)   => True
  | some (p, s', k) =>
    Accepts C s₀ hello uuid header received taken accepted s' k ∧ s'.reading = s.reading ∧
      (p = .ready () → s'.session.ciphertextWriteBuf = [] ∧ s'.session.plaintextWriteBuf = [])

theorem Accepts.done (h : Accepts C s₀ hello uuid header received taken accepted s k) :
    Accepts C s₀ hello uuid header received taken accepted s k.pollDone.2 := by
  obtain ⟨given, wire, raw, hk, hkept, hw⟩ := h
  exact ⟨given, wire, raw, (pollDone_written k).trans hk, hkept, hw⟩

theorem pollFlush_spec (h : Accepts C s₀ hello uuid header received taken accepted s k) :
    Flushed C s₀ hello uuid header received taken accepted s (s.pollFlush C k) := by
  have hflushed {s' : VisionStream} {k' : Sink} (h : Accepts C s₀ hello uuid header received taken accepted s' k')
      (hread : s'.reading = s.reading) (hout : s'.session.ciphertextWriteBuf = [] ∧ s'.session.plaintextWriteBuf = []) :
      Flushed C s₀ hello uuid header received taken accepted s (some (k'.pollDone.1, s', k'.pollDone.2)) := by
    cases hp : k'.pollDone.1
    case error => trivial
    case pending => exact ⟨h.done, hread, fun _ => hout⟩
    case ready => exact ⟨h.done, hread, fun _ => hout⟩
  rw [pollFlush]
  split
  case isTrue hm =>
    refine hflushed h rfl ?_
    obtain ⟨given, wire, raw, hk, hkept, hw⟩ := h
    cases hw
    case padding hmode _ _       => cases hm.symm.trans hmode
    case announced hmode _ _ _ _ => cases hm.symm.trans hmode
    case tls hmode _ _ _         => cases hm.symm.trans hmode
    case direct hout _ _         => exact hout
  case isFalse hm =>
    obtain ⟨given, hkept, hw⟩ := h.indirect hm
    split
    case h_1 s₁ k₁ hd =>
      obtain ⟨hc, hw, _, hread, hdone⟩ := hw.drained hkept hm hd nofun
      exact hflushed ⟨given, k₁.written, [], (List.append_nil _).symm, hc, hw⟩ hread (hdone rfl)
    case h_2 hne =>
      match hd : s.drainAllWrites C k with
      | none                     => trivial
      | some (.error e, _, _)    => trivial
      | some (.ready (), s₁, k₁) => exact absurd hd (hne s₁ k₁)
      | some (.pending, s₁, k₁)  =>
        obtain ⟨hc, hw, _, hread, _⟩ := hw.drained hkept hm hd nofun
        exact ⟨⟨given, k₁.written, [], (List.append_nil _).symm, hc, hw⟩, hread, nofun⟩

-- A server that removes the padding finds what is in the blocks, and what comes behind the last one.
theorem unpad_lasts (huuid : uuid.length = 16) {command : UInt8} {raw : List UInt8} {c : UnpadCommand}
    (h : Lasts uuid command given raw accepted) (hc : UnpadCommand.tryFrom command = .ok c) (hne : c ≠ .«continue») :
    ∃ content u, VisionUnpadder.new.unpad uuid given = (.ok ⟨content, some c⟩, u) ∧ content ++ raw = accepted := by
  obtain ⟨blocks, out, last, padding, rest, rfl, hb, hf, hacc, _⟩ := h
  obtain ⟨first, _, hblocks⟩ := @VisionUnpadder.unpadLoop_blocks uuid true _ _ hb
  refine ⟨out ++ last ++ rest, ⟨.done, false⟩, ?_, by rw [List.append_assoc _ rest, hacc]⟩
  rw [VisionUnpadder.unpad_new huuid, hblocks, VisionUnpadder.unpadLoop_block hc hf, VisionUnpadder.unpadLoop_complete hne]
  rfl

theorem unpad_writes (huuid : uuid.length = 16) {raw : List UInt8} (hw : Writes uuid s given raw accepted) :
    ∃ r u, VisionUnpadder.new.unpad uuid given = (.ok r, u) ∧
      r.content ++ raw ++ s.innerWriteDeframer.remainingData = accepted ∧
      (raw ≠ [] → ∃ blocks last padding, given = blocks ++ Vision.block commandDirect last padding ∧
        Fits last padding) := by
  have hnil {content : List UInt8} (hnew : s.innerWriteDeframer = .new) (hacc : content ++ raw = accepted) :
      content ++ raw ++ s.innerWriteDeframer.remainingData = accepted := by
    rw [hnew, ← hacc]
    exact List.append_nil _
  cases hw
  case announced command _ hraw hnew hann hlast =>
    subst hraw
    obtain ⟨_, rfl⟩ | ⟨_, _, rfl⟩ := hann
    case inl =>
      obtain ⟨content, u, hu, hacc⟩ := unpad_lasts huuid hlast (c := .direct) rfl nofun
      exact ⟨_, u, hu, hnil hnew hacc, fun hne => absurd rfl hne⟩
    case inr =>
      obtain ⟨content, u, hu, hacc⟩ := unpad_lasts huuid hlast (c := .«end») rfl nofun
      exact ⟨_, u, hu, hnil hnew hacc, fun hne => absurd rfl hne⟩
  case tls _ hraw hnew hlast =>
    subst hraw
    obtain ⟨content, u, hu, hacc⟩ := unpad_lasts huuid hlast (c := .«end») rfl nofun
    exact ⟨_, u, hu, hnil hnew hacc, fun hne => absurd rfl hne⟩
  case direct _ _ hnew hlast =>
    obtain ⟨content, u, hu, hacc⟩ := unpad_lasts huuid hlast (c := .direct) rfl nofun
    obtain ⟨blocks, _, last, padding, rest, hgiven, _, hf, _, hrest⟩ := hlast
    rw [hrest rfl, List.append_nil, ← List.append_assoc] at hgiven
    exact ⟨_, u, hu, hnil hnew hacc, fun _ => ⟨_, last, padding, hgiven, hf⟩⟩
  case padding _ hraw hpads =>
    subst hraw
    obtain ⟨blocks, out, ⟨_, rfl, rfl⟩ | ⟨_, rfl⟩, hb, hacc⟩ := hpads.blocks
    case inl =>
      rw [hb.of_nil] at hacc
      refine ⟨{ content := [], command := none }, .new, ?_, hacc, fun hne => absurd rfl hne⟩
      show VisionUnpadder.unpadLoop uuid true .initial [] [] = _
      rw [VisionUnpadder.unpadLoop, if_pos (by decide)]
      rfl
    case inr =>
      obtain ⟨first, hfirst, hblocks⟩ := @VisionUnpadder.unpadLoop_blocks uuid true _ _ hb
      have hend := hblocks [] []
      rw [List.append_nil, List.nil_append, VisionUnpadder.unpadLoop] at hend
      rw [VisionUnpadder.unpad_new huuid]
      refine ⟨_, _, hend, ?_, fun hne => absurd rfl hne⟩
      have hcontent : (VisionUnpadder.outOfData first out).content = out := by
        rw [VisionUnpadder.outOfData]
        split
        case isFalse => rfl
        case isTrue hf =>
          have hnil : blocks = [] := Classical.byContradiction fun hne => by cases hf.symm.trans (hfirst hne)
          rw [hnil] at hb
          exact hb.of_nil.symm
      rw [hcontent, List.append_nil, hacc]

end VisionStream
end JammVpn.Vision
