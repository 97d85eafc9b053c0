import JammVpn.Net.Theorems.RealityConnection

-- What each call does to a connection that is where a session is.
namespace JammVpn.Reality

open Bytes Framed Machine

-- Whether there are keys and a number for one more record.
def canNotify (conn : RealityClientConnection) : Bool :=
  match conn.handshakeState with
  | .complete c => c.write.seq + 1 < 2 ^ 64
  | _           => false

theorem canNotify_eq {conn : RealityClientConnection} {c : Complete} (h : conn.handshakeState = .complete c) :
    canNotify conn = decide (c.write.seq + 1 < 2 ^ 64) := by
  rw [canNotify, h]

section Calls

open RealityClientConnection

variable {C : Crypto} {conn conn' : RealityClientConnection} {n : Nat}

theorem readTls_spec {rd : List UInt8} (h : conn.readTls rd = some (n, conn')) :
    n = (rd.take tlsMaxRecordSize).length ∧ ∃ b, conn' = { conn with ciphertextReadBuf := b } ∧
      b.asSlice = conn.ciphertextReadBuf.asSlice ++ rd.take tlsMaxRecordSize ∧
      b.capacity = conn.ciphertextReadBuf.capacity := by
  have hc : SlideBuffer.Compacted conn.ciphertextReadBuf
      (if conn.ciphertextReadBuf.remainingCapacity < tlsMaxRecordSize then conn.ciphertextReadBuf.compact
        else conn.ciphertextReadBuf) := by
    split
    case isTrue  => exact conn.ciphertextReadBuf.compacted
    case isFalse => exact ⟨rfl, rfl, Nat.le_refl _⟩
  simp only [readTls] at h
  split at h
  case isTrue hnil =>
    cases h
    have hnil := List.isEmpty_iff.mp hnil
    rw [hnil]
    exact ⟨rfl, _, rfl, by rw [hc.asSlice, List.append_nil], hc.capacity⟩
  case isFalse =>
    obtain ⟨b, hb, h⟩ := Option.bind_eq_some_iff.mp h
    cases h
    have he := SlideBuffer.extended hb
    exact ⟨rfl, b, rfl, by rw [he.asSlice, hc.asSlice], he.capacity.trans hc.capacity⟩

-- All of the data comes behind what was there.
theorem feed_spec {data : List UInt8} (h : conn.feed data = some conn') :
    ∃ b, conn' = { conn with ciphertextReadBuf := b } ∧ b.asSlice = conn.ciphertextReadBuf.asSlice ++ data ∧
      b.capacity = conn.ciphertextReadBuf.capacity := by
  induction conn, data using RealityClientConnection.feed.induct
  case case1 conn =>
    rw [RealityClientConnection.feed, dif_pos rfl] at h
    cases h
    exact ⟨_, rfl, (List.append_nil _).symm, rfl⟩
  case case2 conn data hne hi =>
    rw [RealityClientConnection.feed, dif_neg hne] at h
    obtain ⟨⟨n, conn₁⟩, hr, h⟩ := Option.bind_eq_some_iff.mp h
    obtain ⟨hn, b, rfl, hb, hcap⟩ := readTls_spec hr
    obtain ⟨b', rfl, hb', hcap'⟩ := hi n _ h
    refine ⟨b', rfl, ?_, hcap'.trans hcap⟩
    have hpos := List.length_pos_iff.mpr hne
    rw [List.length_take] at hn
    have hmax : max n 1 = n := by
      simp only [tlsMaxRecordSize, tlsRecordHeaderSize] at hn
      omega
    rw [hb', hb, hmax, List.append_assoc, hn, List.take_eq_take_min, List.take_append_drop]

theorem readTls_eq_none_iff {rd : List UInt8} : conn.readTls rd = none ↔
    conn.ciphertextReadBuf.capacity < conn.ciphertextReadBuf.len + (rd.take tlsMaxRecordSize).length := by
  have hle := conn.ciphertextReadBuf.len_le_capacity
  by_cases hnil : (rd.take tlsMaxRecordSize).isEmpty
  case pos =>
    simp only [readTls, hnil, if_true]
    rw [List.isEmpty_iff.mp hnil]
    exact iff_of_false nofun (Nat.not_lt_of_le hle)
  case neg =>
    have hroom : conn.readTls rd = none ↔ (if conn.ciphertextReadBuf.remainingCapacity < tlsMaxRecordSize then
        conn.ciphertextReadBuf.compact else conn.ciphertextReadBuf).remainingCapacity <
          (rd.take tlsMaxRecordSize).length := by
      rw [← SlideBuffer.extendFromSlice_eq_none_iff]
      simp only [readTls, if_neg hnil, Option.bind_eq_bind, Option.pure_def, Option.bind_eq_none_iff]
      refine ⟨fun h => Option.eq_none_iff_forall_ne_some.mpr fun b hb => ?_, fun h b hb => ?_⟩
      case refine_1 => cases h b hb
      case refine_2 => cases h.symm.trans hb
    rw [hroom]
    split
    case isTrue =>
      rw [SlideBuffer.remainingCapacity_compact]
      omega
    case isFalse h =>
      have hmax : (rd.take tlsMaxRecordSize).length ≤ tlsMaxRecordSize := List.length_take_le _ _
      have hend := conn.ciphertextReadBuf.end_le
      simp only [SlideBuffer.remainingCapacity, SlideBuffer.len, SlideBuffer.capacity] at h ⊢
      omega

-- There is only too much when it is more than all of the buffer can hold.
theorem feed_eq_none_iff {data : List UInt8} : conn.feed data = none ↔
    conn.ciphertextReadBuf.capacity < conn.ciphertextReadBuf.len + data.length := by
  induction conn, data using RealityClientConnection.feed.induct
  case case1 conn =>
    rw [RealityClientConnection.feed, dif_pos rfl]
    exact iff_of_false nofun (Nat.not_lt_of_le conn.ciphertextReadBuf.len_le_capacity)
  case case2 conn data hne hi =>
    rw [RealityClientConnection.feed, dif_neg hne]
    cases hr : conn.readTls data
    case none =>
      have hlt := readTls_eq_none_iff.mp hr
      rw [List.length_take] at hlt
      exact iff_of_true rfl (by omega)
    case some p =>
      obtain ⟨n, conn₁⟩ := p
      obtain ⟨hn, b, rfl, hb, hcap⟩ := readTls_spec hr
      have hlen : b.len = conn.ciphertextReadBuf.len + n := by
        rw [← b.length_asSlice, hb, List.length_append, ← hn, SlideBuffer.length_asSlice]
      have hpos := List.length_pos_iff.mpr hne
      rw [List.length_take, tlsMaxRecordSize, tlsRecordHeaderSize] at hn
      simp only [Option.bind_eq_bind, Option.bind_some, hi n, hlen, hcap, List.length_drop]
      omega

theorem read_spec (conn : RealityClientConnection) (cap : Nat) :
    ∃ b, conn.read cap = (conn.plaintextReadBuf.asSlice.take cap, { conn with plaintextReadBuf := b }) ∧
      b.asSlice = conn.plaintextReadBuf.asSlice.drop cap ∧ b.capacity = conn.plaintextReadBuf.capacity := by
  have hm := conn.plaintextReadBuf.maybeCompacted 4096
  simp only [RealityClientConnection.read, hm.asSlice]
  split
  case isTrue hnil =>
    have hnil := List.isEmpty_iff.mp hnil
    have hdrop : (conn.plaintextReadBuf.maybeCompact 4096).asSlice = conn.plaintextReadBuf.asSlice.drop cap := by
      have happ := List.take_append_drop cap conn.plaintextReadBuf.asSlice
      rw [hnil, List.nil_append] at happ
      rw [happ, hm.asSlice]
    exact ⟨_, by rw [hnil], hdrop, hm.capacity⟩
  case isFalse =>
    have hb := (conn.plaintextReadBuf.maybeCompact 4096).consumed (conn.plaintextReadBuf.asSlice.take cap).length
    refine ⟨_, rfl, ?_, hb.capacity.trans hm.capacity⟩
    rw [hb.asSlice, hm.asSlice, List.length_take, ← List.drop_eq_drop_min]

theorem appContent_append (parts parts' : List (UInt8 × List UInt8)) :
    appContent (parts ++ parts') = appContent parts ++ appContent parts' := by
  rw [appContent, List.filter_append, List.flatMap_append]
  rfl

theorem appContent_map (content : List (List UInt8)) :
    appContent (content.map (contentTypeApplicationData, ·)) = content.flatten := by
  have hf : (content.map (contentTypeApplicationData, ·)).filter (fun part => part.1 == contentTypeApplicationData) =
      content.map (contentTypeApplicationData, ·) := by
    refine List.filter_eq_self.mpr fun part hm => ?_
    obtain ⟨_, _, rfl⟩ := List.mem_map.mp hm
    rfl
  rw [appContent, hf, List.flatMap_map, List.flatMap_id']

theorem Carries.append {parts parts' : List (UInt8 × List UInt8)} {data data' : List UInt8} {n n' : Nat}
    (h : Carries parts data n) (h' : Carries parts' data' n') : Carries (parts ++ parts') (data ++ data') (n + n') := by
  refine ⟨?_, ?_, List.forall_mem_append.mpr ⟨h.filled, h'.filled⟩⟩
  case refine_1 => rw [appContent_append, h.data, h'.data]
  case refine_2 => rw [List.filter_append, h.others, h'.others, List.replicate_append_replicate]

theorem carries_pieces (data : List UInt8) :
    Carries ((RecordCipher.pieces data).map (contentTypeApplicationData, ·)) data 0 := by
  refine ⟨?_, ?_, fun part hm => ?_⟩
  case refine_1 => rw [appContent_map, RecordCipher.flatten_pieces]
  case refine_2 =>
    refine List.filter_eq_nil_iff.mpr fun part hm => ?_
    obtain ⟨_, _, rfl⟩ := List.mem_map.mp hm
    exact fun hne => by cases hne
  case refine_3 =>
    obtain ⟨_, hpiece, rfl⟩ := List.mem_map.mp hm
    exact RecordCipher.ne_nil_of_mem_pieces hpiece

theorem carries_closeNotify : Carries [closeNotify] [] 1 :=
  ⟨rfl, rfl, List.forall_mem_singleton.mpr (List.cons_ne_nil _ _)⟩

-- Where there is no data and no notification, there is nothing.
theorem Carries.eq_nil {parts : List (UInt8 × List UInt8)} (h : Carries parts [] 0) : parts = [] := by
  refine List.eq_nil_iff_forall_not_mem.mpr fun part hm => ?_
  by_cases ht : part.1 = contentTypeApplicationData
  case pos =>
    refine h.filled part hm (List.flatMap_eq_nil_iff.mp h.data part (List.mem_filter.mpr ⟨hm, ?_⟩))
    exact beq_iff_eq.mpr ht
  case neg => exact List.filter_eq_nil_iff.mp h.others part hm (bne_iff_ne.mpr ht)

variable {g : Ghost} {c₀ c : Complete} {finished : List UInt8} {read : RecordCipher} {s s' : Session}

-- More records behind those that have been written.
theorem Sent.seals {inners : List (List UInt8)} {parts : List (UInt8 × List UInt8)} {write : RecordCipher}
    {wire data plain : List UInt8} {n : Nat} (h : Sent C g conn c₀ c finished)
    (hs : RecordCipher.Seals C.aead c.write inners wire write) (hh : List.Forall₂ RecordCipher.Holds inners parts)
    (hc : Carries parts data n) (hplain : data ++ plain = conn.plaintextWriteBuf) :
    Sent C { g with notified := g.notified + n } { conn with
        handshakeState := .complete { c with write }
        plaintextWriteBuf := plain
        ciphertextWriteBuf := conn.ciphertextWriteBuf ++ wire } c₀ { c with write } finished := by
  obtain ⟨inners₀, parts₀, sealed₀, data₀, hs₀, hh₀, hwire, hc₀, hacc⟩ := h
  refine ⟨_, _, _, _, hs₀.append hs, List.rel_append hh₀ hh, ?_, hc₀.append hc, ?_⟩
  case refine_1 => rw [← List.append_assoc, hwire, List.append_assoc _ sealed₀]
  case refine_2 => rw [List.append_assoc, hplain, hacc]

theorem Sent.iv (h : Sent C g conn c₀ c finished) (hiv : c₀.write.iv.length = 12) : c.write.iv.length = 12 := by
  obtain ⟨_, _, _, _, hs, _⟩ := h
  rw [hs.iv.1, hiv]

-- What is pending has been encrypted, and nothing is left of it.
theorem encryptPending_spec (h : Sim C g conn s) (he : conn.encryptPending C = some (.ok (), conn')) :
    ∃ state plain out, conn' = { conn with
        handshakeState := state, plaintextWriteBuf := plain, ciphertextWriteBuf := out } ∧
      Sim C g conn' s ∧ (∀ c₀ finished read, s.phase = .established c₀ finished read → plain = []) := by
  have hphase := h.phase
  cases hp : s.phase
  case hello a =>
    rw [hp] at hphase
    rw [encryptPending, hphase.1] at he
    cases he
    exact ⟨_, _, _, rfl, h, nofun⟩
  case handshake p =>
    rw [hp] at hphase
    rw [encryptPending, hphase.1] at he
    cases he
    exact ⟨_, _, _, rfl, h, nofun⟩
  case established c₀ finished read =>
    rw [hp] at hphase
    obtain ⟨c, hc, hread, hiv, hsent⟩ := hphase
    rw [encryptPending, hc] at he
    rcases hw : c.write.encryptAppData C.aead conn.plaintextWriteBuf conn.ciphertextWriteBuf with ⟨r, write, plain, out⟩
    obtain ⟨hwrites, hnil⟩ := RecordCipher.encryptAppData_spec (hsent.iv hiv) hw
    dsimp only at he
    rw [hw] at he
    match r with
    | .error .panic  => cases he
    | .error (.io _) => cases he
    | .ok ()         =>
      cases he
      have hplain : plain = [] := hnil rfl
      obtain ⟨sealed, rest, wire, hall, hs, rfl, hrest, _⟩ := hwrites
      rw [hrest rfl, List.append_nil] at hall
      subst hall
      have hs := hsent.seals hs (RecordCipher.forall₂_holds rfl _) (carries_pieces conn.plaintextWriteBuf)
        (List.append_nil _)
      rw [← hplain] at hs
      refine ⟨_, _, _, rfl, ⟨?_, h.plaintext, h.fatal, h.sizes⟩, fun _ _ _ _ => hplain⟩
      rw [hp]
      exact ⟨_, rfl, hread, hiv, hs⟩

theorem sendCloseNotify_spec (h : Sim C g conn s) (he : conn.sendCloseNotify C = some conn') :
    ∃ state out, conn' = { conn with handshakeState := state, ciphertextWriteBuf := out } ∧
      Sim C { g with notified := g.notified + (canNotify conn).toNat } conn' s := by
  have hphase := h.phase
  cases hp : s.phase
  case hello a =>
    rw [hp] at hphase
    rw [sendCloseNotify, hphase.1] at he
    cases he
    rw [canNotify, hphase.1]
    exact ⟨_, _, rfl, h⟩
  case handshake p =>
    rw [hp] at hphase
    rw [sendCloseNotify, hphase.1] at he
    cases he
    rw [canNotify, hphase.1]
    exact ⟨_, _, rfl, h⟩
  case established c₀ finished read =>
    rw [hp] at hphase
    obtain ⟨c, hc, hread, hiv, hsent⟩ := hphase
    rw [sendCloseNotify, hc] at he
    rcases hw : c.write.encryptCloseNotify C.aead conn.ciphertextWriteBuf with ⟨r, write, out⟩
    dsimp only at he
    rw [hw] at he
    rw [canNotify_eq hc]
    obtain ⟨rfl, hseq, rfl, rfl⟩ | ⟨⟨f, rfl, hf⟩, rfl, rfl⟩ := RecordCipher.encryptCloseNotify_spec (hsent.iv hiv) hw
    case inl =>
      cases he
      have hs := hsent.seals (.single (by decide) hseq) (.cons (RecordCipher.holds_concat rfl _) .nil) carries_closeNotify
        (List.nil_append _)
      refine ⟨_, _, rfl, ?_, h.plaintext, h.fatal, h.sizes⟩
      rw [hp, decide_eq_true hseq]
      exact ⟨_, rfl, hread, hiv, hs⟩
    case inr =>
      -- Nothing has been written.
      have hsame : some { conn with handshakeState := .complete c } = some conn' := by
        rw [hf.1] at he
        exact he
      cases hsame
      refine ⟨_, _, rfl, ?_, h.plaintext, h.fatal, h.sizes⟩
      rw [hp, decide_eq_false (Nat.not_lt_of_le hf.2)]
      exact ⟨_, rfl, hread, hiv, hsent⟩

-- Where there is a number left, it is used.
theorem exists_sendCloseNotify (hc : conn.handshakeState = .complete c) (hiv : c.write.iv.length = 12)
    (hseq : c.write.seq + 1 < 2 ^ 64) : ∃ out, conn.sendCloseNotify C = some { conn with
      handshakeState := .complete { c with write := c.write.next }, ciphertextWriteBuf := out } := by
  rw [sendCloseNotify, hc]
  rcases hw : c.write.encryptCloseNotify C.aead conn.ciphertextWriteBuf with ⟨r, write, out⟩
  dsimp only
  rw [hw]
  obtain ⟨rfl, _, rfl, _⟩ | ⟨⟨_, _, hf⟩, _⟩ := RecordCipher.encryptCloseNotify_spec hiv hw
  case inl => exact ⟨out, rfl⟩
  case inr => exact absurd hseq (Nat.not_lt_of_le hf.2)

-- The only failure is reported: there is no number left for a record.
theorem ne_panic {c : RecordCipher} {f : Failure} (h : RecordCipher.Exhausted f c) : f ≠ .panic :=
  fun hp => by cases h.1.symm.trans hp

theorem encryptPending_ne_none (h : Sim C g conn s) : conn.encryptPending C ≠ none := by
  have hphase := h.phase
  cases hp : s.phase
  case hello a =>
    rw [hp] at hphase
    rw [encryptPending, hphase.1]
    nofun
  case handshake p =>
    rw [hp] at hphase
    rw [encryptPending, hphase.1]
    nofun
  case established c₀ finished read =>
    rw [hp] at hphase
    obtain ⟨c, hc, _, hiv, hsent⟩ := hphase
    rw [encryptPending, hc]
    rcases hw : c.write.encryptAppData C.aead conn.plaintextWriteBuf conn.ciphertextWriteBuf with ⟨r, write, plain, out⟩
    obtain ⟨⟨_, _, _, _, _, _, _, he⟩, _⟩ := RecordCipher.encryptAppData_spec (hsent.iv hiv) hw
    dsimp only
    rw [hw]
    match r with
    | .error .panic  => exact absurd rfl (ne_panic (he .panic rfl))
    | .error (.io _) => nofun
    | .ok ()         => nofun

theorem sendCloseNotify_ne_none (h : Sim C g conn s) : conn.sendCloseNotify C ≠ none := by
  have hphase := h.phase
  cases hp : s.phase
  case hello a =>
    rw [hp] at hphase
    rw [sendCloseNotify, hphase.1]
    nofun
  case handshake p =>
    rw [hp] at hphase
    rw [sendCloseNotify, hphase.1]
    nofun
  case established c₀ finished read =>
    rw [hp] at hphase
    obtain ⟨c, hc, _, hiv, hsent⟩ := hphase
    rw [sendCloseNotify, hc]
    rcases hw : c.write.encryptCloseNotify C.aead conn.ciphertextWriteBuf with ⟨r, write, out⟩
    dsimp only
    rw [hw]
    obtain ⟨rfl, _⟩ | ⟨⟨f, rfl, hf⟩, _⟩ := RecordCipher.encryptCloseNotify_spec (hsent.iv hiv) hw
    case inl => nofun
    case inr =>
      rw [hf.1]
      nofun

theorem decryptRecordInPlace_keys {c c' : RecordCipher} {ciphertext buf : List UInt8} {len : Nat}
    {r : Except Error (UInt8 × List UInt8)} (h : c.decryptRecordInPlace C.aead ciphertext len = (r, c', buf)) :
    c'.key = c.key ∧ c'.iv = c.iv := by
  rw [RecordCipher.decryptRecordInPlace] at h
  split at h
  case h_1 =>
    cases h
    exact ⟨rfl, rfl⟩
  case h_2 =>
    rw [RecordCipher.advance] at h
    split at h
    case h_1 =>
      cases h
      exact ⟨rfl, rfl⟩
    case h_2 c₁ hadv =>
      cases h
      split at hadv
      case isTrue =>
        cases hadv
        exact ⟨rfl, rfl⟩
      case isFalse => cases hadv

theorem phase_acceptData (contentType : UInt8) (plaintext : List UInt8) :
    (s.acceptData contentType plaintext).phase = s.phase := by
  rw [Session.acceptData]
  split
  case isTrue => rfl
  case isFalse =>
    split
    case isFalse => rfl
    case isTrue =>
      rw [Session.acceptAlert.eq_def]
      split
      case h_2 => rfl
      case h_1 =>
        split
        case isTrue  => rfl
        case isFalse => split <;> rfl

-- What is established stays so, under the same keys.
theorem phase_step (hp : s.phase = .established c₀ finished read) (record : List UInt8) :
    ∃ read', (s.step C record).phase = .established c₀ finished read' ∧ read'.key = read.key ∧ read'.iv = read.iv := by
  rcases hd : read.decryptRecordInPlace C.aead (record.drop tlsRecordHeaderSize)
    (record.drop tlsRecordHeaderSize).length with ⟨r, read', buf⟩
  refine ⟨read', ?_, decryptRecordInPlace_keys hd⟩
  cases r
  case error e => rw [step_refused hp hd]
  case ok part => rw [step_opened hp hd, phase_acceptData]

theorem exists_phase_drain (h : s.phase = .established c₀ finished read) (more : List UInt8) :
    ∃ read, (s.drain C more).1.phase = .established c₀ finished read :=
  drain_keeps (P := fun s : Session => ∃ read, s.phase = .established c₀ finished read)
    (fun _ record _ ⟨_, hs⟩ => (phase_step hs record).imp fun _ h => h.1) ⟨read, h⟩ more

-- Only what goes out matters for what has gone out.
theorem Matches.congr {g' : Ghost} {phase : Phase} {buf : List UInt8} (h : Matches C g conn phase)
    (hstate : conn'.handshakeState = conn.handshakeState) (hhello : g'.hello = g.hello)
    (hwire : g'.wire ++ conn'.ciphertextWriteBuf = g.wire ++ conn.ciphertextWriteBuf)
    (hplain : conn'.plaintextWriteBuf = conn.plaintextWriteBuf ++ buf) (hacc : g'.accepted = g.accepted ++ buf)
    (hnotified : g'.notified = g.notified) : Matches C g' conn' phase := by
  have hwaiting (hw : Waiting g conn) : Waiting g' conn' :=
    ⟨by rw [hwire, hhello, hw.1], by rw [hplain, hacc, hw.2.1], hnotified.trans hw.2.2⟩
  cases phase
  case hello a     => exact ⟨hstate.trans h.1, hwaiting h.2⟩
  case handshake p => exact ⟨hstate.trans h.1, hwaiting h.2⟩
  case established c₀ finished read =>
    obtain ⟨c, hc, hread, hiv, inners, parts, sealed, data, hs, hh, hw, hcarries, ha⟩ := h
    refine ⟨c, hstate.trans hc, hread, hiv, inners, parts, sealed, data, hs, hh, by rw [hwire, hhello, hw],
      hnotified ▸ hcarries, ?_⟩
    rw [hplain, hacc, ← List.append_assoc, ha]

end Calls

end JammVpn.Reality
