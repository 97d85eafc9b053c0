import JammVpn.Net.Ss2022Stream

namespace JammVpn.Ss2022Stream

open Bytes PollIo Shadowsocks
open Framing (Frames Exact ReadRun Yields)
open Ss2022Udp.Session (absDiff)

variable {p : Primitives} {method : Method} {psk clientSalt : List UInt8} {now : Nat}

def headerOf (requestSalt : List UInt8) (timestamp len : Nat) : List UInt8 :=
  typeResponse :: (toBe 8 timestamp ++ requestSalt ++ toBe 2 len)

theorem checkHeader_headerOf {ts n : Nat} (hts : ts < 2 ^ 64) (hfresh : absDiff now ts ≤ 30)
    (hsalt : clientSalt.length = method.saltLen) (hn : n ≤ maxChunk) :
    checkHeader method clientSalt now (headerOf clientSalt ts n) = .ok n := by
  have h8 := length_toBe 8 ts
  have h2 := length_toBe 2 n
  have hlen : (headerOf clientSalt ts n).length = headerLen method := by
    rw [headerOf, List.length_cons, List.length_append, List.length_append, h8, h2, hsalt, headerLen]
    omega
  have hhead : (headerOf clientSalt ts n).head? = some typeResponse := rfl
  have htake : ((headerOf clientSalt ts n).drop 1).take 8 = toBe 8 ts := by
    rw [headerOf, List.drop_succ_cons, List.drop_zero, List.append_assoc]
    exact List.take_left' h8
  have hreq : ((headerOf clientSalt ts n).drop 9).take method.saltLen = clientSalt := by
    rw [headerOf, List.drop_succ_cons, List.append_assoc, List.drop_left' h8]
    exact List.take_left' hsalt
  have hlast : (headerOf clientSalt ts n).drop (9 + method.saltLen) = toBe 2 n := by
    rw [headerOf, Nat.add_right_comm 8 1 method.saltLen, List.drop_succ_cons]
    exact List.drop_left' (by rw [List.length_append, h8, hsalt])
  rw [checkHeader, if_neg (not_not.mpr hlen), if_neg (not_not.mpr hhead), htake,
    ofBe_toBe_of_lt (Nat.lt_of_lt_of_eq hts (by decide)), if_neg (Nat.not_lt_of_le hfresh), hreq,
    if_neg (not_not.mpr rfl), hlast, List.take_of_length_le (Nat.le_of_eq h2),
    ofBe_toBe_of_lt (Nat.lt_succ_of_le hn)]

-- Exactly the headers of responses pass.
theorem checkHeader_eq_ok_iff {pt : List UInt8} {n : Nat} :
    checkHeader method clientSalt now pt = .ok n ↔
      ∃ ts, ts < 2 ^ 64 ∧ absDiff now ts ≤ 30 ∧ clientSalt.length = method.saltLen ∧ n ≤ maxChunk ∧
        pt = headerOf clientSalt ts n := by
  constructor
  case mp =>
    intro h
    rw [checkHeader] at h
    split at h; · cases h
    split at h; · cases h
    split at h; · cases h
    split at h; · cases h
    next hlen htype hfresh hsalt =>
    cases h
    rw [not_not] at hlen htype hsalt
    rw [headerLen] at hlen
    cases pt
    case nil => cases htype
    case cons b t =>
      cases htype
      rw [List.drop_succ_cons, List.drop_zero] at hfresh
      rw [List.drop_succ_cons] at hsalt
      rw [List.length_cons] at hlen
      have hts : (t.take 8).length = 8 := List.length_take_of_le (by omega)
      have hdrop : (List.drop (9 + method.saltLen) (typeResponse :: t)).take 2 =
          t.drop (8 + method.saltLen) := by
        rw [Nat.add_right_comm 8 1 method.saltLen, List.drop_succ_cons]
        exact List.take_of_length_le (by rw [List.length_drop]; omega)
      have hrest : (t.drop (8 + method.saltLen)).length = 2 := by rw [List.length_drop]; omega
      refine ⟨ofBe (t.take 8), ?_, Nat.le_of_not_lt hfresh, ?_, ?_, ?_⟩
      case refine_1 => exact Nat.lt_of_lt_of_eq (ofBe_lt _) (by rw [hts]; rfl)
      case refine_2 =>
        rw [← hsalt, List.length_take_of_le]
        rw [List.length_drop]
        omega
      case refine_3 =>
        rw [hdrop]
        exact Nat.le_of_lt_succ (Nat.lt_of_lt_of_eq (ofBe_lt _) (by rw [hrest]; rfl))
      case refine_4 =>
        rw [hdrop, headerOf, toBe_ofBe_of_length hts, toBe_ofBe_of_length hrest, ← hsalt, ← List.drop_drop,
          List.append_assoc, List.take_append_drop, List.take_append_drop]
  case mpr =>
    rintro ⟨ts, hts, hfresh, hsalt, hn, rfl⟩
    exact checkHeader_headerOf hts hfresh hsalt hn

-- The chunks have lengths that can be written.
def Chunks (chunks : List (List UInt8)) : Prop :=
  ∀ chunk ∈ chunks, 0 < chunk.length ∧ chunk.length ≤ maxChunk

-- A piece of known length, and chunks after it; or nothing, as long as the piece has not come.
def Body (p : Primitives) (c : Crypto) (len : Nat) (bs content : List UInt8) : Prop :=
  content = [] ∨ ∃ piece chunks, piece.length = len ∧ Chunks chunks ∧
    sealAll p c (piece :: chunkFrames chunks) <+: bs ∧ content = piece ++ chunks.flatten

-- What can have been delivered for these bytes, read from each stage on.
def Delivers (p : Primitives) (method : Method) (psk clientSalt : List UInt8) (now : Nat) (bs content : List UInt8) :
    ReadStage → Prop
  | .serverSalt =>
    content = [] ∨ ∃ r : ServerResponse method clientSalt now, r.wire p psk <+: bs ∧ r.payload = content
  | .respHeader c =>
    content = [] ∨ ∃ header first chunks, checkHeader method clientSalt now header = .ok first.length ∧
      Chunks chunks ∧ sealAll p c (header :: first :: chunkFrames chunks) <+: bs ∧
        content = first ++ chunks.flatten
  | .firstPayload c n => Body p c n bs content
  | .len c =>
    ∃ chunks, Chunks chunks ∧ sealAll p c (chunkFrames chunks) <+: bs ∧ content = chunks.flatten
  | .data c n _ => Body p c n bs content

theorem getD_piece (piece : List UInt8) : (if piece.isEmpty then none else some piece).getD [] = piece := by
  split
  case isTrue hnil => exact (List.isEmpty_iff.mp hnil).symm
  case isFalse     => rfl

-- The frame of a piece has been opened.
theorem Body.of_openBytes {c c' : Crypto} {frame piece bs content : List UInt8}
    (ho : c.openBytes p frame = .ok (piece, c')) {len : Nat} (hl : frame.length = len + tag)
    {chunks : List (List UInt8)} (hc : Chunks chunks) (hp : sealAll p c' (chunkFrames chunks) <+: bs)
    (he : content = chunks.flatten) : Body p c len (frame ++ bs) (piece ++ content) := by
  have hlen := Crypto.length_of_openBytes ho
  have ho := Crypto.openBytes_eq_ok_iff.mp ho
  have hf : frame = (c.sealBytes p piece).1 := congrArg Prod.fst ho
  have hc' : c' = (c.sealBytes p piece).2 := congrArg Prod.snd ho
  refine .inr ⟨piece, chunks, ?_, hc, ?_, he ▸ rfl⟩
  case refine_1 =>
    rw [hl, tag] at hlen
    exact Nat.add_right_cancel hlen.symm
  case refine_2 =>
    rw [sealAll, ← hf, ← hc', List.prefix_append_right_inj]
    exact hp

-- The frame of a length has been opened.
theorem Body.chunks_of_openBytes {c c' : Crypto} {frame len bs content : List UInt8}
    (ho : c.openBytes p frame = .ok (len, c')) (hl : frame.length = 2 + tag)
    (hrange : 0 < ofBe (len.take 2) ∧ ofBe (len.take 2) ≤ maxChunk)
    (h : Body p c' (ofBe (len.take 2)) bs content) :
    ∃ chunks, Chunks chunks ∧ sealAll p c (chunkFrames chunks) <+: frame ++ bs ∧ content = chunks.flatten := by
  obtain hnil | ⟨piece, chunks, hlen, hc, hp, he⟩ := h
  case inl => exact ⟨[], fun _ h => absurd h List.not_mem_nil, List.nil_prefix, hnil⟩
  case inr =>
    have htwo : len.length = 2 := Nat.add_right_cancel ((Crypto.length_of_openBytes ho).symm.trans hl)
    have ho := Crypto.openBytes_eq_ok_iff.mp ho
    rw [List.take_of_length_le (Nat.le_of_eq htwo)] at hlen hrange
    have hpt : len = toBe 2 piece.length := by rw [hlen, toBe_ofBe_of_length htwo]
    refine ⟨piece :: chunks, List.forall_mem_cons.mpr ⟨hlen ▸ hrange, hc⟩, ?_, he⟩
    show sealAll p c (toBe 2 piece.length :: piece :: chunkFrames chunks) <+: _
    rw [sealAll, ← hpt, ← ho, List.prefix_append_right_inj]
    exact hp

theorem delivers_of_frames {s s' : ReadStage} {bs content : List UInt8}
    (h : Frames (framing p method psk clientSalt now) s bs content s') :
    Delivers p method psk clientSalt now bs content s := by
  induction h
  case nil s =>
    cases s
    case len => exact ⟨[], fun _ h => absurd h List.not_mem_nil, List.prefix_refl _, rfl⟩
    all_goals exact .inl rfl
  case cons s frame pt s₁ bs content s₂ hl hn _ hi =>
    cases s
    case serverSalt =>
      simp only [framing, ReadStage.next, Crypto.new_sessionSubkey2022] at hn
      cases hn
      obtain hnil | ⟨header, first, chunks, hcheck, hc, hp, he⟩ := hi
      case inl => exact .inl hnil
      case inr =>
        obtain ⟨ts, hts, hfresh, hsalt, hfirst, rfl⟩ := checkHeader_eq_ok_iff.mp hcheck
        refine .inr ⟨⟨frame, ts, clientSalt, first, chunks, hl, hts, hfresh, rfl, hsalt, hfirst, hc⟩, ?_, he.symm⟩
        rw [ServerResponse.wire, List.prefix_append_right_inj]
        exact hp
    case respHeader c =>
      simp only [framing, ReadStage.next] at hn
      split at hn
      case h_1 => cases hn
      case h_2 header c' ho =>
        split at hn
        case h_1 => cases hn
        case h_2 n hcheck =>
          cases hn
          obtain hnil | ⟨first, chunks, rfl, hc, hp, he⟩ := hi
          case inl => exact .inl hnil
          case inr =>
            have ho := Crypto.openBytes_eq_ok_iff.mp ho
            refine .inr ⟨header, first, chunks, hcheck, hc, ?_, he⟩
            rw [sealAll, ← ho, List.prefix_append_right_inj]
            exact hp
    case firstPayload c n =>
      simp only [framing, ReadStage.next] at hn
      split at hn
      case h_1 => cases hn
      case h_2 piece c' ho =>
        cases hn
        obtain ⟨chunks, hc, hp, he⟩ := hi
        rw [getD_piece]
        exact Body.of_openBytes ho hl hc hp he
    case len c =>
      simp only [framing, ReadStage.next] at hn
      split at hn
      case h_1 => cases hn
      case h_2 pt' c' ho =>
        split at hn
        case isFalse => cases hn
        case isTrue hrange =>
          cases hn
          exact Body.chunks_of_openBytes ho hl hrange hi
    case data c n pos =>
      simp only [framing, ReadStage.next] at hn
      split at hn
      case h_1 => cases hn
      case h_2 piece c' ho =>
        cases hn
        obtain ⟨chunks, hc, hp, he⟩ := hi
        exact Body.of_openBytes ho hl hc hp he

theorem frames_piece (c : Crypto) {piece : List UInt8} (hpos : 0 < piece.length) :
    Frames (framing p method psk clientSalt now) (.data c piece.length hpos) (c.sealBytes p piece).1 piece
      (.len (c.sealBytes p piece).2) := by
  refine .single (p := some piece) (c.length_sealBytes p piece) ?_
  simp only [framing, ReadStage.next, Crypto.openBytes_sealBytes]

theorem frames_first (c : Crypto) (first : List UInt8) :
    Frames (framing p method psk clientSalt now) (.firstPayload c first.length) (c.sealBytes p first).1 first
      (.len (c.sealBytes p first).2) := by
  have h : Frames (framing p method psk clientSalt now) (.firstPayload c first.length) (c.sealBytes p first).1
      ((if first.isEmpty then none else some first).getD []) (.len (c.sealBytes p first).2) := by
    refine .single (c.length_sealBytes p first) ?_
    simp only [framing, ReadStage.next, Crypto.openBytes_sealBytes]
  rwa [getD_piece] at h

theorem frames_chunks (c : Crypto) {chunks : List (List UInt8)} (hc : Chunks chunks) :
    ∃ c', Frames (framing p method psk clientSalt now) (.len c) (sealAll p c (chunkFrames chunks))
      chunks.flatten (.len c') := by
  induction chunks generalizing c
  case nil => exact ⟨c, .nil _⟩
  case cons chunk chunks hi =>
    have ⟨⟨hpos, hmax⟩, hc⟩ := List.forall_mem_cons.mp hc
    have ⟨c', hrest⟩ := hi ((c.sealBytes p (toBe 2 chunk.length)).2.sealBytes p chunk).2 hc
    have htwo := length_toBe 2 chunk.length
    have hn : ofBe ((toBe 2 chunk.length).take 2) = chunk.length := by
      rw [List.take_of_length_le (Nat.le_of_eq htwo), ofBe_toBe_of_lt (Nat.lt_succ_of_le hmax)]
    have hlen : Frames (framing p method psk clientSalt now) (.len c)
        (c.sealBytes p (toBe 2 chunk.length)).1 []
          (.data (c.sealBytes p (toBe 2 chunk.length)).2 chunk.length hpos) := by
      refine .single (p := none) ((c.length_sealBytes p _).trans (congrArg (· + tag) htwo)) ?_
      simp only [framing, ReadStage.next, Crypto.openBytes_sealBytes, hn]
      rw [dif_pos ⟨hpos, hmax⟩]
    exact ⟨c', hlen.append ((frames_piece _ hpos).append hrest)⟩

-- A response is read whole.
theorem frames_response (r : ServerResponse method clientSalt now) :
    ∃ c, Frames (framing p method psk clientSalt now) .serverSalt (r.wire p psk) r.payload (.len c) := by
  have hheader : checkHeader method clientSalt now r.header = .ok r.first.length :=
    checkHeader_eq_ok_iff.mpr ⟨r.timestamp, r.timestamp_lt, r.fresh, r.requestSalt_eq ▸ r.length_reqSalt,
      r.length_first, congrArg (headerOf · _ _) r.requestSalt_eq⟩
  have hlen : r.header.length = headerLen method := by
    rw [ServerResponse.header, List.length_cons, List.length_append, List.length_append, length_toBe, length_toBe,
      r.length_reqSalt, headerLen]
    omega
  generalize hc₀ : sessionCrypto p method psk r.salt = c₀
  have ⟨c', hrest⟩ := @frames_chunks p method psk clientSalt now
    ((c₀.sealBytes p r.header).2.sealBytes p r.first).2 _ r.length_chunks
  have hsalt : Frames (framing p method psk clientSalt now) .serverSalt r.salt [] (.respHeader c₀) := by
    refine .single (p := none) r.length_salt ?_
    simp only [framing, ReadStage.next, Crypto.new_sessionSubkey2022, hc₀]
  have hhead : Frames (framing p method psk clientSalt now) (.respHeader c₀) (c₀.sealBytes p r.header).1 []
      (.firstPayload (c₀.sealBytes p r.header).2 r.first.length) := by
    refine .single (p := none) ((c₀.length_sealBytes p _).trans (congrArg (· + tag) hlen)) ?_
    simp only [framing, ReadStage.next, Crypto.openBytes_sealBytes, hheader]
  refine ⟨c', ?_⟩
  rw [ServerResponse.wire, hc₀]
  exact hsalt.append (hhead.append ((frames_first _ _).append hrest))

theorem reader_exact (p : Primitives) (method : Method) (psk clientSalt : List UInt8) (now : Nat)
    (all : List UInt8) :
    ∃ content,
      (content = [] ∨
        ∃ r : ServerResponse method clientSalt now, r.wire p psk <+: all ∧ r.payload = content) ∧
      (∀ r : ServerResponse method clientSalt now, r.wire p psk <+: all → r.payload <+: content) ∧
      (∀ r : ServerResponse method clientSalt now, r.wire p psk = all → r.payload = content) ∧
      ∀ (rs : List Response) (caps : List Nat) (run : ReadRun ReadStage Unit),
        Machine.run ((framing p method psk clientSalt now).step .id) (Framing.start .serverSalt () rs all) caps =
            some run →
          run.delivered <+: content ∧ ∀ cap, Exact content run.delivered run.source cap
            (pollRead p method psk clientSalt now run.reader run.source cap).1 := by
  have ⟨content, hy⟩ := Framing.exists_yields (framing p method psk clientSalt now) .serverSalt all
  refine ⟨content, ?_, ?_, ?_, ?_⟩
  case refine_1 =>
    have ⟨done, rest, s, hf, ha, _⟩ := hy
    obtain hnil | ⟨r, hr, he⟩ := delivers_of_frames hf
    case inl => exact .inl hnil
    case inr => exact .inr ⟨r, hr.trans ⟨rest, ha⟩, he⟩
  case refine_2 =>
    intro r hr
    have ⟨_, hf⟩ := @frames_response p method psk clientSalt now r
    exact hy.of_frames hf hr
  case refine_3 =>
    rintro r rfl
    have ⟨_, hf⟩ := @frames_response p method psk clientSalt now r
    exact (Framing.yields_all hf).unique hy
  case refine_4 =>
    intro rs caps run hrun
    have hinv := Framing.inv_run (Framing.inv_start _ _ rs all) hrun
    exact ⟨(List.prefix_append _ _).trans (hinv.of_yields hy), fun cap => Framing.exact_of_yields hy hinv cap⟩

def salt : List UInt8 :=
  List.replicate 16 9

-- An empty first payload, and a chunk.
def emptyFirst : ServerResponse .ss2022Aes128Gcm salt 100 where
  salt := List.replicate 16 1
  timestamp := 130
  requestSalt := salt
  first := []
  chunks := [[7, 8]]
  length_salt := rfl
  timestamp_lt := by decide
  fresh := by decide
  requestSalt_eq := rfl
  length_reqSalt := rfl
  length_first := by decide
  length_chunks := by decide

theorem reader_exact_emptyFirst :
    ∃ run, Machine.run ((framing .trivial .ss2022Aes128Gcm [] salt 100).step .id) (Framing.start .serverSalt ()
        [.ready 5, .pending, .ready 90, .ready 90, .ready 90, .ready 90, .ready 90]
          (emptyFirst.wire .trivial [])) [3, 1] = some run ∧
      run.delivered <+: [7, 8] ∧ ∀ cap, Exact [7, 8] run.delivered run.source cap
        (pollRead .trivial .ss2022Aes128Gcm [] salt 100 run.reader run.source cap).1 := by
  have h : (Machine.run ((framing .trivial .ss2022Aes128Gcm [] salt 100).step .id)
    (Framing.start .serverSalt () [.ready 5, .pending, .ready 90, .ready 90, .ready 90, .ready 90, .ready 90]
      (emptyFirst.wire .trivial [])) [3, 1]).isSome := by decide +kernel
  obtain ⟨run, hrun⟩ := Option.isSome_iff_exists.mp h
  obtain ⟨content, _, _, hfull, hall⟩ :=
    reader_exact .trivial .ss2022Aes128Gcm [] salt 100 (emptyFirst.wire .trivial [])
  have hcontent : [7, 8] = content := hfull emptyFirst rfl
  exact ⟨run, hrun, hcontent ▸ hall _ _ run hrun⟩

-- The header of a request, and then a response.
def badHeaderFirst : List UInt8 :=
  emptyFirst.salt ++ sealAll .trivial (sessionCrypto .trivial .ss2022Aes128Gcm [] emptyFirst.salt)
    ((0 :: emptyFirst.header.tail) :: emptyFirst.header :: [] :: chunkFrames [[7, 8]])

def firstPoll : Poll (List UInt8) × Reader ReadStage Unit × Source :=
  pollRead .trivial .ss2022Aes128Gcm [] salt 100 { stage := .serverSalt, filter := (), rtmp := [], plain := [] }
    { responses := List.replicate 9 (.ready 99), rest := badHeaderFirst } 9

-- A reader that is asked again after it has refused a header goes on with the next frame.
theorem read_after_error :
    firstPoll.1 = .error (.other "ss2022: не ответ (type)") ∧
      (pollRead .trivial .ss2022Aes128Gcm [] salt 100 firstPoll.2.1 firstPoll.2.2 9).1 = .ready [7, 8] := by
  decide +kernel

end JammVpn.Ss2022Stream
