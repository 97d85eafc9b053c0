import JammVpn.Net.ShadowsocksStream

namespace JammVpn.ShadowsocksStream

open Bytes PollIo Shadowsocks
open Framing (Frames ReadRun)
open Encoder (Encodes WriteRun)

variable {p : Primitives} {method : Method} {master : List UInt8}

-- The key has the right length, so that every salt gives a cipher.
theorem newCrypto_ok (salt : List UInt8) :
    ∃ c, newCrypto p method master salt = .ok c ∧ c.nonce = toLe 12 0 := by
  have hl : (sessionSubkey p method master salt).length = method.keyLen := p.length_hkdfSha1 ..
  refine ⟨_, by rw [newCrypto, Crypto.new, AeadKey.new, dif_pos hl]; rfl, ?_⟩
  show List.replicate 12 (0 : UInt8) = toLe 12 0
  decide

-- A chunk as it is sealed is opened again.
theorem frames_chunk (c : Crypto) {buf : List UInt8} (hb : buf ≠ []) :
    let len := c.sealBytes p (toBe 2 (min buf.length maxChunk))
    let data := len.2.sealBytes p (buf.take (min buf.length maxChunk))
    Frames (framing p method master) (.len c) (len.1 ++ data.1) (buf.take (min buf.length maxChunk))
      (.len data.2) := by
  intro len data
  have hpos : 0 < min buf.length maxChunk := by
    have := List.length_pos_iff.mpr hb
    rw [maxChunk]
    omega
  have hle : min buf.length maxChunk ≤ maxChunk := Nat.min_le_right _ _
  have hlen : Frames (framing p method master) (.len c) len.1 []
      (.data len.2 (min buf.length maxChunk) hpos) := by
    refine .single (p := none) (c.length_sealBytes p _ |>.trans ?_) ?_
    case refine_1 => rw [length_toBe]; rfl
    case refine_2 =>
      have hn : ofBe ((toBe 2 (min buf.length maxChunk)).take 2) = min buf.length maxChunk := by
        rw [List.take_of_length_le (Nat.le_of_eq (length_toBe 2 _)), ofBe_toBe_of_lt]
        exact Nat.lt_of_le_of_lt hle (by decide)
      simp only [framing, ReadStage.next, len, Crypto.openBytes_sealBytes, hn]
      rw [dif_pos ⟨hpos, hle⟩]
  have hdata : Frames (framing p method master) (.data len.2 (min buf.length maxChunk) hpos) data.1
      (buf.take (min buf.length maxChunk)) (.len data.2) := by
    refine .single (p := some (buf.take (min buf.length maxChunk))) (len.2.length_sealBytes p _ |>.trans ?_) ?_
    case refine_1 =>
      rw [List.length_take, Nat.min_eq_left (Nat.min_le_left _ _)]
      rfl
    case refine_2 => simp only [framing, ReadStage.next, data, Crypto.openBytes_sealBytes]
  exact hlen.append hdata

-- The bytes of a chunk, and the cipher after it.
def chunk (p : Primitives) (c : Crypto) (buf : List UInt8) : List UInt8 × Crypto :=
  let len := c.sealBytes p (toBe 2 (min buf.length maxChunk))
  let data := len.2.sealBytes p (buf.take (min buf.length maxChunk))
  (len.1 ++ data.1, data.2)

theorem encode_ok {send send' : Option Crypto} {random : Random} {buf out : List UInt8} {n : Nat}
    (h : encode p method master send random buf = (.ok n, out, send')) :
    ∃ salt c, openSend p method master send random = .ok (salt, c) ∧ n = min buf.length maxChunk ∧
      out = salt ++ (chunk p c buf).1 ∧ send' = some (chunk p c buf).2 := by
  rw [encode] at h
  cases ho : openSend p method master send random
  case error e =>
    rw [ho] at h
    cases h
  case ok r =>
    obtain ⟨salt, c⟩ := r
    rw [ho] at h
    cases h
    exact ⟨salt, c, rfl, rfl, List.append_assoc .., rfl⟩

-- The first call begins with a salt, from which the reader makes the same cipher.
theorem openSend_none {random : Random} {salt : List UInt8} {c : Crypto}
    (h : openSend p method master none random = .ok (salt, c)) :
    Frames (framing p method master) .salt salt [] (.len c) ∧ c.nonce = toLe 12 0 := by
  cases random
  case none => cases h
  case some bytes =>
    have ⟨c', hc, hn⟩ := @newCrypto_ok p method master ((List.range method.saltLen).map bytes)
    rw [openSend, hc] at h
    cases h
    refine ⟨.single (p := none) (by simp [framing, ReadStage.need]) ?_, hn⟩
    simp only [framing, ReadStage.next, hc]

theorem chunk_nonce {c : Crypto} {n : Nat} (h : c.nonce = toLe 12 n) (buf : List UInt8) :
    (chunk p c buf).2.nonce = toLe 12 (n + 2) := by
  show incrNonce (incrNonce c.nonce) = _
  rw [h, incrNonce_toLe, incrNonce_toLe]

variable {h : List (Option Crypto × Random × List UInt8)} {wire content : List UInt8} {send : Option Crypto}

-- The cipher of the next call, and the bytes up to its chunk.
def Reached (p : Primitives) (method : Method) (master : List UInt8) (calls : Nat)
    (wire content : List UInt8) (send : Option Crypto) : Prop :=
  (send = none ∧ calls = 0 ∧ wire = [] ∧ content = []) ∨
    ∃ c, send = some c ∧ c.nonce = toLe 12 (2 * calls) ∧
      Frames (framing p method master) .salt wire content (.len c)

theorem Reached.openSend {calls : Nat} (h : Reached p method master calls wire content send)
    {random : Random} {salt : List UInt8} {c : Crypto}
    (ho : openSend p method master send random = .ok (salt, c)) :
    c.nonce = toLe 12 (2 * calls) ∧
      Frames (framing p method master) .salt (wire ++ salt) content (.len c) := by
  obtain ⟨rfl, rfl, rfl, rfl⟩ | ⟨c', rfl, hn, hf⟩ := h
  case inl =>
    have ⟨hf, hn⟩ := openSend_none ho
    exact ⟨hn, hf⟩
  case inr =>
    cases ho
    exact ⟨hn, (List.append_nil wire).symm ▸ hf⟩

theorem reached (he : Encodes (encoder p method master) none h wire content send) :
    Reached p method master h.length wire content send := by
  induction he
  case nil => exact .inl ⟨rfl, rfl, rfl, rfl⟩
  case snoc h wire content send random buf n out send' _ _ hb hs hi =>
    have ⟨salt, c, ho, hn, hout, hsend⟩ := encode_ok hs
    have ⟨hnonce, hf⟩ := hi.openSend ho
    refine .inr ⟨_, hsend, ?_, ?_⟩
    case refine_1 =>
      rw [chunk_nonce hnonce, List.length_append, List.length_singleton, Nat.mul_add]
    case refine_2 =>
      rw [hout, hn, ← List.append_assoc]
      exact hf.append (frames_chunk c hb)

-- The nonces of the calls are the numbers from zero on.
theorem nonces_of_encodes (he : Encodes (encoder p method master) none h wire content send) :
    h.flatMap (nonces p method master) = (List.range (2 * h.length)).map (toLe 12) := by
  induction he
  case nil => rfl
  case snoc h wire content send random buf n out send' he _ hb hs hi =>
    have ⟨salt, c, ho, _⟩ := encode_ok hs
    have ⟨hnonce, _⟩ := (reached he).openSend ho
    have hpair : (c.sealBytes p (toBe 2 (min buf.length maxChunk))).2.nonce = toLe 12 (2 * h.length + 1) :=
      (congrArg incrNonce hnonce).trans (incrNonce_toLe 12 _)
    rw [List.flatMap_append, hi, List.flatMap_singleton, nonces, ho, List.length_append,
      List.length_singleton, Nat.mul_add, List.range_add, List.map_append]
    simp only [hnonce, hpair]
    rfl

theorem nodup_nonces (n : Nat) : (((List.range n).map (toLe 12)).take (2 ^ 96)).Nodup := by
  have h96 : 2 ^ 96 = 256 ^ 12 := by decide
  rw [← List.map_take, List.take_range, h96]
  refine List.Nodup.map_on (fun a ha b hb hab => toLe_inj ?_ ?_ hab) List.nodup_range
  case refine_1 => exact Nat.lt_of_lt_of_le (List.mem_range.mp ha) (Nat.min_le_left _ _)
  case refine_2 => exact Nat.lt_of_lt_of_le (List.mem_range.mp hb) (Nat.min_le_left _ _)

theorem stream_transparent (p : Primitives) (method : Method) (master : List UInt8) (ws : List Response)
    (ops : List (Encoder.Op Random)) (w : WriteRun (Option Crypto) Random)
    (hw : Machine.run (encoder p method master).step (Encoder.start none [] ws) ops = some w)
    (cut : List UInt8) (hcut : cut <+: w.sink.written) (rs : List Response) (caps : List Nat)
    (r : ReadRun ReadStage Unit)
    (hr : Machine.run ((framing p method master).step .id) (Framing.start .salt () rs cut) caps = some r) :
    Transparent (framing p method master) .id .salt () w cut r ∧
      ((w.history.flatMap (nonces p method master)).take (2 ^ 96)).Nodup := by
  have ⟨wire, content, raw, henc, _⟩ := Encoder.inv_run (Encoder.inv_start none [] ws) hw
  refine ⟨transparent (fun _ => rfl) (fun h wire content send he => ?_) hw hcut hr, ?_⟩
  case refine_1 =>
    obtain ⟨_, _, rfl, rfl⟩ | ⟨c, _, _, hf⟩ := reached he
    case inl => exact ⟨.salt, .nil _⟩
    case inr => exact ⟨_, hf⟩
  case refine_2 =>
    rw [nonces_of_encodes henc]
    exact nodup_nonces _

def random : Random :=
  some fun n => .ofNat n

-- Two calls of three bytes to a stream that takes some of them.
def threeAndThree : List (Encoder.Op Random) :=
  [.write random [1, 2, 3], .write random [4, 5, 6], .flush]

theorem stream_transparent_threeAndThree :
    ∃ w r, Machine.run (encoder .trivial .aes128Gcm []).step
        (Encoder.start none [] [.ready 20, .pending, .ready 90, .ready 5, .ready 90, .ready 0]) threeAndThree =
          some w ∧
      Machine.run ((framing .trivial .aes128Gcm []).step .id)
        (Framing.start .salt () [.ready 6, .pending, .ready 90, .ready 90, .ready 90] w.sink.written)
          [1, 1, 1] = some r ∧
      Transparent (framing .trivial .aes128Gcm []) .id .salt () w w.sink.written r ∧
      ((w.history.flatMap (nonces .trivial .aes128Gcm [])).take (2 ^ 96)).Nodup := by
  have h : ((Machine.run (encoder .trivial .aes128Gcm []).step
    (Encoder.start none [] [.ready 20, .pending, .ready 90, .ready 5, .ready 90, .ready 0])
      threeAndThree).bind fun w => Machine.run ((framing .trivial .aes128Gcm []).step .id)
        (Framing.start .salt () [.ready 6, .pending, .ready 90, .ready 90, .ready 90] w.sink.written)
          [1, 1, 1]).isSome := by decide +kernel
  obtain ⟨r, hr⟩ := Option.isSome_iff_exists.mp h
  obtain ⟨w, hw, hr⟩ := Option.bind_eq_some_iff.mp hr
  exact ⟨w, r, hw, hr, stream_transparent .trivial .aes128Gcm [] _ threeAndThree w hw _ (List.prefix_refl _) _ _
    r hr⟩

theorem flushWbuf_all {out : List UInt8} {n : Nat} (hne : out ≠ []) (hl : out.length ≤ n + 1)
    (rs : List Response) (written : List UInt8) :
    flushWbuf (.ready (n + 1) :: rs) out written = (.ready (), [], ⟨rs, written ++ out⟩) := by
  cases out
  case nil => exact absurd rfl hne
  case cons b bs =>
    show flushWbuf rs ((b :: bs).drop (n + 1)) (written ++ (b :: bs).take (n + 1)) = _
    rw [List.drop_of_length_le hl, List.take_of_length_le hl]
    cases rs <;> rfl

theorem encode_random (send : Option Crypto) :
    ∃ out c, encode .trivial .aes128Gcm [] send random [0] = (.ok 1, out, some c) ∧ out ≠ [] ∧
      out.length ≤ 98 + 1 := by
  obtain ⟨salt, c, ho, hl⟩ : ∃ salt c, openSend .trivial .aes128Gcm [] send random = .ok (salt, c) ∧
      salt.length ≤ 16 := by
    cases send
    case some c => exact ⟨[], c, rfl, Nat.zero_le _⟩
    case none =>
      have ⟨c, hc, _⟩ := @newCrypto_ok .trivial .aes128Gcm [] ((List.range 16).map .ofNat)
      refine ⟨(List.range 16).map .ofNat, c, ?_, by decide⟩
      exact congrArg (Except.map _) hc
  have hlen : (chunk .trivial c [0]).1.length = 35 := by
    show ((c.sealBytes _ _).1 ++ (Crypto.sealBytes _ _ _).1).length = 35
    rw [List.length_append, Crypto.length_sealBytes, Crypto.length_sealBytes]
    rfl
  refine ⟨salt ++ (chunk .trivial c [0]).1, (chunk .trivial c [0]).2, ?_, fun h => ?_, ?_⟩
  case refine_1 =>
    rw [encode, ho]
    exact congrArg (fun out => (Except.ok 1, out, some _)) (List.append_assoc ..)
  case refine_2 =>
    rw [(List.append_eq_nil_iff.mp h).2] at hlen
    exact absurd hlen (by decide)
  case refine_3 =>
    rw [List.length_append, hlen]
    omega

-- Writes of one byte to a stream that takes whatever it is given.
theorem exists_writes (n : Nat) (s : WriteRun (Option Crypto) Random) (hs : s.writer.wbuf = [])
    (hr : s.sink.responses = List.replicate n (.ready 99)) :
    ∃ s', Machine.run (encoder .trivial .aes128Gcm []).step s (List.replicate n (.write random [0])) = some s' ∧
      s'.history.length = s.history.length + n := by
  induction n generalizing s
  case zero => exact ⟨s, rfl, rfl⟩
  case succ n hi =>
    obtain ⟨⟨enc, wbuf⟩, ⟨rs, written⟩, accepted, history⟩ := s
    rw [List.replicate_succ] at hr ⊢
    cases hs
    cases hr
    generalize List.replicate n (Response.ready 99) = rs at hi ⊢
    obtain ⟨out, c, he, hne, hl⟩ := encode_random enc
    have hf := flushWbuf_all hne hl rs written
    have h0 : flushWbuf (.ready 99 :: rs) [] written = (.ready (), [], ⟨.ready 99 :: rs, written⟩) := rfl
    have hstep : (encoder .trivial .aes128Gcm []).step
        ⟨⟨enc, []⟩, ⟨.ready 99 :: rs, written⟩, accepted, history⟩ (.write random [0]) =
          some ⟨⟨some c, []⟩, ⟨rs, written ++ out⟩, accepted ++ [0], history ++ [(enc, random, [0])]⟩ := by
      simp only [Encoder.step, Encoder.pollWrite, h0, encoder, he, List.nil_append, hf]
      rfl
    obtain ⟨s', hrun, hlen⟩ := hi ⟨⟨some c, []⟩, ⟨rs, written ++ out⟩, accepted ++ [0],
      history ++ [(enc, random, [0])]⟩ rfl rfl
    refine ⟨s', ?_, ?_⟩
    case refine_1 =>
      rw [Machine.run, hstep]
      exact hrun
    case refine_2 =>
      rw [hlen, List.length_append, List.length_singleton]
      exact Nat.add_right_comm ..

-- The counter comes round to its first value.
theorem not_nodup_nonces {n : Nat} (h : 2 ^ 96 < n) : ¬((List.range n).map (toLe 12)).Nodup := by
  intro hn
  have he := List.inj_on_of_nodup_map hn (List.mem_range.mpr (Nat.zero_lt_of_lt h)) (List.mem_range.mpr h)
    (by decide)
  exact absurd he (by decide)

-- A call that fails after it has sealed its chunk.
def failedWrite : Poll Nat × Writer (Option Crypto) × Sink :=
  pollWrite .trivial .aes128Gcm [] { enc := none, wbuf := [] }
    { responses := [.error, .ready 99, .ready 0], written := [] } random [7]

-- Its bytes are written by the next call, and read; and the counter of the nonces comes round.
theorem error_and_wrap :
    (failedWrite.1 = .error .inner ∧ (pollFlush failedWrite.2.1 failedWrite.2.2).1 = .ready () ∧
      (pollRead .trivial .aes128Gcm [] { stage := .salt, filter := (), rtmp := [], plain := [] } {
        responses := List.replicate 3 (.ready 99)
        rest := (pollFlush failedWrite.2.1 failedWrite.2.2).2.2.written
      } 9).1 = .ready [7]) ∧
    ∃ ws ops w, Machine.run (encoder .trivial .aes128Gcm []).step (Encoder.start none [] ws) ops = some w ∧
      ¬(w.history.flatMap (nonces .trivial .aes128Gcm [])).Nodup := by
  refine ⟨by decide +kernel, ?_⟩
  have ⟨w, hw, hlen⟩ := exists_writes (2 ^ 95 + 1)
    (Encoder.start none [] (List.replicate (2 ^ 95 + 1) (.ready 99))) rfl rfl
  have ⟨wire, content, raw, henc, _⟩ := Encoder.inv_run (Encoder.inv_start none [] _) hw
  refine ⟨_, _, w, hw, ?_⟩
  rw [nonces_of_encodes henc, hlen]
  exact not_nodup_nonces (by decide)

end JammVpn.ShadowsocksStream
