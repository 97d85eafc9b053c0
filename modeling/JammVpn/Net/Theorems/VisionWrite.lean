import JammVpn.Net.Theorems.TlsRecords
import JammVpn.Net.Theorems.VisionUnpad

namespace JammVpn.Vision

open Bytes PollIo
open Encoder (Encodes WriteRun)

variable {uuid : List UInt8}

-- The user's id goes before the first block.
def Padder.head (uuid : List UInt8) (p : Padder) : List UInt8 :=
  if p.firstPacket then uuid else []

section

variable {p : Padder} {data : List UInt8} {isTls : Bool}

theorem length_pad_le (number contentLen : Nat) (isTls : Bool) :
    calculatePaddingLength number contentLen isTls < 65536 := by
  rw [calculatePaddingLength]
  split
  case isTrue  => exact Nat.lt_of_le_of_lt (Nat.min_le_right _ _) (by rw [maxPaddingSize]; omega)
  case isFalse => exact Nat.lt_of_le_of_lt (Nat.min_le_right _ _) (by rw [maxPaddingSize]; omega)

theorem pad_eq_block (hl : data.length < 65536) (command : UInt8) :
    ∃ padding, Fits data padding ∧ (p.pad uuid data command isTls).1 = p.head uuid ++ block command data padding ∧
      (p.pad uuid data command isTls).2.firstPacket = false := by
  have hmod : data.length % 65536 = data.length := Nat.mod_eq_of_lt hl
  refine ⟨(List.range (calculatePaddingLength (p.draws 0).number data.length isTls)).map (p.draws 0).bytes, ?_, ?_,
    rfl⟩
  case refine_1 =>
    refine ⟨hl, ?_⟩
    rw [List.length_map, List.length_range]
    exact length_pad_le _ _ _
  case refine_2 =>
    simp only [Padder.pad, Vision.pad, hmod, block, Padder.head, List.length_map, List.length_range]
    cases p.firstPacket <;> simp

-- The blocks of some data, of which the last one has the command.
def Pushed (uuid : List UInt8) (p : Padder) (command : UInt8) (data out : List UInt8) (p' : Padder) : Prop :=
  ∃ wire content last padding, Blocks wire content ∧ Fits last padding ∧ content ++ last = data ∧
    out = p.head uuid ++ (wire ++ block command last padding) ∧ p'.firstPacket = false

theorem Blocks.cons {wire out content padding : List UInt8} (hf : Fits content padding) (h : Blocks wire out) :
    Blocks (block 0 content padding ++ wire) (content ++ out) := by
  induction h
  case nil => simpa using Blocks.nil.snoc hf
  case snoc h hf' hi =>
    rw [← List.append_assoc, ← List.append_assoc]
    exact hi.snoc hf'

theorem Blocks.append {wire out wire' out' : List UInt8} (h : Blocks wire out) (h' : Blocks wire' out') :
    Blocks (wire ++ wire') (out ++ out') := by
  induction h'
  case nil =>
    rw [List.append_nil, List.append_nil]
    exact h
  case snoc _ hf hi =>
    rw [← List.append_assoc, ← List.append_assoc]
    exact hi.snoc hf

theorem pushed_pad (hl : data.length < 65536) (command : UInt8) :
    Pushed uuid p command data (p.pad uuid data command isTls).1 (p.pad uuid data command isTls).2 := by
  have ⟨padding, hf, hout, hfirst⟩ := @pad_eq_block uuid p data isTls hl command
  exact ⟨[], [], data, padding, .nil, hf, rfl, hout, hfirst⟩

theorem pushed_blocks {pieces : List (List UInt8)} (hne : pieces ≠ []) (hl : ∀ piece ∈ pieces, piece.length < 65536)
    (command : UInt8) :
    Pushed uuid p command pieces.flatten (p.pushBlocks uuid isTls command pieces).1
      (p.pushBlocks uuid isTls command pieces).2 := by
  induction pieces generalizing p
  case nil => exact absurd rfl hne
  case cons piece rest hi =>
    have ⟨hpiece, hrest⟩ := List.forall_mem_cons.mp hl
    cases rest
    case nil =>
      rw [List.flatten_singleton]
      exact pushed_pad hpiece command
    case cons piece' rest =>
      have ⟨padding, hf, hout, hfirst⟩ := @pad_eq_block uuid p piece isTls hpiece commandContinue
      rcases hpad : p.pad uuid piece commandContinue isTls with ⟨out, p'⟩
      rw [hpad] at hout hfirst
      dsimp only at hout hfirst
      have ⟨wire, content, last, padding', hb, hf', hdata, hout', hfirst'⟩ := @hi p' (List.cons_ne_nil _ _) hrest
      have hnil : p'.head uuid = [] := if_neg (by rw [hfirst]; exact Bool.false_ne_true)
      rw [hnil, List.nil_append] at hout'
      simp only [Padder.pushBlocks, hpad]
      refine ⟨block 0 piece padding ++ wire, piece ++ content, last, padding', hb.cons hf, hf', ?_, ?_, hfirst'⟩
      case refine_1 =>
        rw [List.append_assoc, hdata]
        rfl
      case refine_2 =>
        rw [hout, hout', List.append_assoc, List.append_assoc]
        rfl

theorem pushed (data : List UInt8) (command : UInt8) (isTls : Bool) :
    Pushed uuid p command data (p.pushPadded uuid data command isTls).1 (p.pushPadded uuid data command isTls).2 := by
  rw [Padder.pushPadded]
  split
  case isTrue hnil =>
    refine pushed_pad ?_ command
    rw [List.isEmpty_iff.mp hnil]
    exact Nat.succ_pos _
  case isFalse hne =>
    have hflat : (chunks maxContent data).flatten = data := flatten_chunks (by decide) data
    have hpieces : chunks maxContent data ≠ [] := fun h => by
      rw [h] at hflat
      exact hne (List.isEmpty_iff.mpr hflat.symm)
    have hl : ∀ piece ∈ chunks maxContent data, piece.length < 65536 := by
      intro piece hmem
      obtain ⟨i, _, rfl⟩ := List.mem_map.mp hmem
      exact Nat.lt_of_le_of_lt (length_piece_le _ _ _) (by decide)
    have h := @pushed_blocks uuid p isTls _ hpieces hl command
    rwa [hflat] at h

end

-- The blocks so far have the user's id before them.
def Headed (uuid : List UInt8) (p : Padder) (wire blocks : List UInt8) : Prop :=
  (p.firstPacket = true ∧ wire = [] ∧ blocks = []) ∨ (p.firstPacket = false ∧ wire = uuid ++ blocks)

theorem Headed.append {p : Padder} {wire blocks more : List UInt8} (h : Headed uuid p wire blocks) :
    wire ++ (p.head uuid ++ more) = uuid ++ (blocks ++ more) := by
  obtain ⟨hp, rfl, rfl⟩ | ⟨hp, rfl⟩ := h
  case inl => simp [Padder.head, hp]
  case inr => simp [Padder.head, hp]

-- What has been written for all that has been taken.
def Reached (uuid : List UInt8) (s : WriteState) (wire content : List UInt8) : Prop :=
  match s.mode with
  | .padding     =>
    ∃ blocks out, Headed uuid s.padder wire blocks ∧ Blocks blocks out ∧ out ++ s.deframer.remainingData = content
  | .passthrough =>
    s.deframer = .new ∧ ∃ blocks out last padding raw, wire = uuid ++ (blocks ++ (block 1 last padding ++ raw)) ∧
      Blocks blocks out ∧ Fits last padding ∧ out ++ last ++ raw = content

theorem reached_new (draws : Nat → Draw) : Reached uuid (.new draws) [] [] :=
  ⟨[], [], .inl ⟨rfl, rfl, rfl⟩, .nil, rfl⟩

theorem reached_feed {s : WriteState} {wire content : List UInt8} (hm : s.mode = .padding)
    (h : Reached uuid s wire content) (buf : List UInt8) :
    Reached uuid { s with deframer := s.deframer.feed buf } wire (content ++ buf) := by
  simp only [Reached, hm] at h ⊢
  have ⟨blocks, out, hhead, hb, hrem⟩ := h
  refine ⟨blocks, out, hhead, hb, ?_⟩
  have hfeed : (s.deframer.feed buf).remainingData = s.deframer.remainingData ++ buf := by
    cases s.deframer <;> rfl
  rw [hfeed, ← hrem, List.append_assoc]

-- What has been found is put into blocks that are to be continued, ...
theorem reached_push {s : WriteState} {wire content found out : List UInt8} {d : FuzzyTlsDeframer}
    {f : VisionFilter} {p : Padder} (hm : s.mode = .padding) (h : Reached uuid s wire content)
    (hrem : found ++ d.remainingData = s.deframer.remainingData)
    (hp : s.padder.pushPadded uuid found commandContinue f.isTls = (out, p)) :
    Reached uuid { s with deframer := d, filter := f, padder := p } (wire ++ out) content := by
  simp only [Reached, hm] at h ⊢
  have ⟨blocks, out₀, hhead, hb, hrem'⟩ := h
  have ⟨wire', out', last, padding, hb', hf, hdata, hout, hfirst⟩ :=
    @pushed uuid s.padder found commandContinue f.isTls
  rw [hp] at hout hfirst
  dsimp only at hout hfirst
  refine ⟨_, _, .inr ⟨hfirst, ?_⟩, hb.append (hb'.snoc hf), ?_⟩
  case refine_1 =>
    rw [hout, hhead.append]
    rfl
  case refine_2 => rw [hdata, List.append_assoc, hrem, hrem']

-- ... or into a last one, and the rest follows as it is.
theorem reached_finish {s s' : WriteState} {wire content found out : List UInt8} {d : FuzzyTlsDeframer}
    {f : VisionFilter} (hm : s.mode = .padding) (h : Reached uuid s wire content)
    (hrem : found ++ d.remainingData = s.deframer.remainingData)
    (hf : WriteState.finish uuid { s with deframer := d, filter := f } found = (out, s')) :
    Reached uuid s' (wire ++ out) content := by
  simp only [Reached, hm] at h
  have ⟨blocks, out₀, hhead, hb, hrem'⟩ := h
  have ⟨wire', out', last, padding, hb', hfits, hdata, hout, hfirst⟩ :=
    @pushed uuid s.padder found commandEnd f.isTls
  cases hf
  refine ⟨rfl, blocks ++ wire', out₀ ++ out', last, padding, d.remainingData, ?_, hb.append hb', hfits, ?_⟩
  case refine_1 =>
    show wire ++ ((s.padder.pushPadded uuid found commandEnd f.isTls).1 ++ d.remainingData) = _
    rw [hout, List.append_assoc, hhead.append]
    simp only [List.append_assoc]
    rfl
  case refine_2 => rw [List.append_assoc out₀, hdata, List.append_assoc, hrem, hrem']

theorem reached_writeLoop {s s' : WriteState} {wire content out out' : List UInt8} (hm : s.mode = .padding)
    (h : Reached uuid s (wire ++ out) content) (hw : s.writeLoop uuid out = (.ok (), out', s')) :
    Reached uuid s' (wire ++ out') content := by
  fun_induction WriteState.writeLoop uuid s out
  case case1 => cases hw
  case case2 s out d hn =>
    cases hw
    have hrem := (FuzzyTlsDeframer.nextRecord_remaining hn).1
    simp only [Reached, hm] at h ⊢
    rw [← hrem] at h
    exact h
  case case3 s out record d hn _ _ blocks s₁ hf =>
    have hr := reached_finish hm h (FuzzyTlsDeframer.nextRecord_remaining hn).1 hf
    cases hw
    exact List.append_assoc .. ▸ hr
  case case4 s out record d hn _ _ blocks p hp hi =>
    have hr := reached_push hm h (FuzzyTlsDeframer.nextRecord_remaining hn).1 hp
    exact hi hm (List.append_assoc .. ▸ hr) hw
  case case5 s out before d hn _ _ blocks p hp hi =>
    have hr := reached_push hm h (FuzzyTlsDeframer.nextRecord_remaining hn).1 hp
    exact hi hm (List.append_assoc .. ▸ hr) hw
  case case6 s out before d hn _ _ blocks s₁ hf =>
    have hr := reached_finish hm h (FuzzyTlsDeframer.nextRecord_remaining hn).1 hf
    cases hw
    exact List.append_assoc .. ▸ hr

-- An encoded call takes the whole buffer.
theorem encode_cases {s s' : WriteState} {buf out : List UInt8} {n : Nat}
    (h : s.encode uuid buf = (.ok n, out, s')) :
    n = buf.length ∧ WriteState.writeLoop uuid { s with deframer := s.deframer.feed buf } [] = (.ok (), out, s') := by
  rw [WriteState.encode] at h
  rcases hw : WriteState.writeLoop uuid { s with deframer := s.deframer.feed buf } [] with ⟨r, out', s''⟩
  rw [hw] at h
  cases r
  case error e => cases h
  case ok u =>
    cases h
    exact ⟨rfl, rfl⟩

theorem reached_encodes {draws : Nat → Draw} {h : List (WriteState × Unit × List UInt8)}
    {wire content : List UInt8} {s : WriteState}
    (he : Encodes (encoder uuid) (.new draws) h wire content s) : Reached uuid s wire content := by
  induction he
  case nil => exact reached_new draws
  case snoc h wire content s i buf n out s' _ hd hb hs hi =>
    have hm : s.mode = .padding := by
      cases hmode : s.mode
      case padding     => rfl
      case passthrough => simp [encoder, hmode] at hd
    obtain ⟨rfl, hw⟩ := encode_cases hs
    have hfeed := reached_feed hm hi buf
    rw [← List.append_nil wire] at hfeed
    have hr := @reached_writeLoop uuid { s with deframer := s.deframer.feed buf } s' wire _ [] out hm hfeed hw
    rwa [List.take_length]

theorem Blocks.of_nil {out : List UInt8} (h : Blocks [] out) : out = [] := by
  generalize hw : ([] : List UInt8) = wire at h
  cases h
  case nil => rfl
  case snoc => exact absurd (List.append_eq_nil_iff.mp hw.symm).2 (List.cons_ne_nil _ _)

-- What the padding is removed to is all that has been taken, but for what the deframer has kept.
theorem unpad_reached (huuid : uuid.length = 16) {s : WriteState} {wire content raw : List UInt8}
    (h : Reached uuid s wire content) (hraw : raw ≠ [] → s.mode = .passthrough) :
    ∃ r u, VisionUnpadder.new.unpad uuid (wire ++ raw) = (.ok r, u) ∧
      r.content ++ s.deframer.remainingData = content ++ raw := by
  cases hm : s.mode
  case padding =>
    have hnil : raw = [] := Classical.byContradiction fun hne => by simp [hm] at hraw; exact hne hraw
    simp only [Reached, hm] at h
    obtain ⟨blocks, out, ⟨_, rfl, rfl⟩ | ⟨_, rfl⟩, hb, rfl⟩ := h
    case inl =>
      rw [hb.of_nil, hnil]
      refine ⟨{ content := [], command := none }, .new, ?_, (List.append_nil _).symm⟩
      show VisionUnpadder.unpadLoop uuid true .initial [] [] = _
      rw [VisionUnpadder.unpadLoop, if_pos (by decide)]
      rfl
    case inr =>
      obtain ⟨first, hfirst, hblocks⟩ := @VisionUnpadder.unpadLoop_blocks uuid true _ _ hb
      have hend := hblocks [] []
      rw [List.append_nil, List.nil_append, VisionUnpadder.unpadLoop] at hend
      rw [hnil, List.append_nil, List.append_nil, VisionUnpadder.unpad_new huuid]
      refine ⟨_, _, hend, congrArg (· ++ _) ?_⟩
      rw [VisionUnpadder.outOfData]
      by_cases hne : blocks = []
      case pos =>
        subst hne
        rw [hb.of_nil]
        split <;> rfl
      case neg => rw [hfirst hne]; rfl
  case passthrough =>
    simp only [Reached, hm] at h
    obtain ⟨hd, blocks, out, last, padding, raw', rfl, hb, hf, rfl⟩ := h
    obtain ⟨first, _, hblocks⟩ := @VisionUnpadder.unpadLoop_blocks uuid true _ _ hb
    have hend := hblocks [] (block 1 last padding ++ (raw' ++ raw))
    rw [VisionUnpadder.unpadLoop_end hf] at hend
    have hdata : uuid ++ (blocks ++ (block 1 last padding ++ raw')) ++ raw =
        uuid ++ (blocks ++ (block 1 last padding ++ (raw' ++ raw))) := by simp only [List.append_assoc]
    rw [hdata, VisionUnpadder.unpad_new huuid, hend]
    refine ⟨_, _, rfl, ?_⟩
    rw [hd]
    simp [FuzzyTlsDeframer.new, FuzzyTlsDeframer.remainingData]

theorem checked_encodes {draws : Nat → Draw} {h : List (WriteState × Unit × List UInt8)}
    {wire content : List UInt8} {s : WriteState}
    (he : Encodes (encoder uuid) (.new draws) h wire content s) : s.deframer.Checked := by
  induction he
  case nil => trivial
  case snoc h wire content s i buf n out s' _ hd hb hs hi =>
    exact writeLoop_checked (hi.feed buf) (encode_cases hs).2

theorem encode_error_iff {s : WriteState} (hc : s.deframer.Checked) (buf : List UInt8) :
    (∃ msg, (s.encode uuid buf).1 = .error (.other msg)) ↔ Refused s.filter (s.deframer.feed buf) := by
  have hw := @writeLoop_error_iff uuid { s with deframer := s.deframer.feed buf } (hc.feed buf) []
  rw [← hw, WriteState.encode]
  rcases WriteState.writeLoop uuid { s with deframer := s.deframer.feed buf } [] with ⟨r, out, s'⟩
  cases r
  case ok      => exact ⟨nofun, nofun⟩
  case error e => exact ⟨fun ⟨msg, h⟩ => ⟨msg, by cases h; rfl⟩, fun ⟨msg, h⟩ => ⟨msg, by cases h; rfl⟩⟩

theorem written_unpads (uuid : List UInt8) (huuid : uuid.length = 16) (draws : Nat → Draw) (ws : List Response)
    (ops : List (Encoder.Op Unit)) (w : WriteRun WriteState Unit)
    (hw : Machine.run (encoder uuid).step (Encoder.start (.new draws) [] ws) ops = some w) :
    (∀ buf, (∃ msg, (pollWrite uuid w.writer w.sink () buf).1 = .error (.other msg)) ↔
      (flushWbuf w.sink.responses w.writer.wbuf w.sink.written).1 = .ready () ∧ w.writer.enc.mode = .padding ∧
        buf ≠ [] ∧ Refused w.writer.enc.filter (w.writer.enc.deframer.feed buf)) ∧
    ∀ w' k, pollShutdown w.writer w.sink = (.ready (), w', k) →
      ∃ r u, VisionUnpadder.new.unpad uuid k.written = (.ok r, u) ∧
        (r.content = w.accepted ↔ w.writer.enc.deframer.pendingBytes = 0) := by
  have ⟨wire, content, raw, henc, hwritten, hacc, hraw⟩ := Encoder.inv_run (Encoder.inv_start _ [] ws) hw
  constructor
  case left =>
    intro buf
    rw [← encode_error_iff (checked_encodes henc)]
    constructor
    case mp =>
      intro ⟨msg, h⟩
      have ⟨hflush, hdirect, hne, herr⟩ := Encoder.pollWrite_other_iff.mp h
      refine ⟨hflush, ?_, hne, msg, herr⟩
      cases hm : w.writer.enc.mode
      case padding     => rfl
      case passthrough => simp [encoder, hm] at hdirect
    case mpr =>
      intro ⟨hflush, hm, hne, msg, herr⟩
      exact ⟨msg, Encoder.pollWrite_other_iff.mpr ⟨hflush, by simp [encoder, hm], hne, herr⟩⟩
  case right =>
    intro w' k hs
    have ⟨_, hk⟩ := pollFlush_ready hs
    have hpass : raw ≠ [] → w.writer.enc.mode = .passthrough := fun hne => by simpa [encoder] using hraw hne
    have ⟨r, u, hu, hr⟩ := unpad_reached huuid (reached_encodes henc) hpass
    rw [hk, hwritten, List.nil_append]
    refine ⟨r, u, hu, ?_⟩
    rw [hacc, ← hr, FuzzyTlsDeframer.pendingBytes, List.length_eq_zero_iff]
    exact List.self_eq_append_right

def noPadding : Nat → Draw :=
  fun _ => { number := 0, bytes := fun _ => 0 }

def user : List UInt8 :=
  List.replicate 16 7

-- A client hello after two other bytes, an application record, and a byte more.
def twoAndHello : List (Encoder.Op Unit) := [
  .write () [1, 2, 0x16, 0x03], .write () [0x01, 0x00, 0x02, 0x01, 0x05, 0x17, 0x03, 0x03, 0x00, 0x01, 9],
  .write () [8]
]

theorem written_unpads_twoAndHello :
    ∃ w, Machine.run (encoder user).step (Encoder.start (.new noPadding) [] (List.replicate 9 (.ready 999)))
        twoAndHello = some w ∧
      ∀ w' k, pollShutdown w.writer w.sink = (.ready (), w', k) →
        ∃ r u, VisionUnpadder.new.unpad user k.written = (.ok r, u) ∧
          (r.content = w.accepted ↔ w.writer.enc.deframer.pendingBytes = 0) := by
  have h : (Machine.run (encoder user).step (Encoder.start (.new noPadding) [] (List.replicate 9 (.ready 999)))
    twoAndHello).isSome := by decide +kernel
  obtain ⟨w, hw⟩ := Option.isSome_iff_exists.mp h
  exact ⟨w, hw, (written_unpads user rfl noPadding _ twoAndHello w hw).2⟩

-- The first byte of a handshake is kept and never written; and a handshake that is followed by something
-- else is refused.
theorem suffix_lost_and_refused :
    (∃ w, Machine.run (encoder user).step (Encoder.start (.new noPadding) [] (List.replicate 9 (.ready 999)))
        [.write () [0x16]] = some w ∧ w.accepted = [0x16] ∧
          (pollShutdown w.writer w.sink).1 = .ready () ∧ (pollShutdown w.writer w.sink).2.2.written = []) ∧
    (pollWrite user { enc := .new noPadding, wbuf := [] } { responses := List.replicate 9 (.ready 999), written := [] }
      () [0x16, 0x03, 0x01, 0x00, 0x01, 0x01, 0xff, 0xff, 0xff, 0xff, 0xff]).1 =
        .error (.other "Invalid TLS protocol version: 0xffff (expected 0x0301 to 0x0303)") := by
  refine ⟨?_, by decide +kernel⟩
  have h : ((Machine.run (encoder user).step (Encoder.start (.new noPadding) [] (List.replicate 9 (.ready 999)))
    [.write () [0x16]]).any fun w => w.accepted = [0x16] ∧ (pollShutdown w.writer w.sink).1 = .ready () ∧
      (pollShutdown w.writer w.sink).2.2.written = []) = true := by decide +kernel
  obtain ⟨w, hw, h⟩ := Option.any_eq_true _ _ |>.mp h
  exact ⟨w, hw, of_decide_eq_true h⟩

end JammVpn.Vision
