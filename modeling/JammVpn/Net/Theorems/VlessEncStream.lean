import JammVpn.Net.VlessEncStream

namespace JammVpn.VlessEnc

open Bytes PollIo JammVpn.Xor
open Shadowsocks (incrNonce incrNonce_toLe)
open Framing (Frames ReadRun)
open Encoder (Encodes WriteRun)

variable {p : Primitives} {unitedKey : List UInt8} {useAes : Bool}

namespace AeadState

variable (s : AeadState)

theorem openRecord_sealRecord (plain aad : List UInt8) :
    s.openRecord p (s.sealRecord p plain aad).1 aad = (.ok plain, (s.sealRecord p plain aad).2) := by
  rw [openRecord, sealRecord, Aead.decrypt_encrypt]

theorem length_sealRecord (plain aad : List UInt8) : (s.sealRecord p plain aad).1.length = plain.length + tag :=
  Aead.length ..

-- The number that the nonce stands for.
theorem exists_nonce : ∃ n < 2 ^ 96, s.nonce = toBe 12 n := by
  refine ⟨ofBe s.nonce, Nat.lt_of_lt_of_eq (ofBe_lt _) (by rw [s.length]; decide), ?_⟩
  exact (toBe_ofBe_of_length s.length).symm

theorem increase_nonce {n : Nat} (h : s.nonce = toBe 12 n) : s.increase.nonce = toBe 12 (n + 1) := by
  have hr : s.nonce.reverse = toLe 12 n := congrArg List.reverse h
  show (incrNonce s.nonce.reverse).reverse = _
  rw [hr, incrNonce_toLe, toLe, List.reverse_reverse]

theorem atMax_iff {n : Nat} (hn : n < 2 ^ 96) (h : s.nonce = toBe 12 n) : s.atMax = true ↔ n = 2 ^ 96 - 1 := by
  have hmax : maxNonce = toBe 12 (2 ^ 96 - 1) := by decide
  rw [atMax, decide_eq_true_iff, h, hmax, toBe_inj]
  case hm => exact Nat.lt_of_lt_of_eq hn (by decide)
  case hn => decide

end AeadState

-- The record of a call.
def recordOf (p : Primitives) (s : WriteState) (buf : List UInt8) : List UInt8 × List UInt8 :=
  let hdr := [23, 3, 3] ++ toBe 2 (min buf.length maxData + tag)
  (hdr, (s.aead.sealRecord p (buf.take (min buf.length maxData)) hdr).1)

-- The cipher for the record after it.
def nextAead (p : Primitives) (unitedKey : List UInt8) (useAes : Bool) (s : WriteState) (buf : List UInt8) :
    AeadState :=
  rekey p unitedKey useAes s.aead s.aead.increase ((recordOf p s buf).1 ++ (recordOf p s buf).2)

section Record

variable (p) (s : WriteState) {buf : List UInt8}

theorem length_record_mem (hb : buf ≠ []) :
    17 ≤ min buf.length maxData + tag ∧ min buf.length maxData + tag ≤ 16640 := by
  have hpos := List.length_pos_iff.mpr hb
  rw [tag, maxData]
  omega

-- The reader behind the header of a record.
def behindHeader (hb : buf ≠ []) : ReadState where
  stage := .data (recordOf p s buf).1 (min buf.length maxData + tag) (length_record_mem hb).1
  peer := s.aead

-- A record is read in two frames, and the reader changes its key as the writer does.
theorem next_header (hb : buf ≠ []) :
    (recordOf p s buf).1.length = (framing p unitedKey useAes).need { stage := .header, peer := s.aead } ∧
      (framing p unitedKey useAes).next { stage := .header, peer := s.aead } (recordOf p s buf).1 =
        (.ok none, behindHeader p s hb) := by
  obtain ⟨hmin, hmax⟩ := length_record_mem hb
  have hlen : (recordOf p s buf).1 = [23, 3, 3] ++ toBe 2 (min buf.length maxData + tag) := rfl
  have hof : ofBe (([23, 3, 3] ++ toBe 2 (min buf.length maxData + tag)).drop 3) = min buf.length maxData + tag :=
    ofBe_toBe_of_lt (Nat.lt_of_le_of_lt hmax (by decide))
  constructor
  case left =>
    rw [hlen, List.length_append, length_toBe]
    rfl
  case right =>
    simp only [hlen, framing, ReadState.next, hof]
    rw [dif_pos ⟨rfl, hmin, hmax⟩]
    rfl

theorem next_data (hb : buf ≠ []) :
    (recordOf p s buf).2.length = (framing p unitedKey useAes).need (behindHeader p s hb) ∧
      (framing p unitedKey useAes).next (behindHeader p s hb) (recordOf p s buf).2 =
        (.ok (some (buf.take (min buf.length maxData))),
          { stage := .header, peer := nextAead p unitedKey useAes s buf }) := by
  constructor
  case left =>
    refine (s.aead.length_sealRecord _ _).trans ?_
    rw [List.length_take, Nat.min_eq_left (Nat.min_le_left _ _)]
    rfl
  case right =>
    have ho := s.aead.openRecord_sealRecord (p := p) (buf.take (min buf.length maxData)) (recordOf p s buf).1
    simp only [framing, ReadState.next, behindHeader]
    rw [recordOf] at ho ⊢
    simp only [ho]
    rfl

theorem frames_record (hb : buf ≠ []) :
    Frames (framing p unitedKey useAes) { stage := .header, peer := s.aead }
      ((recordOf p s buf).1 ++ (recordOf p s buf).2) (buf.take (min buf.length maxData))
        { stage := .header, peer := nextAead p unitedKey useAes s buf } :=
  (Frames.single (next_header p s hb).1 (next_header p s hb).2).append
    (.single (next_data p s hb).1 (next_data p s hb).2)

end Record

-- The reader of headers is where their writer is.
def Mirrors : Option XorState → Option XorState → Prop
  | none,   none   => True
  | some x, some y => x.incoming = y.outgoing
  | _,      _      => False

theorem encode_ok {s s' : WriteState} {buf out : List UInt8} {n : Nat}
    (h : encode p unitedKey useAes s buf = (.ok n, out, s')) :
    n = min buf.length maxData ∧ s'.aead = nextAead p unitedKey useAes s buf ∧
      ∀ x, Mirrors x s.xor →
        (headers.apply x out).1 = (recordOf p s buf).1 ++ (recordOf p s buf).2 ∧
          Mirrors (headers.apply x out).2 s'.xor := by
  obtain ⟨aead, xor⟩ := s
  cases xor
  case none =>
    cases h
    refine ⟨rfl, rfl, fun x hx => ?_⟩
    cases x
    case none   => exact ⟨rfl, trivial⟩
    case some x => exact hx.elim
  case some y =>
    cases h
    refine ⟨rfl, rfl, fun x hx => ?_⟩
    cases x
    case none => exact hx.elim
    case some x =>
      have ⟨hback, hst⟩ := run_other .write y.outgoing
        ((recordOf p { aead, xor := some y } buf).1 ++ (recordOf p { aead, xor := some y } buf).2)
      simp only [Way.other] at hback hst
      simp only [headers, transformRead_eq, transform_eq_run, Mirrors]
      rw [show x.incoming = y.outgoing from hx]
      exact ⟨hback, hst.symm⟩

-- What the reader's padding leaves: the cipher of the writer, and the place in the key stream of its headers.
structure Meets (p : Primitives) (pad : List UInt8) (peer : AeadState) (x : Option XorState) (s : WriteState) :
    Prop where
  cipher : (pad = [] ∧ peer = s.aead) ∨ ∃ plain, peer.sealRecord p plain [] = (pad, s.aead)
  xor    : match x, s.xor with
    | none,   none   => True
    | some x, some y => x.incoming = { y.outgoing with skip := pad.length + y.outgoing.skip }
    | _,      _      => False

theorem Meets.frames {pad : List UInt8} {peer : AeadState} {x : Option XorState} {s : WriteState}
    (h : Meets p pad peer x s) :
    Frames (framing p unitedKey useAes) (.new pad.length peer) (headers.apply x pad).1 []
      { stage := .header, peer := s.aead } ∧ Mirrors (headers.apply x pad).2 s.xor := by
  have ⟨hcipher, hxor⟩ := h
  have happly : (headers.apply x pad).1 = pad ∧ Mirrors (headers.apply x pad).2 s.xor := by
    obtain ⟨aead, xor⟩ := s
    cases x
    case none =>
      cases xor
      case none => exact ⟨rfl, trivial⟩
      case some => exact hxor.elim
    case some x =>
      cases xor
      case none => exact hxor.elim
      case some y =>
        have hx : x.incoming = { y.outgoing with skip := pad.length + y.outgoing.skip } := hxor
        have hbody := @run_body .read { y.outgoing with skip := pad.length + y.outgoing.skip } pad
          (Nat.le_add_right _ _)
        simp only [Nat.add_sub_cancel_left] at hbody
        simp only [headers, transformRead_eq, Mirrors, hx, hbody, and_self]
  refine ⟨?_, happly.2⟩
  rw [happly.1]
  obtain ⟨rfl, rfl⟩ | ⟨plain, hseal⟩ := hcipher
  case inl => exact .nil _
  case inr =>
    have hlen : pad.length = plain.length + tag := congrArg (·.1.length) hseal ▸ peer.length_sealRecord plain []
    have hpos : 0 < pad.length := hlen ▸ Nat.succ_pos _
    have ho := peer.openRecord_sealRecord (p := p) plain []
    rw [hseal] at ho
    rw [ReadState.new, dif_pos hpos]
    refine .single (p := none) rfl ?_
    simp only [framing, ReadState.next, ho]

variable {s₀ : WriteState} {pad : List UInt8} {peer : AeadState} {x₀ : Option XorState}
  {h : List (WriteState × Unit × List UInt8)} {wire content : List UInt8} {s : WriteState}

-- The reader of the records so far has the cipher of the writer.
theorem frames_of_encodes (hm : Meets p pad peer x₀ s₀)
    (he : Encodes (encoder p unitedKey useAes) s₀ h wire content s) :
    Frames (framing p unitedKey useAes) (.new pad.length peer) (headers.apply x₀ (pad ++ wire)).1 content
      { stage := .header, peer := s.aead } ∧ Mirrors (headers.apply x₀ (pad ++ wire)).2 s.xor := by
  induction he
  case nil => exact (List.append_nil pad).symm ▸ hm.frames
  case snoc h wire content s i buf n out s' _ _ hb hs hi =>
    have ⟨hf, hx⟩ := hi
    obtain ⟨rfl, haead, hout⟩ := encode_ok hs
    have ⟨hrecord, hx'⟩ := hout _ hx
    rw [← List.append_assoc, headers.apply_append, hrecord, haead]
    exact ⟨hf.append (frames_record p s hb), hx'⟩

-- The number of the key of each record, and the nonce.
def nonces (key : Nat) : List (WriteState × Unit × List UInt8) → List (Nat × List UInt8)
  | []           => []
  | (s, _) :: ss => (key, s.aead.increase.nonce) :: nonces (if s.aead.atMax then key + 1 else key) ss

-- The records at the highest nonce.
def switches (h : List (WriteState × Unit × List UInt8)) : Nat :=
  h.countP fun (s, _) => s.aead.atMax

theorem nonces_append (key : Nat) (s : WriteState) (i : Unit) (buf : List UInt8) :
    nonces key (h ++ [(s, i, buf)]) = nonces key h ++ [(key + switches h, s.aead.increase.nonce)] := by
  induction h generalizing key
  case nil => rfl
  case cons call h hi =>
    obtain ⟨s', _⟩ := call
    simp only [List.cons_append, nonces, hi, switches, List.countP_cons]
    cases s'.aead.atMax
    case false => rfl
    case true  => simp [Nat.add_assoc, Nat.add_comm 1]

-- The nonces of each key are the numbers up to a highest one, of this key up to the last.
def Used (key n : Nat) (used : List (Nat × List UInt8)) : Prop :=
  used.Nodup ∧ ∀ u ∈ used, ∃ v, 0 < v ∧ u.2 = toBe 12 v ∧ (u.1 < key ∨ u.1 = key ∧ v ≤ n)

theorem Used.next {key n : Nat} {used : List (Nat × List UInt8)} (h : Used key n used) (hn : n < 2 ^ 96) :
    Used key (n + 1) (used ++ [(key, toBe 12 (n + 1))]) := by
  have ⟨hnd, hu⟩ := h
  refine ⟨List.nodup_append.mpr ⟨hnd, List.nodup_singleton _, ?_⟩, fun u hmem => ?_⟩
  case refine_1 =>
    rintro u hmem _ hlast rfl
    have ⟨v, hpos, hv, hle⟩ := hu u hmem
    cases List.mem_singleton.mp hlast
    have hle : v ≤ n := (hle.resolve_left (Nat.lt_irrefl _)).2
    have h96 : 2 ^ 96 = 256 ^ 12 := by decide
    -- The number after the highest one is written as zero, which is not used.
    by_cases hmax : n + 1 < 2 ^ 96
    case pos =>
      have := (toBe_inj (h96 ▸ hmax) (h96 ▸ Nat.lt_of_le_of_lt hle hn)).mp hv
      omega
    case neg =>
      have hn1 : n + 1 = 2 ^ 96 := by omega
      have hzero : toBe 12 (2 ^ 96) = toBe 12 0 := by decide
      rw [hn1, hzero] at hv
      have := (toBe_inj (by decide) (h96 ▸ Nat.lt_of_le_of_lt hle hn)).mp hv
      omega
  case refine_2 =>
    obtain hmem | hmem := List.mem_append.mp hmem
    case inl =>
      have ⟨v, hpos, hv, hle⟩ := hu u hmem
      exact ⟨v, hpos, hv, hle.imp_right fun ⟨he, hv⟩ => ⟨he, Nat.le_succ_of_le hv⟩⟩
    case inr =>
      cases List.mem_singleton.mp hmem
      exact ⟨n + 1, Nat.succ_pos n, rfl, .inr ⟨rfl, Nat.le_refl _⟩⟩

theorem used_of_encodes (he : Encodes (encoder p unitedKey useAes) s₀ h wire content s) :
    ∃ n < 2 ^ 96, s.aead.nonce = toBe 12 n ∧ Used (switches h) n (nonces 0 h) := by
  induction he
  case nil =>
    have ⟨n, hn, hnonce⟩ := s₀.aead.exists_nonce
    exact ⟨n, hn, hnonce, List.nodup_nil, nofun⟩
  case snoc h wire content s i buf n out s' _ _ hb hs hi =>
    have ⟨n, hn, hnonce, hu⟩ := hi
    have ⟨_, haead, _⟩ := encode_ok hs
    have hnext := hu.next hn
    have hinc := s.aead.increase_nonce hnonce
    rw [nonces_append, Nat.zero_add, hinc, haead, nextAead, rekey]
    have hsw : switches (h ++ [(s, i, buf)]) = switches h + if s.aead.atMax then 1 else 0 := by
      rw [switches, List.countP_append, List.countP_singleton]
      rfl
    cases hmax : s.aead.atMax
    case false =>
      have hlt : n + 1 < 2 ^ 96 := by
        have := mt (s.aead.atMax_iff hn hnonce).mpr (by rw [hmax]; exact Bool.false_ne_true)
        omega
      rw [hsw, hmax]
      exact ⟨n + 1, hlt, hinc, hnext⟩
    case true =>
      rw [hsw, hmax]
      have hzero : List.replicate 12 (0 : UInt8) = toBe 12 0 := by decide
      refine ⟨0, by decide, hzero, hnext.1, fun u hmem => ?_⟩
      have ⟨v, hpos, hv, hle⟩ := hnext.2 u hmem
      exact ⟨v, hpos, hv, .inl (Nat.lt_succ_of_le (hle.elim Nat.le_of_lt fun ⟨he, _⟩ => Nat.le_of_eq he))⟩

-- The calls of a writer, which made a record each, with its state before them.
abbrev History :=
  List (WriteState × Unit × List UInt8)

-- The ciphers of the records: of each but the last one comes the next nonce, and of one at the highest nonce another
-- key, which is made from the record.
inductive Ciphers (p : Primitives) (unitedKey : List UInt8) (useAes : Bool) :
    AeadState → History → AeadState → Prop
  | nil (a : AeadState) : Ciphers p unitedKey useAes a [] a
  | same {s : WriteState} {buf h b} : s.aead.atMax = false → Ciphers p unitedKey useAes s.aead.increase h b →
      Ciphers p unitedKey useAes s.aead ((s, (), buf) :: h) b
  | switch {s : WriteState} {buf h b} : s.aead.atMax = true →
      Ciphers p unitedKey useAes (.new p ((recordOf p s buf).1 ++ (recordOf p s buf).2) unitedKey useAes) h b →
      Ciphers p unitedKey useAes s.aead ((s, (), buf) :: h) b

-- The first key, and those that came after it.
def keys (p : Primitives) (unitedKey key : List UInt8) (h : History) : List (List UInt8) :=
  key :: (h.filter fun c => c.1.aead.atMax).map fun (s, _, buf) =>
    p.blake3DeriveKey ((recordOf p s buf).1 ++ (recordOf p s buf).2) unitedKey

-- The key and the nonce of each record.
def uses (h : History) : List (List UInt8 × List UInt8) :=
  h.map fun c => (c.1.aead.key, c.1.aead.increase.nonce)

-- The content of the records.
def contents (h : History) : List UInt8 :=
  h.flatMap fun (_, _, buf) => buf.take (min buf.length maxData)

section Ciphers

variable {a b : AeadState} {g : History}

theorem Ciphers.single (s : WriteState) (buf : List UInt8) :
    Ciphers p unitedKey useAes s.aead [(s, (), buf)] (nextAead p unitedKey useAes s buf) := by
  rw [nextAead, rekey]
  split
  case isTrue hmax  => exact .switch hmax (.nil _)
  case isFalse hmax => exact .same (Bool.eq_false_iff.mpr hmax) (.nil _)

theorem Ciphers.append {c : AeadState} (hg : Ciphers p unitedKey useAes a g b) (hh : Ciphers p unitedKey useAes b h c) :
    Ciphers p unitedKey useAes a (g ++ h) c := by
  induction hg
  case nil                => exact hh
  case same hmax _ hi     => exact .same hmax (hi hh)
  case switch hmax _ hi   => exact .switch hmax (hi hh)

theorem ciphers_of_encodes (he : Encodes (encoder p unitedKey useAes) s₀ h wire content s) :
    Ciphers p unitedKey useAes s₀.aead h s.aead ∧ content = contents h := by
  induction he
  case nil => exact ⟨.nil _, rfl⟩
  case snoc h wire content s i buf n out s' _ _ hb hs hi =>
    obtain ⟨hc, rfl⟩ := hi
    obtain ⟨rfl, haead, _⟩ := encode_ok hs
    refine ⟨haead ▸ hc.append (.single s buf), ?_⟩
    simp only [contents, List.flatMap_append, List.flatMap_singleton]

-- The key of a record is the one with its number.
theorem uses_of_ciphers (hc : Ciphers p unitedKey useAes a g b) (before : List (List UInt8)) :
    uses g = (nonces before.length g).map fun e => ((before ++ keys p unitedKey a.key g)[e.1]?.getD [], e.2) := by
  induction hc generalizing before
  case nil => rfl
  case same s buf g b hmax _ hi =>
    have hkeys : keys p unitedKey s.aead.key ((s, (), buf) :: g) = keys p unitedKey s.aead.increase.key g := by
      simp only [keys, List.filter_cons, hmax, Bool.false_eq_true, if_false]
      rfl
    rw [nonces, hmax, List.map_cons, hkeys]
    refine congrArg₂ List.cons ?_ (hi before)
    simp only [keys, List.getElem?_append_right (Nat.le_refl _), Nat.sub_self, List.getElem?_cons_zero,
      Option.getD_some, AeadState.increase]
  case switch s buf g b hmax _ hi =>
    have hkeys : before ++ keys p unitedKey s.aead.key ((s, (), buf) :: g) = (before ++ [s.aead.key]) ++
        keys p unitedKey (p.blake3DeriveKey ((recordOf p s buf).1 ++ (recordOf p s buf).2) unitedKey) g := by
      simp only [keys, List.filter_cons, hmax, if_true, List.append_assoc]
      rfl
    have htail := hi (before ++ [s.aead.key])
    rw [List.length_append, List.length_singleton] at htail
    rw [nonces, hmax, List.map_cons, hkeys]
    refine congrArg₂ List.cons ?_ htail
    rw [List.append_assoc, List.getElem?_append_right (Nat.le_refl _), Nat.sub_self]
    rfl

end Ciphers

-- What the records of a writer are sealed with: a chain of ciphers, with one nonce once for each key. If the keys that
-- are made from the records differ, no key and nonce are used together twice.
structure Sealed (p : Primitives) (unitedKey : List UInt8) (useAes : Bool) (a : AeadState) (h : History)
    (b : AeadState) : Prop where
  ciphers : Ciphers p unitedKey useAes a h b
  keyed   : uses h = (nonces 0 h).map fun e => ((keys p unitedKey a.key h)[e.1]?.getD [], e.2)
  nonces  : (VlessEnc.nonces 0 h).Nodup
  uses    : (keys p unitedKey a.key h).Nodup → (VlessEnc.uses h).Nodup

theorem sealed_of_encodes (he : Encodes (encoder p unitedKey useAes) s₀ h wire content s) :
    Sealed p unitedKey useAes s₀.aead h s.aead := by
  obtain ⟨hc, _⟩ := ciphers_of_encodes he
  obtain ⟨_, _, _, hnodup, hused⟩ := used_of_encodes he
  have hkeyed := uses_of_ciphers hc []
  refine ⟨hc, hkeyed, hnodup, fun hkeys => ?_⟩
  rw [hkeyed]
  refine hnodup.map_on fun e he e' he' heq => ?_
  have hlen : (keys p unitedKey s₀.aead.key h).length = switches h + 1 := by
    rw [keys, List.length_cons, List.length_map, switches, List.countP_eq_length_filter]
  have hlt {e : Nat × List UInt8} (he : e ∈ nonces 0 h) : e.1 < (keys p unitedKey s₀.aead.key h).length := by
    obtain ⟨_, _, _, hk | ⟨hk, _⟩⟩ := hused e he <;> omega
  obtain ⟨hkey, hnonce⟩ := Prod.mk.inj heq
  simp only [List.nil_append, List.getElem?_eq_getElem (hlt he), List.getElem?_eq_getElem (hlt he'),
    Option.getD_some] at hkey
  exact Prod.ext ((hkeys.getElem_inj_iff).mp hkey) hnonce

-- A reader has not got past the padding, or it has read some of the records and has the cipher that the writer had
-- behind them.
def Behind (p : Primitives) (unitedKey : List UInt8) (useAes : Bool) (s₀ : WriteState) (pad : List UInt8)
    (peer : AeadState) (h : History) (st : ReadState) (content : List UInt8) : Prop :=
  st = .new pad.length peer ∧ content = [] ∨
    ∃ g g', h = g ++ g' ∧ Ciphers p unitedKey useAes s₀.aead g st.peer ∧ content = contents g

theorem behind_of_encodes (hm : Meets p pad peer x₀ s₀)
    (he : Encodes (encoder p unitedKey useAes) s₀ h wire content s) {bs content' : List UInt8} {st : ReadState}
    (hb : bs <+: (headers.apply x₀ (pad ++ wire)).1)
    (hf : Frames (framing p unitedKey useAes) (.new pad.length peer) bs content' st) :
    Behind p unitedKey useAes s₀ pad peer h st content' := by
  induction he generalizing bs content' st
  case nil =>
    rw [List.append_nil] at hb
    have hlen : (headers.apply x₀ pad).1.length = pad.length := headers.length x₀ pad
    by_cases hshort : bs.length < pad.length
    case pos =>
      have hneed : bs.length < (framing p unitedKey useAes).need (.new pad.length peer) := by
        rw [ReadState.new, dif_pos (Nat.zero_lt_of_lt hshort)]
        exact hshort
      rw [hf.nil_of_lt hneed] at hf
      exact .inl hf.of_nil.symm
    case neg =>
      rw [hb.eq_of_length_le (hlen ▸ Nat.le_of_not_lt hshort)] at hf
      obtain ⟨rfl, rfl⟩ := hm.frames.1.unique hf
      exact .inr ⟨[], [], rfl, .nil _, rfl⟩
  case snoc h wire content s i buf n out s' henc _ hne hs hi =>
    obtain ⟨hfull, hx⟩ := frames_of_encodes hm henc
    obtain ⟨rfl, haead, hout⟩ := encode_ok hs
    obtain ⟨hrecord, _⟩ := hout _ hx
    obtain ⟨hc, hcontent⟩ := ciphers_of_encodes henc
    rw [← List.append_assoc, headers.apply_append, hrecord] at hb
    -- All records so far have been read, and nothing of the last one but its header.
    have hbefore {st : ReadState} (hp : st.peer = s.aead) :
        Behind p unitedKey useAes s₀ pad peer (h ++ [(s, i, buf)]) st (content ++ []) := by
      refine .inr ⟨h, _, rfl, hp ▸ hc, ?_⟩
      rw [List.append_nil, hcontent]
    obtain hle | hlt := le_or_gt bs.length (headers.apply x₀ (pad ++ wire)).1.length
    case inl =>
      have hbefore := List.prefix_of_prefix_length_le hb (List.prefix_append _ _) hle
      obtain hpad | ⟨g, g', rfl, hg, hcg⟩ := hi hbefore hf
      case inl => exact .inl hpad
      case inr => exact .inr ⟨g, _, List.append_assoc g g' _, hg, hcg⟩
    case inr =>
      have hpre := List.prefix_of_prefix_length_le (List.prefix_append _ _) hb (Nat.le_of_lt hlt)
      obtain ⟨t, rfl⟩ := hpre
      rw [List.prefix_append_right_inj] at hb
      obtain ⟨c, rfl, htail⟩ := hfull.of_append hf
      have ⟨hneed, hnext⟩ := @next_header p unitedKey useAes s buf hne
      obtain ⟨_, rfl, rfl⟩ | ⟨t', c', ht', rfl, hdata⟩ := htail.of_prefix hneed hnext hb
      case inl => exact hbefore rfl
      case inr =>
        rw [← List.append_nil (recordOf p s buf).2] at ht'
        have ⟨hneed', hnext'⟩ := @next_data p unitedKey useAes s buf hne
        obtain ⟨_, rfl, rfl⟩ | ⟨t', c', hnil, rfl, hend⟩ := hdata.of_prefix hneed' hnext' ht'
        case inl => exact hbefore rfl
        case inr =>
          rw [List.prefix_nil.mp hnil] at hend
          obtain ⟨rfl, rfl⟩ := hend.of_nil
          refine .inr ⟨_, [], (List.append_nil _).symm, hc.append (.single s buf), ?_⟩
          simp only [contents, List.flatMap_append, List.flatMap_singleton, hcontent,
            Option.getD_some, List.append_nil]

theorem records_transparent (p : Primitives) (unitedKey : List UInt8) (useAes : Bool) (s₀ : WriteState)
    (pad : List UInt8) (peer : AeadState) (x₀ : Option XorState) (hm : Meets p pad peer x₀ s₀)
    (ws : List Response) (ops : List (Encoder.Op Unit)) (w : WriteRun WriteState Unit)
    (hw : Machine.run (encoder p unitedKey useAes).step (Encoder.start s₀ pad ws) ops = some w)
    (cut : List UInt8) (hcut : cut <+: w.sink.written) (rs : List Response) (caps : List Nat)
    (r : ReadRun ReadState (Option XorState))
    (hr : Machine.run ((framing p unitedKey useAes).step headers)
      (Framing.start (.new pad.length peer) x₀ rs cut) caps = some r) :
    Transparent (framing p unitedKey useAes) headers (.new pad.length peer) x₀ w cut r ∧
      Sealed p unitedKey useAes s₀.aead w.history w.writer.enc.aead ∧
      Behind p unitedKey useAes s₀ pad peer w.history r.reader.stage (r.delivered ++ r.reader.plain) ∧
      (w.writer.wbuf = [] → cut = w.sink.written → r.source.rest = [] → r.reader.rtmp = [] →
        r.reader.stage = { stage := .header, peer := w.writer.enc.aead }) := by
  have ⟨wire, content, raw, henc, hwritten, _, hraw⟩ := Encoder.inv_run (Encoder.inv_start s₀ pad ws) hw
  have hnil : raw = [] := Classical.byContradiction fun hne => Bool.false_ne_true (hraw hne)
  rw [hnil, List.append_nil] at hwritten
  have hinv := Framing.inv_run (Framing.inv_start _ _ rs cut) hr
  refine ⟨transparent (fun _ => rfl) (fun h wire content s he => ⟨_, (frames_of_encodes hm he).1⟩) hw hcut hr,
    sealed_of_encodes henc, ?_, fun hempty hall hrest hrtmp => ?_⟩
  case refine_1 =>
    obtain ⟨done, hdone, hall, _⟩ := hinv
    have hread := headers.apply_isPrefix x₀ (hcut.trans ⟨_, hwritten⟩)
    rw [← hall] at hread
    exact behind_of_encodes hm henc ((List.prefix_append _ _).trans hread) hdone
  case refine_2 =>
    have hend := hinv.at_end hrest hrtmp
    rw [hempty, List.append_nil] at hwritten
    rw [hall, hwritten] at hend
    exact ((frames_of_encodes hm henc).1.unique hend).2

def keyStream : Nat → UInt8 :=
  fun n => .ofNat (n + 1)

-- The next record is at the highest nonce but one, and the one after it at the highest.
def highest : AeadState where
  key := []
  useAes := true
  nonce := List.replicate 11 0xff ++ [0xfd]
  length := rfl

def writer : WriteState where
  aead := highest
  xor := some { outgoing := .start keyStream 0, incoming := .start keyStream 0 }

def reader : Option XorState :=
  some { outgoing := .start keyStream 0, incoming := .start keyStream 0 }

-- Four records, the third of which is followed by a new key.
def fourRecords : List (Encoder.Op Unit) :=
  [.write () [1], .write () [2, 3], .write () [4], .flush, .write () [5], .flush]

theorem meets_highest : Meets .trivial [] highest reader writer where
  cipher := .inl ⟨rfl, rfl⟩
  xor := rfl

theorem records_transparent_fourRecords :
    ∃ w r, Machine.run (encoder .trivial [] true).step
        (Encoder.start writer [] [.ready 3, .pending, .ready 99, .pending, .ready 99, .ready 99, .ready 99,
          .ready 99]) fourRecords = some w ∧
      Machine.run ((framing .trivial [] true).step headers)
        (Framing.start (.new 0 highest) reader (.ready 2 :: .pending :: List.replicate 9 (.ready 99))
          w.sink.written) [1, 1, 1] = some r ∧
      Transparent (framing .trivial [] true) headers (.new 0 highest) reader w w.sink.written r ∧
      Sealed .trivial [] true highest w.history w.writer.enc.aead ∧ switches w.history = 1 := by
  have h : ((Machine.run (encoder .trivial [] true).step
    (Encoder.start writer [] [.ready 3, .pending, .ready 99, .pending, .ready 99, .ready 99, .ready 99,
      .ready 99]) fourRecords).bind fun w => Machine.run ((framing .trivial [] true).step headers)
        (Framing.start (.new 0 highest) reader (.ready 2 :: .pending :: List.replicate 9 (.ready 99))
          w.sink.written) [1, 1, 1]).isSome := by decide +kernel
  obtain ⟨r, hr⟩ := Option.isSome_iff_exists.mp h
  obtain ⟨w, hw, hr⟩ := Option.bind_eq_some_iff.mp hr
  have ⟨ht, hs, _⟩ := records_transparent .trivial [] true writer [] highest reader meets_highest _ fourRecords w hw
    _ (List.prefix_refl _) _ _ r hr
  have hswitch : (Machine.run (encoder .trivial [] true).step
      (Encoder.start writer [] [.ready 3, .pending, .ready 99, .pending, .ready 99, .ready 99, .ready 99,
        .ready 99]) fourRecords).map (fun w => switches w.history) = some 1 := by decide +kernel
  rw [hw] at hswitch
  exact ⟨w, r, hw, hr, ht, hs, Option.some.inj hswitch⟩

end JammVpn.VlessEnc
