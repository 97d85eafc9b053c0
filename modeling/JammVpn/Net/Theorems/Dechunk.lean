import JammVpn.Lib.Ipv6
import JammVpn.Net.Subscription

namespace JammVpn.Fetch

open Text Http

-- A number in hexadecimal digits of either case, behind any zeros.
def Reads (digits : List Char) (n : Nat) : Prop :=
  digits ≠ [] ∧ ∃ ds, List.Forall₂ (fun c d => toDigit 16 c = some d) digits ds ∧ ofDigits 16 ds = n

-- What may stand behind a size. An extension begins with a semicolon.
def Extension (ext : List Char) : Prop :=
  ∃ blanks rest, ext = blanks ++ rest ∧ (∀ c ∈ blanks, c = ' ' ∨ c = '\t') ∧
    (rest = [] ∨ ∃ text, rest = ';' :: text ∧ ∀ c ∈ text, c.toNat < 128 ∧ c ≠ '\n')

structure SizeLine (n : Nat) where
  digits    : List Char
  ext       : List Char
  reads     : Reads digits n
  extension : Extension ext

-- The size of a chunk is a `usize`.
structure Chunk where
  data : List UInt8
  line : SizeLine data.length
  ne   : data ≠ []
  fits : data.length < 2 ^ 64

def SizeLine.bytes {n : Nat} (l : SizeLine n) : List UInt8 :=
  Utf8.encode (l.digits ++ l.ext)

def Chunk.bytes (c : Chunk) : List UInt8 :=
  c.line.bytes ++ crlf ++ (c.data ++ crlf)

-- Chunks, the line of the last one, and a trailer.
def encodeChunked (chunks : List Chunk) (last : SizeLine 0) (trailer : List UInt8) : List UInt8 :=
  chunks.flatMap Chunk.bytes ++ (last.bytes ++ crlf ++ trailer)

theorem prefix_append_cases {α : Type} {p a b : List α} (h : p <+: a ++ b) :
    p <+: a ∨ ∃ q, p = a ++ q ∧ q <+: b := by
  obtain ⟨t, ht⟩ := h
  obtain ⟨u, rfl, _⟩ | ⟨u, rfl, hu⟩ := List.append_eq_append_iff.mp ht
  case inl => exact .inl ⟨u, rfl⟩
  case inr => exact .inr ⟨u, rfl, t, hu.symm⟩

section CutAt

variable {bs : List UInt8}

theorem stripPrefix_crlf_eq_none {b : UInt8} (h : bs.head? ≠ some 0x0a) : stripPrefix crlf (b :: bs) = none := by
  cases bs <;> simp_all [crlf, stripPrefix, eq_comm]

-- The first end of a line is behind bytes among which there is no line feed.
theorem cutAt_crlf (h : 0x0a ∉ bs) (rest : List UInt8) : cutAt crlf (bs ++ crlf ++ rest) = some (bs, rest) := by
  induction bs
  case nil => rfl
  case cons b bs hi =>
    have hbs := (not_or.mp (List.mem_cons.not.mp h)).2
    have hh : (bs ++ crlf ++ rest).head? ≠ some 0x0a := by
      cases bs
      case nil => simp [crlf]
      case cons c bs => simpa [eq_comm] using (not_or.mp (List.mem_cons.not.mp hbs)).1
    rw [List.cons_append, List.cons_append, cutAt, stripPrefix_crlf_eq_none hh, hi hbs]
    rfl

theorem cutAt_eq_none (h : 0x0a ∉ bs) : cutAt crlf bs = none := by
  induction bs
  case nil => rfl
  case cons b bs hi =>
    have hbs := (not_or.mp (List.mem_cons.not.mp h)).2
    have hh : bs.head? ≠ some 0x0a := fun hh => hbs (List.mem_of_head? hh)
    rw [cutAt, stripPrefix_crlf_eq_none hh, hi hbs]
    rfl

end CutAt

section SizeLine

variable {n : Nat} {digits : List Char}

theorem Reads.isSome_toDigit (h : Reads digits n) {c : Char} (hc : c ∈ digits) : (toDigit 16 c).isSome := by
  obtain ⟨_, ds, hd, _⟩ := h
  obtain ⟨d, hd⟩ := Ip.toDigit_of_mem hd hc
  rw [hd]
  rfl

-- No digit is a blank, a sign, a semicolon or the end of a line.
theorem Reads.not_mem (h : Reads digits n) {c : Char} (hc : toDigit 16 c = none) : c ∉ digits := by
  intro hm
  have := h.isSome_toDigit hm
  rw [hc] at this
  cases this

theorem fromStrRadix_of_reads (h : Reads digits n) {bound : Nat} (hb : n < bound) :
    fromStrRadix 16 bound digits = some n := by
  have hplus : '+' ∉ digits := h.not_mem (by decide)
  obtain ⟨hne, ds, hd, hn⟩ := h
  have hs : spanDigits 16 digits = (ds, []) := by
    have := @spanDigits_append 16 digits [] ds hd (by simp)
    simpa using this
  cases digits
  case nil => exact absurd rfl hne
  case cons c cs =>
    have hc : c ≠ '+' := fun hc => hplus (by simp [hc])
    simp [fromStrRadix, hc, hs, hn, hb]

variable (l : SizeLine n)

theorem SizeLine.lf_not_mem : 0x0a ∉ l.bytes := by
  refine Utf8.not_mem_encode (by decide) (a := '\n') ?_
  rw [List.mem_append]
  rintro (h | h)
  case inl => exact l.reads.not_mem (by decide) h
  case inr =>
    obtain ⟨blanks, rest, he, hb, hr⟩ := l.extension
    rw [he, List.mem_append] at h
    rcases h with h | h
    · exact absurd (hb _ h) (by decide)
    · obtain rfl | ⟨text, rfl, ht⟩ := hr
      · cases h
      · rcases List.mem_cons.mp h with h | h
        · exact absurd h (by decide)
        · exact (ht _ h).2 rfl

theorem SizeLine.chunkSize (hn : n < 2 ^ 64) : chunkSize l.bytes = some n := by
  obtain ⟨blanks, rest, he, hb, hr⟩ := l.extension
  have hblank : ∀ c ∈ blanks, isWhitespace c = true := by
    intro c hc
    rcases hb c hc with rfl | rfl <;> decide
  have hfree : ';' ∉ l.digits ++ blanks := by
    rw [List.mem_append]
    rintro (h | h)
    · exact l.reads.not_mem (by decide) h
    · exact absurd (hb _ h) (by decide)
  have hfirst : (split ';' (l.digits ++ l.ext)).headD [] = l.digits ++ blanks := by
    rw [he, ← List.append_assoc]
    obtain rfl | ⟨text, rfl, _⟩ := hr
    · rw [List.append_nil, split_of_not_mem hfree]
      rfl
    · rw [split_append_cons, split_of_not_mem hfree]
      rfl
  have htrim : trim l.digits = l.digits :=
    trim_eq_self (fun c hc => Ip.not_blank_of_toDigit (l.reads.isSome_toDigit (List.mem_of_head? hc)))
      fun c hc => Ip.not_blank_of_toDigit (l.reads.isSome_toDigit (List.mem_of_getLast? hc))
  rw [Fetch.chunkSize, bytes, Utf8.decode_encode]
  simp only [Option.getD_some]
  rw [hfirst, trim_append_blanks hblank, htrim, fromStrRadix_of_reads l.reads hn]

end SizeLine

section Loop

variable {out : List UInt8} {fuel : Nat}

theorem Chunk.bytes_append (c : Chunk) (rest : List UInt8) :
    c.bytes ++ rest = c.line.bytes ++ crlf ++ (c.data ++ (crlf ++ rest)) := by
  simp only [bytes, List.append_assoc]

-- One chunk.
theorem dechunkLoop_chunk (c : Chunk) (rest : List UInt8) :
    dechunkLoop out (fuel + 1) (c.bytes ++ rest) = dechunkLoop (out ++ c.data) fuel rest := by
  have hpos := List.length_pos_iff.mpr c.ne
  have hlen : ¬(c.data ++ (crlf ++ rest)).length < c.data.length := by
    rw [List.length_append]
    omega
  rw [c.bytes_append, dechunkLoop, cutAt_crlf c.line.lf_not_mem]
  simp only [c.line.chunkSize c.fits, if_neg hlen, if_neg hpos.ne', List.drop_left, List.take_left,
    stripPrefix_append, Option.getD_some]

-- The chunks, as long as there is fuel.
theorem dechunkLoop_chunks (chunks : List Chunk) (rest : List UInt8) :
    dechunkLoop out (fuel + chunks.length) (chunks.flatMap Chunk.bytes ++ rest) =
      dechunkLoop (out ++ chunks.flatMap Chunk.data) fuel rest := by
  induction chunks generalizing out
  case nil => rw [List.flatMap_nil, List.flatMap_nil, List.append_nil]; rfl
  case cons c chunks hi =>
    rw [List.flatMap_cons, List.append_assoc, List.length_cons, ← Nat.add_assoc, dechunkLoop_chunk, hi,
      List.flatMap_cons, List.append_assoc]

theorem dechunkLoop_last (last : SizeLine 0) (trailer : List UInt8) :
    dechunkLoop out (fuel + 1) (last.bytes ++ crlf ++ trailer) = .ok out := by
  rw [dechunkLoop, cutAt_crlf last.lf_not_mem]
  simp only [last.chunkSize (by decide), if_pos]

theorem length_le_flatMap_bytes (chunks : List Chunk) :
    chunks.length ≤ (chunks.flatMap Chunk.bytes).length := by
  induction chunks
  case nil => exact Nat.le_refl _
  case cons c chunks hi =>
    have hpos := List.length_pos_iff.mpr c.ne
    rw [List.flatMap_cons, List.length_append, List.length_cons, Chunk.bytes]
    simp only [List.length_append]
    omega

theorem dechunk_encodeChunked (chunks : List Chunk) (last : SizeLine 0) (trailer : List UInt8) :
    dechunk (encodeChunked chunks last trailer) = .ok (chunks.flatMap Chunk.data) := by
  have hlen : ∃ fuel, (encodeChunked chunks last trailer).length = fuel + 1 + chunks.length := by
    have := length_le_flatMap_bytes chunks
    refine ⟨(encodeChunked chunks last trailer).length - 1 - chunks.length, ?_⟩
    rw [encodeChunked, List.length_append, List.length_append, List.length_append, show crlf.length = 2 from rfl]
    omega
  obtain ⟨fuel, hf⟩ := hlen
  rw [dechunk, hf, encodeChunked, dechunkLoop_chunks, dechunkLoop_last]
  rfl

-- Bytes in which no line ends, and a chunk of which some data is missing.
theorem dechunkLoop_unended {bs : List UInt8} (h : 0x0a ∉ bs) : ∃ e, dechunkLoop out fuel bs = .error e := by
  cases fuel
  case zero => exact ⟨_, rfl⟩
  case succ fuel =>
    rw [dechunkLoop, cutAt_eq_none h]
    exact ⟨_, rfl⟩

theorem dechunkLoop_short (c : Chunk) {q : List UInt8} (h : q.length < c.data.length) :
    ∃ e, dechunkLoop out fuel (c.line.bytes ++ crlf ++ q) = .error e := by
  cases fuel
  case zero => exact ⟨_, rfl⟩
  case succ fuel =>
    have hpos := List.length_pos_iff.mpr c.ne
    rw [dechunkLoop, cutAt_crlf c.line.lf_not_mem]
    simp only [c.line.chunkSize c.fits, if_pos h, if_neg hpos.ne']
    exact ⟨_, rfl⟩

theorem lf_not_mem_front {p line : List UInt8} (hl : 0x0a ∉ line) (h : p <+: line ++ [0x0d]) : 0x0a ∉ p := by
  intro hp
  rcases List.mem_append.mp (h.subset hp) with hp | hp
  · exact hl hp
  · exact absurd (List.mem_singleton.mp hp) (by decide)

-- A front of a line and its end is one without the end, or has both.
theorem prefix_line {p line rest : List UInt8} (h : p <+: line ++ crlf ++ rest) :
    p <+: line ++ [0x0d] ∨ ∃ q, p = line ++ crlf ++ q ∧ q <+: rest := by
  have he : line ++ crlf ++ rest = (line ++ [0x0d]) ++ (0x0a :: rest) := by simp [crlf]
  rw [he] at h
  obtain h | ⟨q, rfl, hq⟩ := prefix_append_cases h
  case inl => exact .inl h
  case inr =>
    cases q
    case nil => exact .inl ⟨[], by simp⟩
    case cons b q =>
      obtain ⟨rfl, hr⟩ := List.cons_prefix_cons.mp hq
      exact .inr ⟨q, by simp [crlf], hr⟩

-- The front of a chunk, also all of it.
theorem dechunkLoop_front (c : Chunk) {p : List UInt8} (h : p <+: c.bytes) :
    ∃ e, dechunkLoop out fuel p = .error e := by
  obtain h | ⟨q, rfl, hq⟩ := prefix_line h
  case inl => exact dechunkLoop_unended (lf_not_mem_front c.line.lf_not_mem h)
  by_cases hs : q.length < c.data.length
  case pos => exact dechunkLoop_short c hs
  case neg =>
    cases fuel
    case zero => exact ⟨_, rfl⟩
    case succ fuel =>
      obtain ⟨r, rfl, hr⟩ : ∃ r, q = c.data ++ r ∧ r <+: crlf := by
        obtain h | h := prefix_append_cases hq
        case inr => exact h
        case inl =>
          have he := h.eq_of_length_le (Nat.le_of_not_lt hs)
          exact ⟨[], by rw [he, List.append_nil], List.nil_prefix⟩
      have hpos := List.length_pos_iff.mpr c.ne
      rw [dechunkLoop, cutAt_crlf c.line.lf_not_mem]
      simp only [c.line.chunkSize c.fits, if_neg hs, if_neg hpos.ne', List.drop_left]
      refine dechunkLoop_unended ?_
      -- At most the carriage return is left.
      have hr : r = [] ∨ r = [0x0d] ∨ r = crlf := by
        rcases r with _ | ⟨a, _ | ⟨b, _ | ⟨c, r⟩⟩⟩ <;> simp_all [crlf]
      rcases hr with rfl | rfl | rfl <;> decide

theorem dechunkLoop_truncated {chunks : List Chunk} {last : SizeLine 0} {p : List UInt8}
    (h : p <+: chunks.flatMap Chunk.bytes ++ (last.bytes ++ [0x0d])) : ∃ e, dechunkLoop out fuel p = .error e := by
  induction chunks generalizing out fuel p
  case nil => exact dechunkLoop_unended (lf_not_mem_front last.lf_not_mem h)
  case cons c chunks hi =>
    rw [List.flatMap_cons, List.append_assoc] at h
    obtain h | ⟨q, rfl, hq⟩ := prefix_append_cases h
    case inl => exact dechunkLoop_front c h
    case inr =>
      cases fuel
      case zero => exact ⟨_, rfl⟩
      case succ fuel =>
        rw [dechunkLoop_chunk]
        exact hi hq

end Loop

-- What has been encoded is decoded, and nothing of it that ends before the line of the last chunk does.
theorem dechunk_exact (chunks : List Chunk) (last : SizeLine 0) :
    (∀ trailer, dechunk (encodeChunked chunks last trailer) = .ok (chunks.flatMap Chunk.data)) ∧
    ∀ p, p <+: chunks.flatMap Chunk.bytes ++ (last.bytes ++ [0x0d]) → ∃ e, dechunk p = .error e :=
  ⟨dechunk_encodeChunked chunks last, fun _ h => dechunkLoop_truncated h⟩

def lastLine : SizeLine 0 where
  digits    := ['0']
  ext       := []
  reads     := ⟨by simp, [0], by simp [toDigit], rfl⟩
  extension := ⟨[], [], rfl, by simp, .inl rfl⟩

-- One chunk, `04;a\r\nWiki\r\n`, in front of `0\r\n\r\n`.
def wikiChunk : Chunk where
  data := [87, 105, 107, 105]
  line := ⟨['0', '4'], [';', 'a'], ⟨by simp, [0, 4], by simp [toDigit], rfl⟩,
    ⟨[], [';', 'a'], rfl, by simp, .inr ⟨['a'], rfl, forall_mem_of_all (by decide)⟩⟩⟩
  ne   := by simp
  fits := by decide

theorem dechunk_exact_wiki :
    dechunk (encodeChunked [wikiChunk] lastLine crlf) = .ok [87, 105, 107, 105] ∧
    ∃ e, dechunk (wikiChunk.bytes ++ [0x30]) = .error e := by
  obtain ⟨h₁, h₂⟩ := dechunk_exact [wikiChunk] lastLine
  exact ⟨h₁ crlf, h₂ _ ⟨[0x0d], rfl⟩⟩

end JammVpn.Fetch
