import JammVpn.Lib.Ip

-- Reading the text of an IPv6 address back.
namespace Ip

open Text

theorem segments_lt {v : BitVec 128} {g : Nat} (h : g ∈ segments v) : g < 65536 := by
  have ⟨i, _, hi⟩ := List.mem_map.mp h
  exact hi ▸ Nat.mod_lt _ (by decide)

@[simp]
theorem length_segments (v : BitVec 128) : (segments v).length = 8 := by
  simp [segments]

-- The first segments are the first bits.
theorem foldl_segments (v : BitVec 128) {k : Nat} (h : k ≤ 8) :
    ((List.range k).map fun i => v.toNat / 2 ^ (112 - 16 * i) % 65536).foldl
      (fun acc g => acc * 65536 + g) 0 = v.toNat / 2 ^ (128 - 16 * k) := by
  induction k
  case zero => exact (Nat.div_eq_of_lt v.isLt).symm
  case succ k hi =>
    have he : 128 - 16 * k = (112 - 16 * k) + 16 := by omega
    have hs : 128 - 16 * (k + 1) = 112 - 16 * k := by omega
    rw [List.range_succ, List.map_append, List.foldl_append, hi (by omega), he, Nat.pow_add,
      ← Nat.div_div_eq_div_mul, hs]
    exact Nat.div_add_mod' _ _

theorem ofSegments_segments (v : BitVec 128) : ofSegments (segments v) = v := by
  apply BitVec.eq_of_toNat_eq
  rw [ofSegments, segments, foldl_segments v (Nat.le_refl 8), BitVec.toNat_ofNat]
  simp [Nat.mod_eq_of_lt v.isLt]

section Zeroes

-- The segments of the span are zero.
def Span.Zero (gs : List Nat) (z : Span) : Prop :=
  z.start + z.len ≤ gs.length ∧ ∀ i, z.start ≤ i → i < z.start + z.len → gs[i]? = some 0

-- What is known after some segments: the longest run so far, and the one that ends here.
def ZeroesUpTo (gs : List Nat) (k : Nat) (zs : Span × Span) : Prop :=
  zs.1.Zero gs ∧ zs.2.Zero gs ∧ (zs.2.len ≠ 0 → zs.2.start + zs.2.len = k)

variable {gs : List Nat} {k : Nat} {zs : Span × Span}

theorem ZeroesUpTo.step (h : ZeroesUpTo gs k zs) {g : Nat} (hg : gs[k]? = some g) :
    ZeroesUpTo gs (k + 1) (longestZeroes.step zs (g, k)) := by
  obtain ⟨longest, current⟩ := zs
  have ⟨hl, hc, hk⟩ := h
  have hlt : k < gs.length := (List.getElem?_eq_some_iff.mp hg).1
  simp only [longestZeroes.step]
  split
  case isFalse => exact ⟨hl, ⟨by simp, by simp⟩, by simp⟩
  case isTrue h₀ =>
    have hn : Span.Zero gs ⟨if current.len = 0 then k else current.start, current.len + 1⟩ := by
      by_cases he : current.len = 0
      case pos =>
        rw [if_pos he, he]
        refine ⟨hlt, fun i h₁ h₂ => ?_⟩
        have : i = k := Nat.le_antisymm (Nat.lt_succ_iff.mp h₂) h₁
        rw [this, hg, h₀]
      case neg =>
        have hs := hk he
        rw [if_neg he]
        refine ⟨by dsimp only at hs ⊢; omega, fun i h₁ h₂ => ?_⟩
        by_cases hi : i = k
        case pos => rw [hi, hg, h₀]
        case neg => exact hc.2 i h₁ (by dsimp only at hs h₂ ⊢; omega)
    refine ⟨?_, hn, fun _ => ?_⟩
    case refine_1 =>
      dsimp only
      split
      case isTrue  => exact hn
      case isFalse => exact hl
    case refine_2 =>
      dsimp only
      split
      case isTrue he  => omega
      case isFalse he => have := hk he; dsimp only at this; omega

theorem ZeroesUpTo.foldl {l pre : List Nat} (h : ZeroesUpTo (pre ++ l) pre.length zs) :
    ((l.zipIdx pre.length).foldl longestZeroes.step zs).1.Zero (pre ++ l) := by
  induction l generalizing pre zs
  case nil => exact h.1
  case cons g l hi =>
    have hs := h.step (g := g) (by simp)
    have he : pre ++ g :: l = (pre ++ [g]) ++ l := by simp
    rw [List.zipIdx_cons, List.foldl_cons]
    rw [he] at hs ⊢
    have hs : ZeroesUpTo ((pre ++ [g]) ++ l) (pre ++ [g]).length
        (longestZeroes.step zs (g, pre.length)) := by simpa using hs
    simpa using hi hs

theorem longestZeroes_zero (gs : List Nat) : (longestZeroes gs).Zero gs := by
  have h₀ : ZeroesUpTo ([] ++ gs) ([] : List Nat).length (⟨0, 0⟩, ⟨0, 0⟩) :=
    ⟨⟨by simp, by simp⟩, ⟨by simp, by simp⟩, by simp⟩
  exact h₀.foldl

-- The run can be left out.
theorem Span.Zero.append {z : Span} (h : z.Zero gs) :
    gs.take z.start ++ List.replicate z.len 0 ++ gs.drop (z.start + z.len) = gs := by
  have hm : (gs.drop z.start).take z.len = List.replicate z.len 0 := by
    apply List.eq_replicate_iff.mpr
    have hl := h.1
    refine ⟨by rw [List.length_take, List.length_drop]; omega, fun g hg => ?_⟩
    have ⟨i, hi⟩ := List.getElem?_of_mem hg
    rw [List.getElem?_take, List.getElem?_drop] at hi
    split at hi
    case isFalse => cases hi
    case isTrue hlt =>
      have := h.2 (z.start + i) (by omega) (by omega)
      exact Option.some.inj (hi.symm.trans this)
  rw [← hm, ← List.drop_drop, List.append_assoc, List.take_append_drop, List.take_append_drop]

end Zeroes

section Groups

-- Nothing that follows is part of the address.
def Stops (rest : List Char) : Prop :=
  ∀ c ∈ rest.head?, toDigit 16 c = none ∧ c ≠ '.' ∧ c ≠ ':'

variable {g i left : Nat} {gs : List Nat} {rest : List Char}

theorem toDigit_ten_of_sixteen {c : Char} (h : toDigit 16 c = none) : toDigit 10 c = none := by
  simp only [toDigit] at h ⊢
  split at h
  · cases h
  split at h
  · cases h
  split at h
  · cases h
  rw [if_neg (by omega), if_neg (by omega), if_neg (by omega)]

theorem readNumber_eq_none {radix bound : Nat} {digits : Option Nat} {zero : Bool}
    (h : ∀ c ∈ rest.head?, toDigit radix c = none) :
    readNumber radix digits zero bound rest = none := by
  have hs : spanDigits radix rest = ([], rest) := @spanDigits_append radix [] rest [] .nil h
  simp [readNumber, hs]

theorem readIpv4Addr_eq_none (h : ∀ c ∈ rest.head?, toDigit 16 c = none) : readIpv4Addr rest = none := by
  have hn : readNumber 10 (some 3) false 256 rest = none :=
    readNumber_eq_none fun c hc => toDigit_ten_of_sixteen (h c hc)
  simp [readIpv4Addr, readOctet, readSeparator, hn]

theorem readNumber_hex (hg : g < 65536) (hr : ∀ c ∈ rest.head?, toDigit 16 c = none) :
    readNumber 16 (some 4) true 65536 (hex g ++ rest) = some (g, rest) := by
  have ⟨ds, hd, he⟩ := exists_digits_toDigits (by decide : 1 < 16) (by decide) g
  have hs := spanDigits_append hd hr
  have hl : (Nat.toDigits 16 g).length = ds.length := hd.length_eq
  have h₄ : (Nat.toDigits 16 g).length ≤ 4 :=
    (Nat.length_toDigits_le_iff (by decide) (by decide)).mpr (by omega)
  have h₀ : 0 < (Nat.toDigits 16 g).length := Nat.length_toDigits_pos
  have hne : ds ≠ [] := by
    intro h
    rw [h, List.length_nil] at hl
    omega
  simp [readNumber, hex, hs, hne, he, hg, show ¬4 < ds.length by omega]

theorem toDigit_of_mem {radix : Nat} {cs : List Char} {ds : List Nat}
    (h : List.Forall₂ (fun c d => toDigit radix c = some d) cs ds) {c : Char} (hc : c ∈ cs) :
    ∃ d, toDigit radix c = some d := by
  induction h
  case nil => cases hc
  case cons hd _ hi =>
    cases hc
    case head    => exact ⟨_, hd⟩
    case tail hc => exact hi hc

theorem dot_not_mem_hex : '.' ∉ hex g := by
  intro h
  have ⟨ds, hd, _⟩ := exists_digits_toDigits (by decide : 1 < 16) (by decide) g
  have ⟨d, hd⟩ := toDigit_of_mem hd h
  simp [toDigit] at hd

-- Behind the decimal digits of a group there is no dot.
theorem head?_spanDigits {cs : List Char} (hc : '.' ∉ cs)
    (hr : ∀ c ∈ rest.head?, toDigit 16 c = none ∧ c ≠ '.') :
    (spanDigits 10 (cs ++ rest)).2.head? ≠ some '.' := by
  induction cs
  case nil =>
    have hs : spanDigits 10 rest = ([], rest) :=
      @spanDigits_append 10 [] rest [] .nil fun c hc => toDigit_ten_of_sixteen (hr c hc).1
    rw [List.nil_append, hs]
    exact fun h => (hr '.' h).2 rfl
  case cons c cs hi =>
    have ⟨hcd, hcs⟩ : '.' ≠ c ∧ '.' ∉ cs := by simpa using hc
    rw [List.cons_append, spanDigits]
    split
    case h_1 => simpa using Ne.symm hcd
    case h_2 => exact hi hcs

theorem readIpv4Addr_hex (hr : ∀ c ∈ rest.head?, toDigit 16 c = none ∧ c ≠ '.') :
    readIpv4Addr (hex g ++ rest) = none := by
  have hd := head?_spanDigits (@dot_not_mem_hex g) hr
  have ho {n : Nat} {s : List Char} (h : readOctet 0 (hex g ++ rest) = some (n, s)) :
      s = (spanDigits 10 (hex g ++ rest)).2 := by
    simp only [readOctet, readSeparator, Nat.lt_irrefl, if_false, readNumber] at h
    split at h
    · cases h
    split at h
    · cases h
    split at h
    · cases h
    split at h
    · exact (Prod.mk.inj (Option.some.inj h)).2.symm
    · cases h
  cases h : readOctet 0 (hex g ++ rest)
  case none => simp [readIpv4Addr, h]
  case some r =>
    obtain ⟨n, s⟩ := r
    rw [← ho h] at hd
    have hs : readOctet 1 s = none := by
      simp only [readOctet, readSeparator, Nat.zero_lt_one, if_true]
      cases s
      case nil => rfl
      case cons c cs =>
        have : c ≠ '.' := by simpa using hd
        simp [readGivenChar, this]
    simp [readIpv4Addr, h, hs]

-- All groups but the first have a colon in front.
def colons (gs : List Nat) : List Char :=
  gs.flatMap fun g => ':' :: hex g

theorem displaySegments_cons (g : Nat) (gs : List Nat) :
    displaySegments (g :: gs) = hex g ++ colons gs := by
  induction gs generalizing g
  case nil => simp [displaySegments, colons]
  case cons g' gs hi =>
    have h : displaySegments (g :: g' :: gs) = hex g ++ ':' :: displaySegments (g' :: gs) := by
      simp [displaySegments, List.intercalate]
    rw [h, hi]
    simp [colons]

-- The groups end here, whether the next one would need a separator or not.
structure Ends (rest : List Char) : Prop where
  digit : ∀ c ∈ rest.head?, toDigit 16 c = none ∧ c ≠ '.'
  group : ∀ i left, readGroups i left rest = (([], false), rest)

theorem readGroups_zero_of_digit (h : ∀ c ∈ rest.head?, toDigit 16 c = none) :
    readGroups 0 left rest = (([], false), rest) := by
  have hn : readNumber 16 (some 4) true 65536 rest = none := readNumber_eq_none h
  cases left
  case zero => rfl
  case succ left => simp [readGroups, readSeparator, readIpv4Addr_eq_none h, hn]

theorem ends_of_stops (h : Stops rest) : Ends rest where
  digit c hc := ⟨(h c hc).1, (h c hc).2.1⟩
  group i left := by
    cases i
    case zero => exact readGroups_zero_of_digit fun c hc => (h c hc).1
    case succ i =>
      have hg : readGivenChar ':' rest = none := by
        cases rest
        case nil => rfl
        case cons c cs => simp [readGivenChar, (h c rfl).2.2]
      cases left
      case zero => rfl
      case succ left => simp [readGroups, readSeparator, hg]

theorem ends_double (rest : List Char) : Ends (':' :: ':' :: rest) where
  digit := by simp [toDigit]
  group i left := by
    have hc : ∀ c ∈ (':' :: rest).head?, toDigit 16 c = none := by simp [toDigit]
    have hn : readNumber 16 (some 4) true 65536 (':' :: rest) = none := readNumber_eq_none hc
    cases i
    case zero => exact readGroups_zero_of_digit (by simp [toDigit])
    case succ i =>
      cases left
      case zero => rfl
      case succ left => simp [readGroups, readSeparator, readGivenChar, readIpv4Addr_eq_none hc, hn]

theorem head?_colons (h : Ends rest) (gs : List Nat) :
    ∀ c ∈ (colons gs ++ rest).head?, toDigit 16 c = none ∧ c ≠ '.' := by
  cases gs
  case nil  => exact h.digit
  case cons => simp [colons, toDigit]

theorem readGroups_colons (h : Ends rest) (hg : ∀ g ∈ gs, g < 65536) (hl : gs.length ≤ left)
    (hi : 0 < i) : readGroups i left (colons gs ++ rest) = ((gs, false), rest) := by
  induction gs generalizing i left
  case nil => exact h.group i left
  case cons g gs ih =>
    have ⟨hg, hgs⟩ := List.forall_mem_cons.mp hg
    have hc := head?_colons h gs
    cases left
    case zero => simp at hl
    case succ left =>
      have hv := @readIpv4Addr_hex g (colons gs ++ rest) hc
      have hn := readNumber_hex hg fun c h => (hc c h).1
      have hr := ih hgs (Nat.le_of_succ_le_succ hl) (Nat.succ_pos i)
      have he : colons (g :: gs) ++ rest = ':' :: (hex g ++ (colons gs ++ rest)) := by simp [colons]
      simp [he, readGroups, readSeparator, hi, readGivenChar, hv, hn, hr]

theorem readGroups_display (h : Ends rest) (hg : ∀ g ∈ gs, g < 65536) (hl : gs.length ≤ left) :
    readGroups 0 left (displaySegments gs ++ rest) = ((gs, false), rest) := by
  cases gs
  case nil => exact h.group 0 left
  case cons g gs =>
    have ⟨hg, hgs⟩ := List.forall_mem_cons.mp hg
    have hc := head?_colons h gs
    cases left
    case zero => simp at hl
    case succ left =>
      have hv := @readIpv4Addr_hex g (colons gs ++ rest) hc
      have hn := readNumber_hex hg fun c h => (hc c h).1
      have hr := readGroups_colons h hgs (Nat.le_of_succ_le_succ hl) Nat.zero_lt_one
      rw [displaySegments_cons, List.append_assoc]
      simp [readGroups, readSeparator, hv, hn, hr]

end Groups

section Address

variable {rest : List Char}

theorem readIpv6Addr_full {gs : List Nat} (hr : Stops rest) (hg : ∀ g ∈ gs, g < 65536)
    (hl : gs.length = 8) : readIpv6Addr (displaySegments gs ++ rest) = some (ofSegments gs, rest) := by
  rw [readIpv6Addr, readGroups_display (ends_of_stops hr) hg hl.le]
  simp [hl]

theorem readIpv6Addr_compressed {head tail : List Nat} (hr : Stops rest)
    (hh : ∀ g ∈ head, g < 65536) (ht : ∀ g ∈ tail, g < 65536) (hl : head.length + tail.length < 8) :
    readIpv6Addr (displaySegments head ++ "::".toList ++ displaySegments tail ++ rest) =
      some (ofSegments (head ++ List.replicate (8 - head.length - tail.length) 0 ++ tail), rest) := by
  have h₁ := readGroups_display (ends_double (displaySegments tail ++ rest)) hh
    (show head.length ≤ 8 by omega)
  have h₂ := readGroups_display (ends_of_stops hr) ht
    (show tail.length ≤ 7 - head.length by omega)
  have he : displaySegments head ++ "::".toList ++ displaySegments tail ++ rest =
      displaySegments head ++ ':' :: ':' :: (displaySegments tail ++ rest) := by simp
  rw [he, readIpv6Addr, h₁]
  simp [show ¬head.length = 8 by omega, readGivenChar, h₂]

theorem readIpv6Addr_display (v : BitVec 128) (hr : Stops rest) :
    readIpv6Addr (displayV6 v ++ rest) = some (v, rest) := by
  simp only [displayV6]
  split
  case h_1 a hm =>
    have h := @readIpv6Addr_mapped a rest fun c hc => toDigit_ten_of_sixteen (hr c hc).1
    rw [displayV6, ← eq_toIpv6Mapped hm, hm] at h
    exact h
  case h_2 =>
    split
    case isFalse =>
      rw [readIpv6Addr_full hr (fun g => segments_lt) (length_segments v), ofSegments_segments]
    case isTrue h =>
      have hz := longestZeroes_zero (segments v)
      have hl := hz.1
      rw [length_segments] at hl
      rw [readIpv6Addr_compressed hr (fun g hg => segments_lt (List.mem_of_mem_take hg))
        (fun g hg => segments_lt (List.mem_of_mem_drop hg)) (by simp; omega)]
      have hn : 8 - ((segments v).take (longestZeroes (segments v)).start).length -
          ((segments v).drop ((longestZeroes (segments v)).start + (longestZeroes (segments v)).len)).length =
          (longestZeroes (segments v)).len := by simp; omega
      rw [hn, hz.append, ofSegments_segments]

-- The text of an IPv6 address is not that of an IPv4 address.
theorem readIpv4Addr_displaySegments {gs : List Nat} (hne : gs ≠ []) (hr : Ends rest) :
    readIpv4Addr (displaySegments gs ++ rest) = none := by
  cases gs
  case nil => exact absurd rfl hne
  case cons g gs =>
    rw [displaySegments_cons, List.append_assoc]
    exact readIpv4Addr_hex (head?_colons hr gs)

theorem readIpv4Addr_displayV6 (v : BitVec 128) : readIpv4Addr (displayV6 v) = none := by
  have hend : Ends [] := ends_of_stops (by simp [Stops])
  have hcolon (s : List Char) : readIpv4Addr (':' :: s) = none := readIpv4Addr_eq_none (by simp [toDigit])
  rw [displayV6]
  split
  case h_1 => exact hcolon _
  case h_2 =>
    dsimp only
    split
    case isTrue =>
      have hd := ends_double (displaySegments ((segments v).drop
        ((longestZeroes (segments v)).start + (longestZeroes (segments v)).len)))
      rw [List.append_assoc]
      by_cases hne : (segments v).take (longestZeroes (segments v)).start = []
      case pos =>
        rw [hne]
        exact hcolon _
      case neg => exact readIpv4Addr_displaySegments hne hd
    case isFalse =>
      have hne : segments v ≠ [] := fun h => absurd (congrArg List.length h) (by rw [length_segments]; decide)
      have := readIpv4Addr_displaySegments hne hend
      rwa [List.append_nil] at this

theorem IpAddr.parse_display (ip : IpAddr) : IpAddr.parse ip.display = some ip := by
  cases ip
  case v4 a => exact parse_display_v4 a
  case v6 a =>
    have h := @readIpv6Addr_display [] a (by simp [Stops])
    rw [List.append_nil] at h
    simp [display, IpAddr.parse, parseWith, readIpAddr, readIpv4Addr_displayV6, h]

-- An address starts with a digit or a colon.
theorem IpAddr.parse_cons_eq_none {c : Char} (hd : toDigit 16 c = none) (hc : c ≠ ':') (s : List Char) :
    IpAddr.parse (c :: s) = none := by
  have hhead : ∀ x ∈ (c :: s).head?, toDigit 16 x = none := by
    rintro x ⟨⟩
    exact hd
  have h₄ : readIpv4Addr (c :: s) = none := readIpv4Addr_eq_none hhead
  have h₆ : readIpv6Addr (c :: s) = none := by
    rw [readIpv6Addr, readGroups_zero_of_digit hhead]
    simp [readGivenChar, hc]
  rw [IpAddr.parse, parseWith, readIpAddr, h₄]
  dsimp only
  rw [h₆]
  rfl

-- What the text of an address consists of.
def AddressChar (c : Char) : Prop :=
  (toDigit 16 c).isSome ∨ c = ':' ∨ c = '.'

theorem addressChar_decimal {n : Nat} {c : Char} (h : c ∈ decimal n) : AddressChar c := by
  obtain ⟨ds, hd, _⟩ := exists_digits_toDigits (by decide : 1 < 10) (by decide) n
  obtain ⟨d, hd⟩ := toDigit_of_mem hd h
  refine .inl (Option.isSome_iff_ne_none.mpr fun hn => ?_)
  rw [toDigit_ten_of_sixteen hn] at hd
  cases hd

theorem addressChar_hex {c : Char} (h : c ∈ hex g) : AddressChar c := by
  obtain ⟨ds, hd, _⟩ := exists_digits_toDigits (by decide : 1 < 16) (by decide) g
  obtain ⟨d, hd⟩ := toDigit_of_mem hd h
  exact .inl (by rw [hd]; rfl)

theorem addressChar_displayV4 {a : BitVec 32} {c : Char} (h : c ∈ displayV4 a) : AddressChar c := by
  simp only [displayV4, List.mem_append, List.mem_cons] at h
  rcases h with h | h | h | h | h | h | h
  · exact addressChar_decimal h
  · exact .inr (.inr h)
  · exact addressChar_decimal h
  · exact .inr (.inr h)
  · exact addressChar_decimal h
  · exact .inr (.inr h)
  · exact addressChar_decimal h

theorem addressChar_displaySegments {gs : List Nat} {c : Char} (h : c ∈ displaySegments gs) : AddressChar c := by
  cases gs
  case nil => cases h
  case cons g gs =>
    rw [displaySegments_cons, List.mem_append, colons, List.mem_flatMap] at h
    rcases h with h | ⟨g', _, h⟩
    case inl => exact addressChar_hex h
    case inr =>
      rcases List.mem_cons.mp h with h | h
      · exact .inr (.inl h)
      · exact addressChar_hex h

theorem addressChar_displayV6 {a : BitVec 128} {c : Char} (h : c ∈ displayV6 a) : AddressChar c := by
  rw [displayV6] at h
  split at h
  case h_1 =>
    rcases List.mem_append.mp h with h | h
    · have hall : ∀ c ∈ "::ffff:".toList, (toDigit 16 c).isSome ∨ c = ':' ∨ c = '.' := by
        simp [toDigit]
      exact hall c h
    · exact addressChar_displayV4 h
  case h_2 =>
    dsimp only at h
    split at h
    case isFalse => exact addressChar_displaySegments h
    case isTrue =>
      rw [List.mem_append, List.mem_append] at h
      rcases h with (h | h) | h
      · exact addressChar_displaySegments h
      · exact .inr (.inl (by simpa using h))
      · exact addressChar_displaySegments h

theorem addressChar_display {ip : IpAddr} {c : Char} (h : c ∈ ip.display) : AddressChar c := by
  cases ip
  case v4 => exact addressChar_displayV4 h
  case v6 => exact addressChar_displayV6 h

theorem not_blank_of_toDigit {radix : Nat} {c : Char} (h : (toDigit radix c).isSome) : isWhitespace c = false := by
  have hn : (48 ≤ c.toNat ∧ c.toNat ≤ 57) ∨ (97 ≤ c.toNat ∧ c.toNat ≤ 122) ∨ (65 ≤ c.toNat ∧ c.toNat ≤ 90) := by
    simp only [toDigit] at h
    split at h
    case isTrue hd => exact .inl ⟨hd.1, hd.2.1⟩
    split at h
    case isTrue hd => exact .inr (.inl ⟨hd.1, hd.2.1⟩)
    split at h
    case isTrue hd => exact .inr (.inr ⟨hd.1, hd.2.1⟩)
    case isFalse => cases h
  simp only [isWhitespace, Bool.or_eq_false_iff, Bool.and_eq_false_iff, decide_eq_false_iff_not, beq_eq_false_iff_ne]
  omega

theorem AddressChar.not_blank {c : Char} (h : AddressChar c) : isWhitespace c = false := by
  rcases h with h | rfl | rfl
  · exact not_blank_of_toDigit h
  · rfl
  · rfl

theorem not_mem_display {c : Char} (hc : toDigit 16 c = none) (hcolon : c ≠ ':') (hdot : c ≠ '.')
    (ip : IpAddr) : c ∉ ip.display := by
  intro h
  rcases addressChar_display h with h | h | h
  · rw [hc] at h
    cases h
  · exact hcolon h
  · exact hdot h

theorem decimal_injective {n m : Nat} (h : decimal n = decimal m) : n = m := by
  have hn := @parseUnsigned_decimal (max n m + 1) n (by omega)
  have hm := @parseUnsigned_decimal (max n m + 1) m (by omega)
  rw [h, hm] at hn
  exact (Option.some.inj hn).symm

theorem displayV4_append_inj {a b : BitVec 32} {s t : List Char}
    (hs : ∀ c ∈ s.head?, toDigit 10 c = none) (ht : ∀ c ∈ t.head?, toDigit 10 c = none)
    (h : displayV4 a ++ s = displayV4 b ++ t) : a = b ∧ s = t := by
  have ha := readIpv4Addr_display a hs
  rw [h, readIpv4Addr_display b ht] at ha
  exact (Prod.mk.inj (Option.some.inj ha)).imp Eq.symm Eq.symm

theorem displayV6_append_inj {a b : BitVec 128} {s t : List Char} (hs : Stops s) (ht : Stops t)
    (h : displayV6 a ++ s = displayV6 b ++ t) : a = b ∧ s = t := by
  have ha := readIpv6Addr_display a hs
  rw [h, readIpv6Addr_display b ht] at ha
  exact (Prod.mk.inj (Option.some.inj ha)).imp Eq.symm Eq.symm

theorem head?_displayV4_append (a : BitVec 32) (s : List Char) :
    (displayV4 a ++ s).head? ≠ some '[' := by
  rw [displayV4, List.append_assoc]
  exact head?_decimal_append (by decide) _ _

-- The text of a socket address without a scope.
theorem SocketAddr.display_new_inj {ip ip' : IpAddr} {port port' : Nat}
    (h : (SocketAddr.new ip port).display = (SocketAddr.new ip' port').display) :
    ip = ip' ∧ port = port' := by
  have hc p : ∀ c ∈ (':' :: decimal p).head?, toDigit 10 c = none := by simp [toDigit]
  have hb p : Stops (']' :: ':' :: decimal p) := by simp [Stops, toDigit]
  cases ip <;> cases ip' <;> simp only [new, display, if_true, List.append_nil] at h
  case v4.v4 a b =>
    obtain ⟨ha, hp⟩ := displayV4_append_inj (hc port) (hc port') h
    exact ⟨by rw [ha], decimal_injective (List.cons.inj hp).2⟩
  case v4.v6 a b => exact absurd (congrArg List.head? h) (head?_displayV4_append a _)
  case v6.v4 a b => exact absurd (congrArg List.head? h.symm) (head?_displayV4_append b _)
  case v6.v6 a b =>
    obtain ⟨ha, hp⟩ := displayV6_append_inj (hb port) (hb port') (List.cons.inj h).2
    exact ⟨by rw [ha], decimal_injective (List.cons.inj (List.cons.inj hp).2).2⟩

section Colon

variable {s s' : List Char}

theorem readGivenChar_eq_none {c : Char} (h : c ∉ s) : readGivenChar c s = none := by
  cases s
  case nil      => rfl
  case cons d s => exact if_neg (Ne.symm (List.ne_of_not_mem_cons h))

theorem readSeparator_eq_none {α : Type} {sep : Char} {i : Nat} (hi : 0 < i) (h : sep ∉ s) (r : Reader α) :
    readSeparator sep i r s = none := by
  rw [readSeparator, if_pos hi, readGivenChar_eq_none h]
  rfl

theorem readNumber_rest {radix bound g : Nat} {digits : Option Nat} {zero : Bool}
    (h : readNumber radix digits zero bound s = some (g, s')) : s' = (spanDigits radix s).2 := by
  simp only [readNumber] at h
  split at h
  case isTrue => cases h
  split at h
  case isTrue => cases h
  split at h
  case isTrue => cases h
  split at h
  case isFalse => cases h
  case isTrue  => exact (congrArg Prod.snd (Option.some.inj h)).symm

-- A second group stands behind a colon.
theorem readGroups_one {n : Nat} (h : ':' ∉ s) : readGroups 1 n s = (([], false), s) := by
  cases n
  case zero => rfl
  case succ n =>
    rw [readGroups, readSeparator_eq_none Nat.one_pos h, readSeparator_eq_none Nat.one_pos h, ite_self]

theorem readIpv6Addr_no_colon (h : ':' ∉ s) : readIpv6Addr s = none := by
  have h₀ : ∀ {α : Type} (r : Reader α), readSeparator ':' 0 r s = r s := fun r => if_neg (Nat.lt_irrefl 0)
  rw [readIpv6Addr, readGroups, if_pos (by decide), h₀, h₀]
  cases h₄ : readIpv4Addr s
  case some r => rfl
  case none =>
    cases hn : readNumber 16 (some 4) true 65536 s
    case none =>
      dsimp only
      rw [if_neg (by decide), if_neg (by decide), readGivenChar_eq_none h]
      rfl
    case some r =>
      obtain ⟨g, s'⟩ := r
      have hs' : ':' ∉ s' := fun hc => h (mem_of_mem_spanDigits (readNumber_rest hn ▸ hc))
      dsimp only
      rw [readGroups_one hs']
      dsimp only
      rw [if_neg (by simp), if_neg (by decide), readGivenChar_eq_none hs']
      rfl

theorem IpAddr.colon_mem_of_parse {a : BitVec 128} (h : IpAddr.parse s = some (.v6 a)) : ':' ∈ s := by
  by_contra hc
  rw [IpAddr.parse, parseWith, readIpAddr] at h
  cases h₄ : readIpv4Addr s
  case none =>
    rw [h₄] at h
    dsimp only at h
    rw [readIpv6Addr_no_colon hc] at h
    cases h
  case some r =>
    rw [h₄] at h
    obtain ⟨v, rest⟩ := r
    cases rest <;> cases h

end Colon

end Address
end Ip
