import Mathlib.Data.List.Basic
import Mathlib.Data.List.DropRight
import Mathlib.Data.List.Forall2
import Mathlib.Data.List.Infix
import Mathlib.Tactic.IntervalCases
import Mathlib.Tactic.Ring

-- The operations of Rust's `str` on lists of characters, and the number formats that its `FromStr`
-- and `Display` implementations use.
namespace Text

section Affixes

variable {α : Type} [DecidableEq α]

def stripPrefix : List α → List α → Option (List α)
  | [], s               => some s
  | _ :: _, []          => none
  | p :: ps, c :: s     => if p = c then stripPrefix ps s else none

def stripSuffix (p s : List α) : Option (List α) :=
  (stripPrefix p.reverse s.reverse).map List.reverse

theorem stripPrefix_eq_some_iff {p s t : List α} : stripPrefix p s = some t ↔ s = p ++ t := by
  induction p generalizing s
  case nil => simp [stripPrefix, eq_comm]
  case cons hd tl hi =>
    cases s <;> simp [stripPrefix]
    case cons c s =>
      by_cases h : hd = c
      case pos => simp [h, hi]
      case neg => simp [h, Ne.symm h]

@[simp]
theorem stripPrefix_append (p s : List α) : stripPrefix p (p ++ s) = some s :=
  stripPrefix_eq_some_iff.mpr rfl

theorem stripSuffix_eq_some_iff {p s t : List α} : stripSuffix p s = some t ↔ s = t ++ p := by
  simp only [stripSuffix, Option.map_eq_some_iff, stripPrefix_eq_some_iff]
  constructor
  case mp =>
    intro ⟨u, h, hu⟩
    have := congrArg List.reverse h
    simpa [← hu] using this
  case mpr =>
    intro h
    exact ⟨t.reverse, by simp [h], by simp⟩

@[simp]
theorem stripSuffix_append (s p : List α) : stripSuffix p (s ++ p) = some s :=
  stripSuffix_eq_some_iff.mpr rfl

theorem stripSuffix_eq_none {p s : List α} (h : ∀ t, s ≠ t ++ p) : stripSuffix p s = none := by
  cases hs : stripSuffix p s
  case none => rfl
  case some => exact absurd (stripSuffix_eq_some_iff.mp hs) (h _)

theorem stripPrefix_single_eq_none {c : α} {s : List α} (h : s.head? ≠ some c) :
    stripPrefix [c] s = none := by
  cases s
  case nil       => rfl
  case cons d tl => simp_all [stripPrefix, eq_comm]

theorem stripSuffix_single_eq_none {c : α} {s : List α} (h : s.getLast? ≠ some c) :
    stripSuffix [c] s = none :=
  stripSuffix_eq_none fun t he => h (by simp [he])

-- `split_once` at the first occurrence of `c`.
def splitOnce (c : α) : List α → Option (List α × List α)
  | []      => none
  | x :: xs => if x = c then some ([], xs) else (splitOnce c xs).map fun (a, b) => (x :: a, b)

-- `rsplit_once` at the last occurrence of `c`.
def rsplitOnce (c : α) (s : List α) : Option (List α × List α) :=
  (splitOnce c s.reverse).map fun (a, b) => (b.reverse, a.reverse)

theorem splitOnce_append {c : α} {a : List α} (h : c ∉ a) (b : List α) :
    splitOnce c (a ++ c :: b) = some (a, b) := by
  induction a
  case nil => simp [splitOnce]
  case cons hd tl hi =>
    simp only [List.mem_cons, not_or] at h
    simp [splitOnce, Ne.symm h.left, hi h.right]

theorem splitOnce_eq_none {c : α} {a : List α} (h : c ∉ a) : splitOnce c a = none := by
  induction a
  case nil => rfl
  case cons hd tl hi =>
    simp only [List.mem_cons, not_or] at h
    simp [splitOnce, Ne.symm h.left, hi h.right]

theorem splitOnce_eq_some_iff {c : α} {s a b : List α} :
    splitOnce c s = some (a, b) ↔ s = a ++ c :: b ∧ c ∉ a := by
  constructor
  case mpr => exact fun ⟨hs, ha⟩ => hs ▸ splitOnce_append ha b
  case mp =>
    intro h
    by_cases hc : c ∈ s
    case neg =>
      rw [splitOnce_eq_none hc] at h
      cases h
    case pos =>
      obtain ⟨a', b', rfl, ha⟩ := List.eq_append_cons_of_mem hc
      rw [splitOnce_append ha] at h
      cases h
      exact ⟨rfl, ha⟩

theorem rsplitOnce_append {c : α} {b : List α} (h : c ∉ b) (a : List α) :
    rsplitOnce c (a ++ c :: b) = some (a, b) := by
  have := splitOnce_append (c := c) (a := b.reverse) (by simpa using h) a.reverse
  simp [rsplitOnce, this]

theorem rsplitOnce_eq_some {c : α} {s a b : List α} (h : rsplitOnce c s = some (a, b)) :
    s = a ++ c :: b ∧ c ∉ b := by
  obtain ⟨⟨x, y⟩, hs, he⟩ := Option.map_eq_some_iff.mp h
  cases he
  obtain ⟨hr, hx⟩ := splitOnce_eq_some_iff.mp hs
  have := congrArg List.reverse hr
  exact ⟨by simpa using this, by simpa using hx⟩

theorem not_mem_of_splitOnce {c : α} {s : List α} (h : splitOnce c s = none) : c ∉ s := by
  intro hc
  obtain ⟨a, b, rfl, ha⟩ := List.eq_append_cons_of_mem hc
  rw [splitOnce_append ha] at h
  cases h

theorem not_mem_of_rsplitOnce {c : α} {s : List α} (h : rsplitOnce c s = none) : c ∉ s := by
  have := not_mem_of_splitOnce (Option.map_eq_none_iff.mp h)
  rwa [List.mem_reverse] at this

theorem rsplitOnce_eq_none {c : α} {a : List α} (h : c ∉ a) : rsplitOnce c a = none := by
  simp [rsplitOnce, splitOnce_eq_none (c := c) (a := a.reverse) (by simpa using h)]

-- What can be evaluated for each element.
theorem forall_mem_of_all {β : Type} {p : β → Prop} [DecidablePred p] {l : List β}
    (h : (l.all fun b => decide (p b)) = true) : ∀ b ∈ l, p b := by
  simpa using h

end Affixes

-- `char::is_whitespace`: the Unicode property `White_Space`.
def isWhitespace (c : Char) : Bool :=
  let n := c.toNat
  (0x9 ≤ n && n ≤ 0xd) || n == 0x20 || n == 0x85 || n == 0xa0 || n == 0x1680 ||
  (0x2000 ≤ n && n ≤ 0x200a) || n == 0x2028 || n == 0x2029 || n == 0x202f || n == 0x205f ||
  n == 0x3000

def trim (s : List Char) : List Char :=
  (s.dropWhile isWhitespace).reverse.dropWhile isWhitespace |>.reverse

-- `trim_start` and `trim_end`.
def trimStart (s : List Char) : List Char :=
  s.dropWhile isWhitespace

def trimEnd (s : List Char) : List Char :=
  s.rdropWhile isWhitespace

section Trim

variable {s t : List Char}

theorem trimEnd_trimStart (s : List Char) : trimEnd (trimStart s) = trim s :=
  rfl

theorem trim_eq_self {s : List Char} (hh : ∀ c ∈ s.head?, isWhitespace c = false)
    (hl : ∀ c ∈ s.getLast?, isWhitespace c = false) : trim s = s := by
  have hd : ∀ t : List Char, (∀ c ∈ t.head?, isWhitespace c = false) → t.dropWhile isWhitespace = t := by
    intro t ht
    cases t
    case nil       => rfl
    case cons c t' => exact List.dropWhile_cons_of_neg (by rw [ht c rfl]; exact Bool.false_ne_true)
  rw [trim, hd s hh, hd s.reverse (by rwa [List.head?_reverse]), List.reverse_reverse]

theorem trim_blanks_append (h : ∀ c ∈ t, isWhitespace c = true) (s : List Char) : trim (t ++ s) = trim s := by
  rw [trim, List.dropWhile_append_of_pos h, trim]

theorem trim_append_blanks (h : ∀ c ∈ t, isWhitespace c = true) (s : List Char) : trim (s ++ t) = trim s := by
  have hr : ∀ c ∈ t.reverse, isWhitespace c = true := fun c hc => h c (List.mem_reverse.mp hc)
  rw [trim, trim, List.dropWhile_append]
  split
  case isTrue hd =>
    rw [List.isEmpty_iff.mp hd, List.dropWhile_eq_nil_iff.mpr h]
  case isFalse => rw [List.reverse_append, List.dropWhile_append_of_pos hr]

-- What is trimmed off.
theorem exists_trim (s : List Char) : ∃ a b, s = a ++ (trim s ++ b) ∧
    (∀ c ∈ a, isWhitespace c = true) ∧ ∀ c ∈ b, isWhitespace c = true := by
  have h₁ := List.takeWhile_append_dropWhile (p := isWhitespace) (l := s)
  have h₂ := List.takeWhile_append_dropWhile (p := isWhitespace) (l := (s.dropWhile isWhitespace).reverse)
  refine ⟨s.takeWhile isWhitespace, ((s.dropWhile isWhitespace).reverse.takeWhile isWhitespace).reverse,
    ?_, fun c hc => List.mem_takeWhile_imp hc, fun c hc => List.mem_takeWhile_imp (List.mem_reverse.mp hc)⟩
  rw [trim, ← List.reverse_append, h₂, List.reverse_reverse, h₁]

theorem head?_trim : ∀ c ∈ (trim s).head?, isWhitespace c = false := by
  intro c hc
  have hp : trim s <+: s.dropWhile isWhitespace := List.rdropWhile_prefix isWhitespace _
  have hd := List.head?_dropWhile_not (p := isWhitespace) (l := s)
  cases ht : trim s
  case nil => simp [ht] at hc
  case cons d tl =>
    obtain ⟨u, hu⟩ := hp
    rw [← hu, ht] at hd
    rw [ht] at hc
    cases hc
    simpa using hd

theorem getLast?_trim : ∀ c ∈ (trim s).getLast?, isWhitespace c = false := by
  intro c hc
  have hd := List.head?_dropWhile_not (p := isWhitespace) (l := (s.dropWhile isWhitespace).reverse)
  rw [trim, List.getLast?_reverse] at hc
  rw [Option.mem_def.mp hc] at hd
  simpa using hd

@[simp]
theorem trim_trim (s : List Char) : trim (trim s) = trim s :=
  trim_eq_self head?_trim getLast?_trim

theorem trim_eq_nil_iff : trim s = [] ↔ ∀ c ∈ s, isWhitespace c = true := by
  constructor
  case mp =>
    intro h
    obtain ⟨a, b, hs, ha, hb⟩ := exists_trim s
    rw [hs, h]
    exact fun c hc => (List.mem_append.mp hc).elim (ha c) (hb c)
  case mpr =>
    intro h
    have := trim_blanks_append h []
    rwa [List.append_nil] at this

theorem mem_of_mem_trim {c : Char} (h : c ∈ trim s) : c ∈ s := by
  obtain ⟨a, b, hs, _⟩ := exists_trim s
  rw [hs]
  simp [h]

theorem trim_cons_blank {c : Char} (h : isWhitespace c = true) (s : List Char) : trim (c :: s) = trim s := by
  rw [trim, List.dropWhile_cons_of_pos h, trim]

theorem trimEnd_append_blanks (h : ∀ c ∈ t, isWhitespace c = true) (s : List Char) :
    trimEnd (s ++ t) = trimEnd s := by
  have hr : ∀ c ∈ t.reverse, isWhitespace c = true := fun c hc => h c (List.mem_reverse.mp hc)
  rw [trimEnd, trimEnd, List.rdropWhile, List.rdropWhile, List.reverse_append, List.dropWhile_append_of_pos hr]

theorem trimEnd_append (hne : trim t ≠ []) (s : List Char) : trimEnd (s ++ t) = s ++ trimEnd t := by
  have hd : t.reverse.dropWhile isWhitespace ≠ [] := by
    intro hd
    refine hne (trim_eq_nil_iff.mpr fun c hc => ?_)
    exact List.dropWhile_eq_nil_iff.mp hd c (List.mem_reverse.mpr hc)
  rw [trimEnd, trimEnd, List.rdropWhile, List.rdropWhile, List.reverse_append, List.dropWhile_append,
    if_neg (by simpa using hd), List.reverse_append, List.reverse_reverse]

theorem head?_trim_cons {c : Char} (h : isWhitespace c = false) (s : List Char) :
    (trim (c :: s)).head? = some c := by
  have hs : trimStart (c :: s) = [c] ++ s := List.dropWhile_cons_of_neg (by simp [h])
  rw [← trimEnd_trimStart, hs]
  by_cases hb : trim s = []
  case pos =>
    rw [trimEnd_append_blanks (trim_eq_nil_iff.mp hb), trimEnd, List.rdropWhile_singleton, h]
    rfl
  case neg =>
    rw [trimEnd_append hb]
    rfl

theorem trimStart_trimEnd (s : List Char) : trimStart (trimEnd s) = trim s := by
  obtain ⟨a, b, hs, ha, hb⟩ := exists_trim s
  by_cases hne : trim s = []
  case pos =>
    have hblank : ∀ c ∈ s, isWhitespace c = true := trim_eq_nil_iff.mp hne
    have he : trimEnd s = [] := List.rdropWhile_eq_nil_iff.mpr hblank
    rw [he, hne]
    rfl
  case neg =>
    have hl : trimEnd (trim s) = trim s := by
      refine List.rdropWhile_eq_self_iff.mpr fun hn => ?_
      rw [getLast?_trim _ (List.getLast?_eq_getLast_of_ne_nil hn)]
      exact Bool.false_ne_true
    have hf : (trim s).dropWhile isWhitespace = trim s := by
      obtain ⟨c, tl, hc⟩ := List.exists_cons_of_ne_nil hne
      rw [hc]
      refine List.dropWhile_cons_of_neg ?_
      rw [head?_trim (s := s) c (by rw [hc]; rfl)]
      exact Bool.false_ne_true
    have he : trimEnd s = a ++ trim s := by
      calc trimEnd s = trimEnd (a ++ (trim s ++ b)) := congrArg trimEnd hs
        _ = trimEnd (a ++ trim s) := by rw [← List.append_assoc, trimEnd_append_blanks hb]
        _ = a ++ trim s := by rw [trimEnd_append (by rwa [trim_trim]), hl]
    rw [he, trimStart, List.dropWhile_append_of_pos ha, hf]

end Trim

theorem trim_trimEnd (s : List Char) : trim (trimEnd s) = trim s := by
  rw [← trimStart_trimEnd (trimEnd s), ← trimStart_trimEnd s]
  exact congrArg trimStart (List.rdropWhile_idempotent isWhitespace s)

-- What begins and ends with no blank is not trimmed off.
theorem infix_dropWhile {p s : List Char} {f : Char → Bool} (hp : ∃ c ∈ p.head?, f c = false) (h : p <:+: s) :
    p <:+: s.dropWhile f := by
  obtain ⟨a, b, rfl⟩ := h
  obtain ⟨c, hc, hf⟩ := hp
  obtain ⟨tl, rfl⟩ := List.head?_eq_some_iff.mp hc
  rw [List.append_assoc, List.dropWhile_append]
  split
  case isTrue =>
    rw [List.cons_append, List.dropWhile_cons_of_neg (by simp [hf])]
    exact List.infix_append [] (c :: tl) b
  case isFalse => exact List.infix_append' _ _ _

theorem infix_trim {p s : List Char} (hh : ∃ c ∈ p.head?, isWhitespace c = false)
    (hl : ∃ c ∈ p.getLast?, isWhitespace c = false)
    (h : p <:+: s) : p <:+: trim s := by
  have hs := infix_dropWhile hh h
  rw [← List.reverse_infix] at hs
  have hr := @infix_dropWhile p.reverse _ isWhitespace (by rwa [List.head?_reverse]) hs
  rw [← List.reverse_infix, List.reverse_reverse] at hr
  exact hr

-- `trim_end_matches` for a single character.
def trimEndMatches (c : Char) (s : List Char) : List Char :=
  (s.reverse.dropWhile (· == c)).reverse

-- `trim_start_matches` for a single character.
def trimStartMatches (c : Char) (s : List Char) : List Char :=
  s.dropWhile (· == c)

def toAsciiLowercase (c : Char) : Char :=
  if 'A' ≤ c ∧ c ≤ 'Z' then Char.ofNat (c.toNat + 32) else c

-- `str::to_ascii_lowercase`.
def asciiLower (s : String) : String :=
  .ofList (s.toList.map toAsciiLowercase)

-- `split` at every occurrence of `c`; the result has one piece more than `s` has occurrences.
def split (c : Char) : List Char → List (List Char)
  | []      => [[]]
  | x :: xs =>
    if x = c then [] :: split c xs
    else match split c xs with
      | []           => [[x]]
      | piece :: tl  => (x :: piece) :: tl

-- The first piece.
theorem headD_split (c : Char) (s d : List Char) :
    c ∉ (split c s).headD d ∧ ∀ x ∈ (split c s).headD d, x ∈ s := by
  induction s
  case nil => simp [split]
  case cons x s hi =>
    rw [split]
    split
    case isTrue => simp
    case isFalse hx =>
      split
      case h_1 => simp [Ne.symm hx]
      case h_2 piece tl hs =>
        rw [hs] at hi
        simp only [List.headD_cons, List.mem_cons, not_or] at hi ⊢
        exact ⟨⟨Ne.symm hx, hi.1⟩, fun y hy => hy.imp_right (hi.2 y)⟩

theorem split_of_not_mem {c : Char} {a : List Char} (h : c ∉ a) : split c a = [a] := by
  induction a
  case nil => rfl
  case cons d a hi =>
    have ⟨hd, ha⟩ := not_or.mp (List.mem_cons.not.mp h)
    simp [split, Ne.symm hd, hi ha]

theorem split_ne_nil (c : Char) (a : List Char) : split c a ≠ [] := by
  fun_cases split c a <;> exact List.cons_ne_nil _ _

theorem split_append_cons (c : Char) (a b : List Char) : split c (a ++ c :: b) = split c a ++ split c b := by
  induction a
  case nil => simp [split]
  case cons d a hi =>
    rw [List.cons_append, split, split, hi]
    split
    case isTrue => rfl
    case isFalse =>
      obtain ⟨piece, tl, hs⟩ := List.exists_cons_of_ne_nil (split_ne_nil c a)
      rw [hs]
      rfl

-- At the seam of two texts a piece of each is put together.
theorem split_append (c : Char) (a b : List Char) : ∃ front last first back, split c a = front ++ [last] ∧
    split c b = first :: back ∧ split c (a ++ b) = front ++ (last ++ first) :: back := by
  obtain ⟨first, back, hb⟩ := List.exists_cons_of_ne_nil (split_ne_nil c b)
  induction a
  case nil => exact ⟨[], [], first, back, rfl, hb, hb⟩
  case cons d a hi =>
    obtain ⟨front, last, _, _, ha, hb', hab⟩ := hi
    obtain ⟨rfl, rfl⟩ := List.cons.inj (hb.symm.trans hb')
    rw [List.cons_append, split, split, hab, ha]
    split
    case isTrue => exact ⟨[] :: front, last, first, back, rfl, hb, rfl⟩
    case isFalse =>
      cases front
      case nil             => exact ⟨[], d :: last, first, back, rfl, hb, rfl⟩
      case cons piece rest => exact ⟨(d :: piece) :: rest, last, first, back, rfl, hb, rfl⟩

theorem infix_of_mem_split {c : Char} {s piece : List Char} (hp : piece ∈ split c s) : piece <:+: s := by
  suffices h : (∀ piece ∈ split c s, piece <:+: s) ∧ ∀ piece ∈ (split c s).head?, piece <+: s from h.1 piece hp
  clear hp
  induction s
  case nil => simp [split]
  case cons x s hi =>
    obtain ⟨first, back, hs⟩ := List.exists_cons_of_ne_nil (split_ne_nil c s)
    rw [hs] at hi
    rw [split, hs]
    split
    case isTrue =>
      refine ⟨?_, by simp⟩
      intro piece hp
      rcases List.mem_cons.mp hp with rfl | hp
      · exact List.nil_infix
      · exact List.infix_cons (hi.1 piece hp)
    case isFalse =>
      have hf : x :: first <+: x :: s := List.cons_prefix_cons.mpr ⟨rfl, hi.2 first rfl⟩
      refine ⟨?_, by simpa using hf⟩
      intro piece hp
      rcases List.mem_cons.mp hp with rfl | hp
      · exact hf.isInfix
      · exact List.infix_cons (hi.1 piece (List.mem_cons_of_mem _ hp))

theorem split_intercalate {c : Char} {ls : List (List Char)} (hne : ls ≠ []) (h : ∀ l ∈ ls, c ∉ l) :
    split c ([c].intercalate ls) = ls := by
  induction ls
  case nil => exact absurd rfl hne
  case cons l ls hi =>
    have hl := h l List.mem_cons_self
    cases ls
    case nil => simpa using split_of_not_mem hl
    case cons l' ls =>
      have hi := hi (List.cons_ne_nil _ _) fun l' hl' => h l' (List.mem_cons_of_mem _ hl')
      have he : [c].intercalate (l :: l' :: ls) = l ++ c :: [c].intercalate (l' :: ls) := by
        simp [List.intercalate]
      rw [he, split_append_cons, hi, split_of_not_mem hl]
      rfl

-- `str::lines`: a line ends with `\n` or `\r\n`, and there is none behind the last end.
def lines (s : List Char) : List (List Char) :=
  let pieces := split '\n' s
  (pieces.dropLast.map fun l => (stripSuffix ['\r'] l).getD l) ++ (pieces.getLast?.filter (· ≠ [])).toList

theorem lines_nil : lines [] = [] :=
  rfl

theorem lines_append {l : List Char} (h : '\n' ∉ l) (s : List Char) :
    lines (l ++ '\n' :: s) = (stripSuffix ['\r'] l).getD l :: lines s := by
  have hne := split_ne_nil '\n' s
  rw [lines, lines, split_append_cons, split_of_not_mem h, List.singleton_append]
  simp only [List.dropLast_cons_of_ne_nil hne, List.getLast?_cons_of_ne_nil hne, List.map_cons, List.cons_append]

-- `split` at every occurrence of the pattern `p`, from left to right. The fuel is the length of the
-- input: every step takes at least one character.
def splitOnCore (p : List Char) : Nat → List Char → List (List Char)
  | 0, s          => [s]
  | _ + 1, []     => [[]]
  | n + 1, c :: s =>
    match stripPrefix p (c :: s) with
    | some rest => [] :: splitOnCore p n rest
    | none      => match splitOnCore p n s with
      | []          => [[c]]
      | piece :: tl => (c :: piece) :: tl

def splitOn (p s : List Char) : List (List Char) :=
  splitOnCore p s.length s

-- `split_once` for a pattern of several characters.
def splitOnceOn (p : List Char) : List Char → Option (List Char × List Char)
  | []     => none
  | c :: s =>
    match stripPrefix p (c :: s) with
    | some rest => some ([], rest)
    | none      => (splitOnceOn p s).map fun (a, b) => (c :: a, b)

-- `contains` for a text.
def contains (p s : List Char) : Bool :=
  decide (p <:+: s)

theorem contains_iff {p s : List Char} : contains p s = true ↔ p <:+: s :=
  decide_eq_true_iff

theorem eq_of_splitOnceOn {p s a b : List Char} (h : splitOnceOn p s = some (a, b)) : s = a ++ (p ++ b) := by
  induction s generalizing a
  case nil => cases h
  case cons c s hi =>
    rw [splitOnceOn] at h
    split at h
    case h_1 rest hr =>
      cases h
      show c :: s = p ++ b
      exact stripPrefix_eq_some_iff.mp hr
    case h_2 =>
      obtain ⟨⟨a', b'⟩, ho, he⟩ := Option.map_eq_some_iff.mp h
      cases he
      exact congrArg (c :: ·) (hi ho)

def splitWhitespace (s : List Char) : List (List Char) :=
  (s.splitOnP isWhitespace).filter (· ≠ [])

theorem splitOnceOn_append {c : Char} {p a : List Char} (h : c ∉ a) (b : List Char) :
    splitOnceOn (c :: p) (a ++ c :: (p ++ b)) = some (a, b) := by
  induction a
  case nil => simp [splitOnceOn, stripPrefix]
  case cons d a hi =>
    have ⟨hd, ha⟩ := not_or.mp (List.mem_cons.not.mp h)
    simp [splitOnceOn, stripPrefix, hd, hi ha]

theorem splitOnceOn_eq_none {c d : Char} {p a : List Char} (h : c ∉ a) :
    splitOnceOn (c :: d :: p) (a ++ [c]) = none := by
  induction a
  case nil => simp [splitOnceOn, stripPrefix]
  case cons e a hi =>
    have ⟨he, ha⟩ := not_or.mp (List.mem_cons.not.mp h)
    simp [splitOnceOn, stripPrefix, he, hi ha]

-- The first piece ends where the pattern begins for the first time.
theorem head?_splitOnCore {c : Char} {p s : List Char} (h : c ∉ s) (rest : List Char) {n : Nat}
    (hn : s.length < n) : (splitOnCore (c :: p) n (s ++ c :: (p ++ rest))).head? = some s := by
  induction s generalizing n
  case nil =>
    cases n
    case zero   => simp at hn
    case succ n => simp [splitOnCore, stripPrefix]
  case cons d s hi =>
    have ⟨hd, hs⟩ := not_or.mp (List.mem_cons.not.mp h)
    cases n
    case zero   => simp at hn
    case succ n =>
      have hi := hi hs (n := n) (by simpa using hn)
      simp only [List.cons_append, splitOnCore, stripPrefix, hd, if_false]
      cases hp : splitOnCore (c :: p) n (s ++ c :: (p ++ rest)) <;> simp_all

theorem head?_splitOn {c : Char} {p s : List Char} (h : c ∉ s) (rest : List Char) :
    (splitOn (c :: p) (s ++ c :: (p ++ rest))).head? = some s :=
  head?_splitOnCore h rest (by simp)

theorem splitWhitespace_word {w : List Char} (hw : w ≠ []) (h : ∀ c ∈ w, isWhitespace c = false)
    {sep : Char} (hs : isWhitespace sep = true) (rest : List Char) :
    splitWhitespace (w ++ sep :: rest) = w :: splitWhitespace rest := by
  simp only [splitWhitespace]
  rw [List.splitOnP_append_cons_of_forall_mem h sep hs]
  simp [hw]

section Numbers

-- `char::to_digit`.
def toDigit (radix : Nat) (c : Char) : Option Nat :=
  let n := c.toNat
  if 48 ≤ n ∧ n ≤ 57 ∧ n - 48 < radix then some (n - 48)
  else if 97 ≤ n ∧ n ≤ 122 ∧ n - 87 < radix then some (n - 87)
  else if 65 ≤ n ∧ n ≤ 90 ∧ n - 55 < radix then some (n - 55)
  else none

-- The longest run of digits at the start of the input, and the rest.
def spanDigits (radix : Nat) : List Char → List Nat × List Char
  | []      => ([], [])
  | c :: cs =>
    match toDigit radix c with
    | none   => ([], c :: cs)
    | some d => ((d :: (spanDigits radix cs).1), (spanDigits radix cs).2)

theorem mem_of_mem_spanDigits {radix : Nat} {c : Char} {s : List Char} (h : c ∈ (spanDigits radix s).2) : c ∈ s := by
  induction s
  case nil => cases h
  case cons d s hi =>
    rw [spanDigits] at h
    split at h
    case h_1 => exact h
    case h_2 => exact List.mem_cons_of_mem _ (hi h)

def ofDigits (radix : Nat) (ds : List Nat) : Nat :=
  ds.foldl (fun acc d => acc * radix + d) 0

-- `from_str_radix` of the unsigned integer type with `bound` values.
def fromStrRadix (radix bound : Nat) (s : List Char) : Option Nat :=
  let digits := match s with
    | '+' :: ds => ds
    | ds        => ds
  match digits, spanDigits radix digits with
  | _ :: _, (ds, []) => if ofDigits radix ds < bound then some (ofDigits radix ds) else none
  | _, _             => none

-- `str::parse` for the unsigned integer type with `bound` values.
def parseUnsigned (bound : Nat) (s : List Char) : Option Nat :=
  let digits := match s with
    | '+' :: ds => ds
    | ds        => ds
  match digits, spanDigits 10 digits with
  | _ :: _, (ds, []) => if ofDigits 10 ds < bound then some (ofDigits 10 ds) else none
  | _, _             => none

def decimal (n : Nat) : List Char :=
  Nat.toDigits 10 n

theorem digit_of_mem_decimal {n : Nat} {c : Char} (h : c ∈ decimal n) : c.isDigit = true :=
  Nat.isDigit_of_mem_toDigits (by decide) (by decide) h

theorem not_mem_decimal {c : Char} (h : c.isDigit = false) (n : Nat) : c ∉ decimal n :=
  fun hc => by simp [digit_of_mem_decimal hc] at h

theorem head?_decimal_append {c : Char} (h : c.isDigit = false) (n : Nat) (s : List Char) :
    (decimal n ++ s).head? ≠ some c := by
  intro hc
  rw [decimal, List.head?_append_of_ne_nil _ Nat.toDigits_ne_nil] at hc
  have := Nat.isDigit_of_mem_toDigits (by decide) (by decide) (List.mem_of_head? hc)
  exact absurd this (by simp [h])

theorem getLast?_append_decimal {c : Char} (h : c.isDigit = false) (s : List Char) (n : Nat) :
    (s ++ decimal n).getLast? ≠ some c := by
  intro hc
  rw [decimal, List.getLast?_append_of_ne_nil _ Nat.toDigits_ne_nil] at hc
  have := Nat.isDigit_of_mem_toDigits (by decide) (by decide) (List.mem_of_getLast? hc)
  exact absurd this (by simp [h])

def hex (n : Nat) : List Char :=
  Nat.toDigits 16 n

theorem toDigit_digitChar {radix d : Nat} (h : d < radix) (hr : radix ≤ 16) :
    toDigit radix d.digitChar = some d := by
  have hd : d < 16 := by omega
  interval_cases d <;> simp [toDigit, Nat.digitChar, h]

theorem spanDigits_append {radix : Nat} {cs rest : List Char} {ds : List Nat}
    (h : List.Forall₂ (fun c d => toDigit radix c = some d) cs ds)
    (hr : ∀ c ∈ rest.head?, toDigit radix c = none) :
    spanDigits radix (cs ++ rest) = (ds, rest) := by
  induction h
  case nil =>
    cases rest <;> simp [spanDigits]
    case cons c tl => simp [hr c (by simp)]
  case cons hd _ hi => simp [spanDigits, hd, hi]

theorem ofDigits_append (radix : Nat) (ds : List Nat) (d : Nat) :
    ofDigits radix (ds ++ [d]) = ofDigits radix ds * radix + d := by
  simp [ofDigits]

theorem exists_digits_toDigits {radix : Nat} (hb : 1 < radix) (hr : radix ≤ 16) (n : Nat) :
    ∃ ds, List.Forall₂ (fun c d => toDigit radix c = some d) (Nat.toDigits radix n) ds ∧
      ofDigits radix ds = n := by
  induction n using Nat.strong_induction_on
  case h n hi =>
    rw [Nat.toDigits_eq_if hb]
    split
    case isTrue h => exact ⟨[n], by simp [toDigit_digitChar h hr], by simp [ofDigits]⟩
    case isFalse h =>
      have ⟨ds, hd, he⟩ := hi (n / radix) (Nat.div_lt_self (by omega) hb)
      have hm := toDigit_digitChar (Nat.mod_lt n (by omega : 0 < radix)) hr
      refine ⟨ds ++ [n % radix], List.rel_append hd (by simp [hm]), ?_⟩
      rw [ofDigits_append, he, Nat.mul_comm]
      exact Nat.div_add_mod n radix

theorem parseUnsigned_decimal {bound n : Nat} (h : n < bound) :
    parseUnsigned bound (decimal n) = some n := by
  have ⟨ds, hd, hn⟩ := @exists_digits_toDigits 10 (by decide) (by decide) n
  have hs : spanDigits 10 (decimal n) = (ds, []) := by
    have := @spanDigits_append 10 (decimal n) [] ds hd (by simp)
    simpa using this
  have hp : (decimal n).head? ≠ some '+' := by
    simpa using head?_decimal_append (c := '+') (by decide) n []
  cases hc : decimal n
  case nil => exact absurd hc Nat.toDigits_ne_nil
  case cons c cs =>
    have hc' : c ≠ '+' := by simpa [hc] using hp
    rw [hc] at hs
    simp [parseUnsigned, hc', hs, hn, h]

theorem spanDigits_append_ne_nil {radix : Nat} {c : Char} (h : toDigit radix c = none) (s : List Char) :
    (spanDigits radix (s ++ [c])).2 ≠ [] := by
  induction s
  case nil => simp [spanDigits, h]
  case cons d s hi =>
    rw [List.cons_append, spanDigits]
    cases toDigit radix d
    case none => exact List.cons_ne_nil _ _
    case some => exact hi

-- What is read as a number ends with a digit.
theorem parseUnsigned_append {bound : Nat} {c : Char} (h : toDigit 10 c = none) (s : List Char) :
    parseUnsigned bound (s ++ [c]) = none := by
  have hall (t : List Char) (ht : t = [] ∨ ∃ u, t = u ++ [c]) :
      (match t, spanDigits 10 t with
        | _ :: _, (ds, []) => if ofDigits 10 ds < bound then some (ofDigits 10 ds) else none
        | _, _             => none) = none := by
    split
    case h_2 => rfl
    case h_1 hs =>
      rcases ht with ht | ⟨u, hu⟩
      · cases ht
      · rw [hu] at hs
        exact absurd (congrArg Prod.snd hs) (spanDigits_append_ne_nil h u)
  refine hall _ ?_
  split
  case h_2 => exact .inr ⟨s, rfl⟩
  case h_1 ds he =>
    rcases s with _ | ⟨d, s⟩
    · cases he
      exact .inl rfl
    · cases he
      exact .inr ⟨s, rfl⟩

theorem lt_of_parseUnsigned {bound n : Nat} {s : List Char} (h : parseUnsigned bound s = some n) : n < bound := by
  simp only [parseUnsigned] at h
  split at h
  case h_1 =>
    obtain ⟨hlt, he⟩ := Option.ite_none_right_eq_some.mp h
    exact Option.some.inj he ▸ hlt
  case h_2 => cases h

end Numbers
section

variable {α : Type} {p : α → Bool}

-- The piece behind the last element of a kind.
def afterLast (p : α → Bool) (s : List α) : List α :=
  (s.reverse.takeWhile fun a => !p a).reverse

theorem not_of_mem_afterLast {s : List α} {a : α} (h : a ∈ afterLast p s) : p a = false := by
  have := List.all_takeWhile (p := fun a => !p a) (l := s.reverse)
  rw [List.all_eq_true] at this
  simpa using this a (List.mem_reverse.mp h)

theorem afterLast_append {a t : List α} {x : α} (hx : p x = true) (ht : ∀ y ∈ t, p y = false) :
    afterLast p (a ++ x :: t) = t := by
  have hall : ∀ y ∈ t.reverse, (!p y) = true := fun y hy => by simp [ht y (List.mem_reverse.mp hy)]
  rw [afterLast, List.reverse_append, List.reverse_cons, List.append_assoc,
    List.takeWhile_append_of_pos hall, List.singleton_append, List.takeWhile_cons_of_neg (by simp [hx]),
    List.append_nil, List.reverse_reverse]

theorem exists_afterLast {s : List α} {y : α} (hy : y ∈ s) (h : p y = true) :
    ∃ a x, p x = true ∧ s = a ++ x :: afterLast p s := by
  have hs := List.takeWhile_append_dropWhile (p := fun a => !p a) (l := s.reverse)
  cases hd : s.reverse.dropWhile fun a => !p a
  case nil =>
    rw [hd, List.append_nil] at hs
    have hall := List.all_takeWhile (p := fun a => !p a) (l := s.reverse)
    rw [hs, List.all_eq_true] at hall
    exact absurd (hall y (List.mem_reverse.mpr hy)) (by simp [h])
  case cons x a =>
    have hx := List.head?_dropWhile_not (p := fun a => !p a) (l := s.reverse)
    rw [hd] at hx hs
    refine ⟨a.reverse, x, by simpa using hx, ?_⟩
    have := congrArg List.reverse hs
    rw [List.reverse_reverse, List.reverse_append, List.reverse_cons, List.append_assoc] at this
    exact this.symm

theorem afterLast_append_of_mem {s : List α} {y : α} (hy : y ∈ s) (h : p y = true) (pre : List α) :
    afterLast p (pre ++ s) = afterLast p s := by
  have ⟨a, x, hx, hs⟩ := exists_afterLast hy h
  have hfree : ∀ y ∈ afterLast p s, p y = false := fun _ => not_of_mem_afterLast
  have := @afterLast_append _ p (pre ++ a) _ x hx hfree
  rwa [List.append_assoc, ← hs] at this

end

end Text
