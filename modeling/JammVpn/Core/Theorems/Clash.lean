import JammVpn.Core.Parse.Clash

-- How the lines of a section are collected.
namespace JammVpn.Clash

open Text

section Pairs

variable {s : List Char}

theorem within_iff {left right : Char} {inner : List Char} :
    within left right s = some inner ↔ s = left :: (inner ++ [right]) := by
  rw [within, Option.bind_eq_some_iff]
  constructor
  case mp =>
    rintro ⟨t, ht, hi⟩
    rw [stripPrefix_eq_some_iff.mp ht, stripSuffix_eq_some_iff.mp hi]
    rfl
  case mpr =>
    rintro rfl
    exact ⟨inner ++ [right], stripPrefix_append [left] _, stripSuffix_append _ _⟩

theorem within_eq_none {left right : Char} (h : s.head? ≠ some left) : within left right s = none := by
  rw [within, stripPrefix_single_eq_none h]
  rfl

theorem foldl_pushKv (pieces : List (List Char)) (out : Item) :
    pieces.foldl (fun out piece => pushKv piece out) out = out ++ pieces.filterMap keyValue := by
  induction pieces generalizing out
  case nil => rw [List.filterMap_nil, List.append_nil, List.foldl_nil]
  case cons piece pieces hi =>
    rw [List.foldl_cons, hi, pushKv, List.append_assoc]
    cases hk : keyValue piece
    case none   => rw [List.filterMap_cons_none hk, Option.toList_none, List.nil_append]
    case some p => rw [List.filterMap_cons_some hk, Option.toList_some, List.singleton_append]

theorem firstPairs_flow (inner : List Char) :
    firstPairs (trim ('{' :: (inner ++ ['}']))) = (flowPieces 0 inner).filterMap keyValue := by
  have ht : trim ('{' :: (inner ++ ['}'])) = '{' :: (inner ++ ['}']) := by
    refine trim_eq_self (fun c hc => ?_) fun c hc => ?_
    · cases hc
      decide
    · rw [← List.cons_append, List.getLast?_append_of_ne_nil _ (List.cons_ne_nil _ _)] at hc
      cases hc
      decide
  rw [ht, firstPairs, within_iff.mpr rfl]
  simp only [parseFlowMap]
  rw [foldl_pushKv, List.nil_append]

-- Blanks around a pair make no difference.
theorem keyValue_trim (s : List Char) : keyValue (trim s) = keyValue s := by
  obtain ⟨a, b, hs, ha, hb⟩ := exists_trim s
  have hcolon : ∀ w : List Char, (∀ c ∈ w, isWhitespace c = true) → ':' ∉ w := fun w hw hm =>
    absurd (hw _ hm) (by decide)
  cases ho : splitOnce ':' (trim s)
  case none =>
    have hn : ':' ∉ s := by
      rw [hs, List.mem_append, List.mem_append, not_or, not_or]
      exact ⟨hcolon a ha, not_mem_of_splitOnce ho, hcolon b hb⟩
    rw [keyValue, ho, keyValue, splitOnce_eq_none hn]
  case some p =>
    obtain ⟨k, v⟩ := p
    obtain ⟨ht, hk⟩ := splitOnce_eq_some_iff.mp ho
    have hk' : ':' ∉ a ++ k := by
      rw [List.mem_append, not_or]
      exact ⟨hcolon a ha, hk⟩
    have hs' : s = (a ++ k) ++ ':' :: (v ++ b) := by
      rw [hs, ht]
      simp
    have ho' : splitOnce ':' s = some (a ++ k, v ++ b) := by
      rw [hs']
      exact splitOnce_append hk' _
    rw [keyValue, ho, keyValue, ho']
    simp only [trim_blanks_append ha, trim_append_blanks hb]

theorem pushKv_trim (s : List Char) (out : Item) : pushKv (trim s) out = pushKv s out := by
  rw [pushKv, keyValue_trim, pushKv]

end Pairs

section Rows

-- A line: its indentation, and what is behind it.
def row (n : Nat) (text : List Char) : List Char :=
  List.replicate n ' ' ++ text

variable {base n : Nat} {items : List Item} {cur : Option Item} {raw text : List Char} {ls : List (List Char)}

theorem trim_row (n : Nat) (text : List Char) : trim (row n text) = trim text :=
  trim_blanks_append (fun c hc => by rw [List.eq_of_mem_replicate hc]; decide) text

theorem indent_row (ht : text.head? ≠ some ' ') : indent (row n text) = n := by
  have hs : ∀ c ∈ List.replicate n ' ', (c == ' ') = true := fun c hc => by
    rw [List.eq_of_mem_replicate hc]
    rfl
  have htl : text.takeWhile (· == ' ') = [] := by
    cases text
    case nil => rfl
    case cons c tl => exact List.takeWhile_cons_of_neg fun hc => ht (by rw [beq_iff_eq.mp hc]; rfl)
  rw [row, indent, List.takeWhile_append_of_pos hs, htl, List.append_nil, List.length_replicate]

theorem indent_trimEnd_row (ht : text.head? ≠ some ' ') (hne : trim text ≠ []) :
    indent (trimEnd (row n text)) = n := by
  rw [row, trimEnd_append hne]
  refine indent_row fun hh => ht ?_
  obtain ⟨b, hb⟩ : trimEnd text <+: text := List.rdropWhile_prefix isWhitespace text
  obtain ⟨tl, he⟩ := List.head?_eq_some_iff.mp hh
  rw [← hb, he]
  rfl

-- What one line does, by what it is without the blanks around it.
theorem collect_cons (base : Nat) (items : List Item) (cur : Option Item) (raw : List Char) (ls : List (List Char)) :
    collect base items cur (raw :: ls) =
      if trim raw = [] ∨ (trim raw).head? = some '#' then collect base items cur ls
      else if indent (trimEnd raw) ≤ base ∧ (trim raw).head? ≠ some '-' then items ++ cur.toList
      else
        match stripPrefix ['-'] (trim raw) with
        | some rest => collect base (items ++ cur.toList) (some (firstPairs (trim rest))) ls
        | none      => collect base items (cur.map (pushKv (trim raw))) ls := by
  rw [collect, trimStart_trimEnd]
  exact if_congr (or_congr_left List.isEmpty_iff) rfl rfl

theorem collect_skip (h : trim raw = [] ∨ (trim raw).head? = some '#') :
    collect base items cur (raw :: ls) = collect base items cur ls := by
  rw [collect_cons, if_pos h]

theorem collect_end (hne : trim text ≠ []) (hh : (trim text).head? ≠ some '#') (hd : (trim text).head? ≠ some '-')
    (ht : text.head? ≠ some ' ') (hn : n ≤ base) : collect base items cur (row n text :: ls) = items ++ cur.toList := by
  rw [collect_cons, trim_row, if_neg (not_or.mpr ⟨hne, hh⟩), indent_trimEnd_row ht hne, if_pos ⟨hn, hd⟩]

theorem collect_dash {rest : List Char} (h : trim raw = '-' :: rest) : collect base items cur (raw :: ls) =
    collect base (items ++ cur.toList) (some (firstPairs (trim rest))) ls := by
  rw [collect_cons, h, if_neg (by simp), if_neg (by simp)]
  have hs : stripPrefix ['-'] ('-' :: rest) = some rest := stripPrefix_append ['-'] _
  rw [hs]

theorem collect_element (rest : List Char) : collect base items cur (row n ('-' :: rest) :: ls) =
    collect base (items ++ cur.toList) (some (firstPairs (trim rest))) ls := by
  have ht : trim ('-' :: rest) = '-' :: trimEnd rest := by
    have hs : trimStart ('-' :: rest) = ['-'] ++ rest := rfl
    rw [← trimEnd_trimStart, hs]
    by_cases hb : trim rest = []
    case pos =>
      have he : trimEnd rest = [] := List.rdropWhile_eq_nil_iff.mpr (trim_eq_nil_iff.mp hb)
      rw [trimEnd_append_blanks (trim_eq_nil_iff.mp hb), he]
      rfl
    case neg => rw [trimEnd_append hb]; rfl
  rw [collect_dash ((trim_row n _).trans ht), trim_trimEnd]

theorem collect_pair (hne : trim text ≠ []) (hh : (trim text).head? ≠ some '#') (hd : (trim text).head? ≠ some '-')
    (ht : text.head? ≠ some ' ') (hn : base < n) :
    collect base items cur (row n text :: ls) = collect base items (cur.map (pushKv text)) ls := by
  have hp : pushKv (trim text) = pushKv text := funext (pushKv_trim text)
  rw [collect_cons, trim_row, if_neg (not_or.mpr ⟨hne, hh⟩), indent_trimEnd_row ht hne, if_neg (by omega),
    stripPrefix_single_eq_none hd, hp]

-- What was collected before stays in front.
theorem collect_eq_append (base : Nat) (items : List Item) (cur : Option Item) (ls : List (List Char)) :
    collect base items cur ls = items ++ collect base [] cur ls := by
  induction ls generalizing items cur
  case nil => rfl
  case cons raw ls hi =>
    rw [collect_cons, collect_cons]
    split
    case isTrue => exact hi items cur
    split
    case isTrue => rfl
    split
    case h_1 =>
      rw [hi (items ++ cur.toList), hi ([] ++ cur.toList)]
      simp
    case h_2 => exact hi items _

-- An entry that has begun is not lost.
theorem collect_ne_nil (base : Nat) (items : List Item) (it : Item) (ls : List (List Char)) :
    collect base items (some it) ls ≠ [] := by
  induction ls generalizing items it
  case nil => exact List.append_ne_nil_of_right_ne_nil _ (List.cons_ne_nil _ _)
  case cons raw ls hi =>
    rw [collect_cons]
    split
    case isTrue => exact hi items it
    split
    case isTrue => exact List.append_ne_nil_of_right_ne_nil _ (List.cons_ne_nil _ _)
    split
    case h_1 => exact hi _ _
    case h_2 => exact hi _ _

end Rows

section Document

-- Lines with their ends.
def unlines (ls : List (List Char)) : List Char :=
  ls.flatMap (· ++ ['\n'])

theorem lines_unlines {ls : List (List Char)} (h : ∀ l ∈ ls, '\n' ∉ l ∧ l.getLast? ≠ some '\r') :
    lines (unlines ls) = ls := by
  induction ls
  case nil => rfl
  case cons l ls hi =>
    obtain ⟨hl, hr⟩ := h l List.mem_cons_self
    have he : unlines (l :: ls) = l ++ '\n' :: unlines ls := by simp [unlines]
    rw [he, lines_append hl, stripSuffix_single_eq_none hr, Option.getD_none,
      hi fun l' hl' => h l' (List.mem_cons_of_mem _ hl')]

end Document
end JammVpn.Clash
