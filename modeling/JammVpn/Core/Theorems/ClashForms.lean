import JammVpn.Core.Theorems.Clash

-- An entry with a pair on a line each, and in a flow map.
namespace JammVpn.Clash

open Text

section Pieces

variable {a b : List Char} {d : Int}

-- The brackets that are open; quotes are not looked at.
def bracket (d : Int) (c : Char) : Int :=
  if c = '[' ∨ c = '{' then d + 1 else if c = ']' ∨ c = '}' then d - 1 else d

def depthAfter (d : Int) (s : List Char) : Int :=
  s.foldl bracket d

-- No comma is where no bracket is open.
def Uncut (d : Int) : List Char → Prop
  | []      => True
  | c :: cs => (c = ',' → d ≠ 0) ∧ Uncut (bracket d c) cs

instance decUncut : (d : Int) → (s : List Char) → Decidable (Uncut d s)
  | _, []      => isTrue trivial
  | d, c :: cs =>
    have := decUncut (bracket d c) cs
    inferInstanceAs (Decidable ((c = ',' → d ≠ 0) ∧ Uncut (bracket d c) cs))

-- The text in front of the first piece.
def prepend (a : List Char) : List (List Char) → List (List Char)
  | []          => [a]
  | piece :: tl => (a ++ piece) :: tl

theorem flowPieces_ne_nil (d : Int) (s : List Char) : flowPieces d s ≠ [] := by
  fun_cases flowPieces d s <;> exact List.cons_ne_nil _ _

theorem flowPieces_comma (s : List Char) : flowPieces 0 (',' :: s) = [] :: flowPieces 0 s :=
  if_pos ⟨rfl, rfl⟩

theorem flowPieces_cons {c : Char} (h : c = ',' → d ≠ 0) (s : List Char) :
    flowPieces d (c :: s) = prepend [c] (flowPieces (bracket d c) s) := by
  obtain ⟨piece, tl, hs⟩ := List.exists_cons_of_ne_nil (flowPieces_ne_nil (bracket d c) s)
  rw [flowPieces, if_neg fun hc => h hc.1 hc.2]
  show (match flowPieces (bracket d c) s with
    | []          => [[c]]
    | piece :: tl => (c :: piece) :: tl) = _
  rw [hs]
  rfl

theorem flowPieces_append (h : Uncut d a) (b : List Char) :
    flowPieces d (a ++ b) = prepend a (flowPieces (depthAfter d a) b) := by
  induction a generalizing d
  case nil =>
    obtain ⟨piece, tl, hs⟩ := List.exists_cons_of_ne_nil (flowPieces_ne_nil d b)
    rw [depthAfter, List.foldl_nil, List.nil_append, hs]
    rfl
  case cons c a hi =>
    rw [List.cons_append, flowPieces_cons h.1, hi h.2]
    obtain ⟨piece, tl, hs⟩ := List.exists_cons_of_ne_nil (flowPieces_ne_nil (depthAfter (bracket d c) a) b)
    rw [show depthAfter d (c :: a) = depthAfter (bracket d c) a from rfl, hs]
    rfl

-- Without brackets and commas nothing changes.
theorem uncut_of_plain (h : ∀ c ∈ a, c ∉ [',', '[', ']', '{', '}']) (d : Int) : Uncut d a ∧ depthAfter d a = d := by
  induction a
  case nil => exact ⟨trivial, rfl⟩
  case cons c a hi =>
    have hc : c ≠ ',' ∧ c ≠ '[' ∧ c ≠ ']' ∧ c ≠ '{' ∧ c ≠ '}' := by simpa using h c List.mem_cons_self
    have hb : bracket d c = d := by simp [bracket, hc]
    have hi := hi fun c' hc' => h c' (List.mem_cons_of_mem _ hc')
    rw [Uncut, depthAfter, List.foldl_cons, hb]
    exact ⟨⟨fun he => absurd he hc.1, hi.1⟩, hi.2⟩

theorem uncut_append : Uncut d (a ++ b) ↔ Uncut d a ∧ Uncut (depthAfter d a) b := by
  induction a generalizing d
  case nil => simp [Uncut, depthAfter]
  case cons c a hi =>
    rw [List.cons_append, Uncut, Uncut, hi, and_assoc]
    rfl

theorem depthAfter_append (d : Int) (a b : List Char) : depthAfter d (a ++ b) = depthAfter (depthAfter d a) b :=
  List.foldl_append

-- The first comma outside of the brackets.
theorem exists_of_not_uncut (h : ¬Uncut d a) : ∃ x y, a = x ++ ',' :: y ∧ Uncut d x ∧ depthAfter d x = 0 := by
  induction a generalizing d
  case nil => exact absurd trivial h
  case cons c a hi =>
    by_cases hc : c = ',' → d ≠ 0
    case neg =>
      obtain ⟨rfl, hd⟩ := Classical.not_imp.mp hc
      exact ⟨[], a, rfl, trivial, not_not.mp hd⟩
    case pos =>
      obtain ⟨x, y, rfl, hx, hd⟩ := hi fun hu => h ⟨hc, hu⟩
      exact ⟨c :: x, y, rfl, ⟨hc, hx⟩, hd⟩

end Pieces

section Unquote

theorem count_trim (s : List Char) : (trim s).count ',' = s.count ',' := by
  obtain ⟨a, b, hs, ha, hb⟩ := exists_trim s
  have hz : ∀ w : List Char, (∀ c ∈ w, isWhitespace c = true) → w.count ',' = 0 := fun w hw =>
    List.count_eq_zero.mpr fun hm => absurd (hw _ hm) (by decide)
  conv => rhs; rw [hs]
  rw [List.count_append, List.count_append, hz a ha, hz b hb, Nat.zero_add, Nat.add_zero]

-- The quotes are no commas.
theorem count_unquote (s : List Char) : (unquote s).count ',' = s.count ',' := by
  have hq : ∀ (q : Char) (t : List Char), q ≠ ',' → 2 ≤ t.length → t.head? = some q → t.getLast? = some q →
      t.tail.dropLast.count ',' = t.count ',' := by
    intro q t hq hl hh hr
    obtain ⟨tl, rfl⟩ := List.head?_eq_some_iff.mp hh
    have hne : tl ≠ [] := by
      rintro rfl
      simp at hl
    rw [List.getLast?_cons_of_ne_nil hne] at hr
    obtain ⟨m, rfl⟩ := List.getLast?_eq_some_iff.mp hr
    simp [List.count_append, hq]
  rw [← count_trim s, unquote]
  split
  case isFalse => rfl
  case isTrue h =>
    rcases h.2 with ⟨hh, hl⟩ | ⟨hh, hl⟩
    · exact hq _ _ (by decide) h.1 hh hl
    · exact hq _ _ (by decide) h.1 hh hl

theorem unquote_trim (s : List Char) : unquote (trim s) = unquote s := by
  rw [unquote, unquote, trim_trim]

theorem keyValue_of {key v : List Char} (hk : trim key = key) (hne : key ≠ []) (hc : ':' ∉ key)
    (hv : ∀ c ∈ (trim v).head?, c ≠ '[' ∧ c ≠ '{') :
    keyValue (key ++ ':' :: v) = some (.ofList key, .ofList (unquote v)) := by
  have hlist : within '[' ']' (trim v) = none := within_eq_none fun h => (hv _ h).1 rfl
  have hmap : (trim v).head? ≠ some '{' := fun h => (hv _ h).2 rfl
  simp only [keyValue, splitOnce_append hc, hk, List.isEmpty_eq_false_iff.mpr hne, Bool.false_eq_true, if_false,
    hlist, hmap, unquote_trim]

end Unquote
-- A key and a scalar, which is in quotes if it has any of these characters.
def special : List Char :=
  [',', ':', '[', ']', '{', '}']

structure Pair where
  key      : List Char
  value    : List Char
  trimmed  : trim key = key
  nonempty : key ≠ []
  noMark   : key.head? ≠ some '#'
  plain    : ∀ c ∈ key, c ∉ special
  single   : ∀ c ∈ key ++ value, c ≠ '\n' ∧ c ≠ '\r'
  scalar   : (∃ q body, (q = '"' ∨ q = '\'') ∧ value = q :: (body ++ [q])) ∨ ∀ c ∈ value, c ∉ special

namespace Pair

variable (p : Pair)

def text : List Char :=
  p.key ++ ':' :: ' ' :: p.value

def pair : String × String :=
  (.ofList p.key, .ofList (unquote p.value))

theorem head_quoted {q : Char} (hq : q = '"' ∨ q = '\'') (a : List Char) :
    ∀ c ∈ (trim (' ' :: q :: a)).head?, c ≠ '[' ∧ c ≠ '{' := by
  intro c hc
  have hb : isWhitespace q = false := by rcases hq with rfl | rfl <;> decide
  rw [trim_cons_blank (by decide)] at hc
  cases (head?_trim_cons hb a).symm.trans hc
  rcases hq with rfl | rfl <;> decide

theorem front {a b : List Char} (h : p.value = a ++ b) :
    ∀ c ∈ (trim (' ' :: a)).head?, c ≠ '[' ∧ c ≠ '{' := by
  rcases p.scalar with ⟨q, body, hq, hv⟩ | hp
  · rw [h] at hv
    cases a
    case nil => exact fun c hc => by cases hc
    case cons x a =>
      obtain ⟨rfl, -⟩ := List.cons.inj hv
      exact head_quoted hq a
  · intro c hc
    rw [trim_cons_blank (by decide)] at hc
    have := hp c (by rw [h]; exact List.mem_append_left _ (mem_of_mem_trim (List.mem_of_head? hc)))
    simp only [special, List.mem_cons, not_or] at this
    exact ⟨this.2.2.1, this.2.2.2.2.1⟩

theorem colon_not_mem : ':' ∉ p.key :=
  fun h => p.plain _ h (by decide)

theorem keyValue_text : keyValue p.text = some p.pair := by
  rw [text, keyValue_of p.trimmed p.nonempty p.colon_not_mem (p.front (List.append_nil _).symm), pair,
    ← unquote_trim (' ' :: p.value), trim_cons_blank (by decide), unquote_trim]

theorem uncut_behind_key (x : List Char) : (Uncut 0 (p.key ++ ':' :: ' ' :: x) ↔ Uncut 0 x) ∧
    depthAfter 0 (p.key ++ ':' :: ' ' :: x) = depthAfter 0 x := by
  have hk : ∀ c ∈ p.key ++ [':', ' '], c ∉ [',', '[', ']', '{', '}'] := by
    intro c hc
    rcases List.mem_append.mp hc with hc | hc
    · have := p.plain c hc
      simp only [special, List.mem_cons, not_or] at this
      simp [this]
    · rcases List.mem_cons.mp hc with rfl | hc
      · decide
      · rw [List.mem_singleton.mp hc]
        decide
  obtain ⟨hu, hd⟩ := uncut_of_plain hk 0
  have ht : p.key ++ ':' :: ' ' :: x = (p.key ++ [':', ' ']) ++ x := by simp
  rw [ht, uncut_append, hd, depthAfter_append, hd]
  exact ⟨and_iff_right hu, rfl⟩

theorem pair_ne {v : List Char} (h : v.count ',' ≠ p.value.count ',') :
    (String.ofList p.key, String.ofList (unquote v)) ≠ p.pair := by
  intro he
  have := congrArg String.toList (Prod.ext_iff.mp he).2
  rw [String.toList_ofList, pair, String.toList_ofList] at this
  exact h (by rw [← count_unquote v, this, count_unquote])

-- A comma of the value that is taken for the end of the pair.
theorem keyValue_cut {x y : List Char} (h : p.value = x ++ ',' :: y) :
    ∃ r, keyValue (p.key ++ ':' :: ' ' :: x) = some r ∧ r ≠ p.pair := by
  refine ⟨_, keyValue_of p.trimmed p.nonempty p.colon_not_mem (p.front h), p.pair_ne ?_⟩
  rw [h, List.count_cons_of_ne (by decide), List.count_append, List.count_cons_self]
  omega

-- The comma behind the pair taken for a part of the value.
theorem keyValue_joined (hd : depthAfter 0 p.value ≠ 0) (w : List Char) :
    ∃ r, keyValue (p.text ++ ',' :: w) = some r ∧ r ≠ p.pair := by
  have hv : ∀ c ∈ (trim (' ' :: (p.value ++ ',' :: w))).head?, c ≠ '[' ∧ c ≠ '{' := by
    rcases p.scalar with ⟨q, body, hq, hv⟩ | hp
    · rw [hv]
      exact head_quoted hq _
    · refine absurd (uncut_of_plain (fun c hc hm => hp c hc ?_) 0).2 hd
      simp only [special, List.mem_cons, List.not_mem_nil, or_false] at hm ⊢
      tauto
  have ht : p.text ++ ',' :: w = p.key ++ ':' :: (' ' :: (p.value ++ ',' :: w)) := by simp [text]
  rw [ht]
  refine ⟨_, keyValue_of p.trimmed p.nonempty p.colon_not_mem hv, p.pair_ne ?_⟩
  rw [List.count_cons_of_ne (by decide), List.count_append, List.count_cons_self]
  omega

end Pair

section Flow

-- The text between the braces.
def inner (ps : List Pair) : List Char :=
  [',', ' '].intercalate (ps.map Pair.text)

-- What the cuts at the commas leave as it is.
def Intact (ps : List Pair) : Prop :=
  (∀ p ∈ ps, Uncut 0 p.value) ∧ ∀ p ∈ ps.dropLast, depthAfter 0 p.value = 0

instance (ps : List Pair) : Decidable (Intact ps) :=
  inferInstanceAs (Decidable ((∀ p ∈ ps, Uncut 0 p.value) ∧ ∀ p ∈ ps.dropLast, depthAfter 0 p.value = 0))

theorem intact_cons (p q : Pair) (ps : List Pair) :
    Intact (p :: q :: ps) ↔ (Uncut 0 p.value ∧ depthAfter 0 p.value = 0) ∧ Intact (q :: ps) := by
  have hd : (∀ r ∈ (p :: q :: ps).dropLast, depthAfter 0 r.value = 0) ↔
      depthAfter 0 p.value = 0 ∧ ∀ r ∈ (q :: ps).dropLast, depthAfter 0 r.value = 0 := by
    rw [List.dropLast_cons_cons]
    exact List.forall_mem_cons
  rw [Intact, Intact, hd, List.forall_mem_cons]
  exact and_and_and_comm

theorem inner_singleton (p : Pair) : inner [p] = p.text :=
  List.intercalate_singleton

theorem inner_cons (p q : Pair) (ps : List Pair) : inner (p :: q :: ps) = p.text ++ ',' :: ' ' :: inner (q :: ps) := by
  simp [inner, List.intercalate]

theorem filterMap_space (s : List Char) :
    (flowPieces 0 (' ' :: s)).filterMap keyValue = (flowPieces 0 s).filterMap keyValue := by
  obtain ⟨piece, tl, hs⟩ := List.exists_cons_of_ne_nil (flowPieces_ne_nil 0 s)
  have hp : keyValue (' ' :: piece) = keyValue piece := by
    rw [← keyValue_trim, trim_cons_blank (by decide), keyValue_trim]
  rw [flowPieces_cons (by decide), show bracket 0 ' ' = 0 from rfl, hs]
  show List.filterMap keyValue ((' ' :: piece) :: tl) = _
  rw [List.filterMap_cons, hp, List.filterMap_cons]

theorem flowPieces_text {p : Pair} (h : Uncut 0 p.value) (r : List Char) :
    flowPieces 0 (p.text ++ r) = prepend p.text (flowPieces (depthAfter 0 p.value) r) := by
  obtain ⟨hu, hd⟩ := p.uncut_behind_key p.value
  rw [Pair.text, flowPieces_append (hu.mpr h), hd]

-- A pair that is cut, or not cut off, is not the first one that is read.
theorem filterMap_cut {p : Pair} (h : ¬Uncut 0 p.value) (r : List Char) (l : Item) :
    (flowPieces 0 (p.text ++ r)).filterMap keyValue ≠ p.pair :: l := by
  obtain ⟨x, y, hv, hu, hd⟩ := exists_of_not_uncut h
  obtain ⟨hu', hd'⟩ := p.uncut_behind_key x
  obtain ⟨a, ha, hne⟩ := p.keyValue_cut hv
  have ht : p.text ++ r = (p.key ++ ':' :: ' ' :: x) ++ ',' :: (y ++ r) := by simp [Pair.text, hv]
  have hp : flowPieces 0 (p.text ++ r) = (p.key ++ ':' :: ' ' :: x) :: flowPieces 0 (y ++ r) := by
    rw [ht, flowPieces_append (hu'.mpr hu), hd', hd, flowPieces_comma]
    exact congrArg (· :: _) (List.append_nil _)
  rw [hp, List.filterMap_cons_some ha]
  exact fun he => hne (List.cons.inj he).1

theorem filterMap_joined {p : Pair} (hu : Uncut 0 p.value) (hd : depthAfter 0 p.value ≠ 0) (r : List Char) (l : Item) :
    (flowPieces 0 (p.text ++ ',' :: r)).filterMap keyValue ≠ p.pair :: l := by
  obtain ⟨piece, tl, hs⟩ := List.exists_cons_of_ne_nil (flowPieces_ne_nil (bracket (depthAfter 0 p.value) ',') r)
  obtain ⟨a, ha, hne⟩ := p.keyValue_joined hd piece
  have hp : flowPieces 0 (p.text ++ ',' :: r) = (p.text ++ ',' :: piece) :: tl := by
    rw [flowPieces_text hu, flowPieces_cons fun _ => hd, hs]
    rfl
  rw [hp, List.filterMap_cons_some ha]
  exact fun he => hne (List.cons.inj he).1

-- The pairs of the flow map are the pairs of the entry exactly if nothing else is cut.
theorem filterMap_inner_iff (ps : List Pair) :
    (flowPieces 0 (inner ps)).filterMap keyValue = ps.map Pair.pair ↔ Intact ps := by
  induction ps
  case nil => simp [inner, flowPieces, Intact, keyValue, splitOnce]
  case cons p ps hi =>
    by_cases hu : Uncut 0 p.value
    case neg =>
      refine iff_of_false ?_ fun h => hu (h.1 p List.mem_cons_self)
      cases ps
      case nil =>
        have := @filterMap_cut p hu [] []
        rwa [List.append_nil, ← inner_singleton] at this
      case cons q ps =>
        rw [inner_cons]
        exact filterMap_cut hu _ _
    case pos =>
      cases ps
      case nil =>
        refine iff_of_true ?_ ⟨by simpa using hu, by simp⟩
        have hp : flowPieces 0 (inner [p]) = [p.text] := by
          have := flowPieces_text hu []
          rw [List.append_nil] at this
          rw [inner_singleton, this]
          exact congrArg ([·]) (List.append_nil _)
        rw [hp, List.filterMap_cons_some p.keyValue_text]
        rfl
      case cons q ps =>
        rw [inner_cons, intact_cons]
        by_cases hd : depthAfter 0 p.value = 0
        case neg => exact iff_of_false (filterMap_joined hu hd _ _) fun h => hd h.1.2
        case pos =>
          have hp : flowPieces 0 (p.text ++ ',' :: ' ' :: inner (q :: ps)) =
              p.text :: flowPieces 0 (' ' :: inner (q :: ps)) := by
            rw [flowPieces_text hu, hd, flowPieces_comma]
            exact congrArg (· :: _) (List.append_nil _)
          rw [hp, List.filterMap_cons_some p.keyValue_text, filterMap_space, List.map_cons, List.cons_inj_right, hi]
          exact (and_iff_right ⟨hu, hd⟩).symm

end Flow

section Forms

-- The lines of the entry with a line for each pair, whose dash is at the column `n`.
def blockRows (n : Nat) : List Pair → List (List Char)
  | []      => [row n ['-']]
  | p :: ps => row n ('-' :: ' ' :: p.text) :: ps.map fun p => row (n + 2) p.text

def flowRows (n : Nat) (ps : List Pair) : List (List Char) :=
  [row n ('-' :: ' ' :: '{' :: (inner ps ++ ['}']))]

def document (rows : List (List Char)) : List Char :=
  unlines ("proxies:".toList :: rows)

-- What the entries of a document are read as.
def entries (input : List Char) : Option (List Item) :=
  (findSection (lines input)).map fun s => collect s.1 [] none s.2

theorem parseClash_of_entries {input : List Char} {items : List Item} (h : entries input = some items) :
    parseClash input =
      if items.isEmpty then [.error (.json "секция proxies пуста")] else items.map itemToProfile := by
  obtain ⟨s, hs, he⟩ := Option.map_eq_some_iff.mp h
  rw [parseClash, hs]
  simp only [he]

-- No line but the first looks like another entry.
def NoDash (ps : List Pair) : Prop :=
  ∀ p ∈ ps.tail, p.key.head? ≠ some '-'

instance (ps : List Pair) : Decidable (NoDash ps) :=
  inferInstanceAs (Decidable (∀ p ∈ ps.tail, p.key.head? ≠ some '-'))

theorem Pair.trim_text (p : Pair) :
    trim p.text ≠ [] ∧ (trim p.text).head? = p.key.head? ∧ p.text.head? = p.key.head? := by
  obtain ⟨c, tl, hk⟩ := List.exists_cons_of_ne_nil p.nonempty
  have hc : isWhitespace c = false := by
    have := @head?_trim p.key c
    rw [p.trimmed, hk] at this
    exact this rfl
  have ht : p.text = c :: (tl ++ ':' :: ' ' :: p.value) := by rw [text, hk]; rfl
  have hh := head?_trim_cons hc (tl ++ ':' :: ' ' :: p.value)
  rw [ht, hh, hk]
  refine ⟨fun h => ?_, rfl, rfl⟩
  rw [h] at hh
  cases hh

section

variable {base n : Nat} {items : List Item}

theorem firstPairs_text (p : Pair) : firstPairs (trim (' ' :: p.text)) = [p.pair] := by
  obtain ⟨hne, hh, _⟩ := p.trim_text
  have hbrace : (trim p.text).head? ≠ some '{' := by
    rw [hh]
    exact fun hc => p.plain _ (List.mem_of_head? hc) (by decide)
  rw [trim_cons_blank (by decide), firstPairs, within_eq_none hbrace]
  simp only [List.isEmpty_eq_false_iff.mpr hne, Bool.false_eq_true, if_false]
  rw [pushKv_trim, pushKv, p.keyValue_text]
  rfl

theorem head_text (p : Pair) : (trim p.text).head? ≠ some '#' ∧ p.text.head? ≠ some ' ' := by
  obtain ⟨_, hh, ht⟩ := p.trim_text
  rw [hh, ht]
  refine ⟨p.noMark, fun hc => ?_⟩
  have := @head?_trim p.key ' '
  rw [p.trimmed] at this
  exact absurd (this hc) (by decide)

theorem collect_pairs (hn : base < n) (it : Item) {ps : List Pair} (h : ∀ p ∈ ps, p.key.head? ≠ some '-') :
    collect base items (some it) (ps.map fun p => row n p.text) = items ++ [it ++ ps.map Pair.pair] := by
  induction ps generalizing it
  case nil => simp [collect]
  case cons p ps hi =>
    obtain ⟨hne, hh, _⟩ := p.trim_text
    have hd : (trim p.text).head? ≠ some '-' := by
      rw [hh]
      exact h p List.mem_cons_self
    rw [List.map_cons, collect_pair hne (head_text p).1 hd (head_text p).2 hn, Option.map_some,
      hi _ fun q hq => h q (List.mem_cons_of_mem _ hq), pushKv, p.keyValue_text, List.append_assoc]
    rfl

-- A line with a dash begins an entry.
theorem length_collect (hn : base < n) (it : Item) (ps : List Pair) :
    items.length + 1 + (ps.countP fun p => p.key.head? == some '-') ≤
      (collect base items (some it) (ps.map fun p => row n p.text)).length := by
  induction ps generalizing it items
  case nil => simp [collect]
  case cons p ps hi =>
    obtain ⟨hne, hh, ht⟩ := p.trim_text
    by_cases hd : p.key.head? = some '-'
    case neg =>
      rw [List.map_cons, collect_pair hne (head_text p).1 (by rwa [hh]) (head_text p).2 hn, Option.map_some,
        List.countP_cons_of_neg (by simpa using hd)]
      exact hi _
    case pos =>
      obtain ⟨rest, hr⟩ := List.head?_eq_some_iff.mp (ht.trans hd)
      have hi := @hi (items ++ [it]) (firstPairs (trim rest))
      rw [List.map_cons, hr, collect_element, List.countP_cons_of_pos (by simpa using hd), Option.toList_some]
      rw [List.length_append, List.length_singleton] at hi
      omega

theorem collect_block_iff (n : Nat) (ps : List Pair) (it : Item) :
    collect 0 [] none (blockRows n ps) = [it] ↔ NoDash ps ∧ it = ps.map Pair.pair := by
  cases ps
  case nil =>
    rw [blockRows, collect_element]
    simp [collect, firstPairs, within, stripPrefix, NoDash, trim, eq_comm]
  case cons p ps =>
    rw [blockRows, collect_element, firstPairs_text]
    by_cases hd : NoDash (p :: ps)
    case pos =>
      have hc := @collect_pairs 0 (n + 2) [] (by omega) [p.pair] ps hd
      rw [Option.toList_none, List.append_nil, hc]
      simp [hd, eq_comm]
    case neg =>
      refine iff_of_false (fun he => ?_) fun h => hd h.1
      have hl := @length_collect 0 (n + 2) ([] ++ Option.toList none) (by omega) [p.pair] ps
      have hc : 0 < ps.countP fun p => p.key.head? == some '-' := by
        rw [List.countP_pos_iff]
        have hd : ¬∀ q ∈ ps, q.key.head? ≠ some '-' := hd
        push Not at hd
        obtain ⟨q, hq, hk⟩ := hd
        exact ⟨q, hq, by simpa using hk⟩
      rw [he, List.length_singleton] at hl
      omega

theorem collect_block_ne_nil (n : Nat) (ps : List Pair) : collect 0 [] none (blockRows n ps) ≠ [] := by
  cases ps
  case nil =>
    rw [blockRows, collect_element]
    exact collect_ne_nil _ _ _ _
  case cons p ps =>
    rw [blockRows, collect_element]
    exact collect_ne_nil _ _ _ _

theorem collect_flow (n : Nat) (ps : List Pair) :
    collect 0 [] none (flowRows n ps) = [(flowPieces 0 (inner ps)).filterMap keyValue] := by
  rw [flowRows, collect_element, trim_cons_blank (by decide), firstPairs_flow]
  rfl

end

theorem entries_document {rows : List (List Char)} (h : ∀ l ∈ rows, '\n' ∉ l ∧ l.getLast? ≠ some '\r') :
    entries (document rows) = some (collect 0 [] none rows) := by
  have hl : lines (document rows) = "proxies:".toList :: rows := lines_unlines <| by
    rw [List.forall_mem_cons]
    exact ⟨by decide, h⟩
  rw [entries, hl]
  rfl

-- A text that is on one line.
def OneLine (s : List Char) : Prop :=
  ∀ c ∈ s, c ≠ '\n' ∧ c ≠ '\r'

theorem OneLine.ends {s : List Char} (h : OneLine s) : '\n' ∉ s ∧ s.getLast? ≠ some '\r' :=
  ⟨fun hm => (h _ hm).1 rfl, fun hl => (h _ (List.mem_of_getLast? hl)).2 rfl⟩

theorem oneLine_row {s : List Char} (n : Nat) (h : OneLine s) : OneLine (row n s) := by
  intro c hc
  rcases List.mem_append.mp hc with hc | hc
  · rw [List.eq_of_mem_replicate hc]
    decide
  · exact h c hc

theorem oneLine_cons {s : List Char} {c : Char} (hc : c ≠ '\n' ∧ c ≠ '\r') (h : OneLine s) : OneLine (c :: s) :=
  List.forall_mem_cons.mpr ⟨hc, h⟩

theorem oneLine_text (p : Pair) : OneLine p.text := by
  intro c hc
  have hm : c = ':' ∨ c = ' ' ∨ c ∈ p.key ++ p.value := by
    simp only [Pair.text, List.mem_append, List.mem_cons] at hc ⊢
    tauto
  rcases hm with rfl | rfl | hm
  · decide
  · decide
  · exact p.single c hm

theorem oneLine_inner (ps : List Pair) : OneLine (inner ps) := by
  induction ps
  case nil => exact fun c hc => by cases hc
  case cons p ps hi =>
    cases ps
    case nil => exact inner_singleton p ▸ oneLine_text p
    case cons q ps =>
      rw [inner_cons]
      exact List.forall_mem_append.mpr ⟨oneLine_text p, oneLine_cons (by decide) (oneLine_cons (by decide) hi)⟩

theorem entries_block (n : Nat) (ps : List Pair) :
    entries (document (blockRows n ps)) = some (collect 0 [] none (blockRows n ps)) := by
  refine entries_document fun l hl => OneLine.ends ?_
  cases ps
  case nil =>
    rw [List.mem_singleton.mp hl]
    exact oneLine_row n (oneLine_cons (by decide) fun c hc => by cases hc)
  case cons p ps =>
    rcases List.mem_cons.mp hl with rfl | hl
    · exact oneLine_row n (oneLine_cons (by decide) (oneLine_cons (by decide) (oneLine_text p)))
    · obtain ⟨q, _, rfl⟩ := List.mem_map.mp hl
      exact oneLine_row _ (oneLine_text q)

theorem entries_flow (n : Nat) (ps : List Pair) :
    entries (document (flowRows n ps)) = some [(flowPieces 0 (inner ps)).filterMap keyValue] := by
  rw [entries_document, collect_flow]
  intro l hl
  have hi : OneLine (inner ps ++ ['}']) := List.forall_mem_append.mpr
    ⟨oneLine_inner ps, forall_mem_of_all (by decide)⟩
  rw [List.mem_singleton.mp hl]
  exact (oneLine_row n (oneLine_cons (by decide) (oneLine_cons (by decide) (oneLine_cons (by decide) hi)))).ends

-- Where a line looks like another entry there is a result more.
theorem noDash_of_parseClash {n : Nat} {ps : List Pair}
    (h : parseClash (document (blockRows n ps)) = parseClash (document (flowRows n ps))) : NoDash ps := by
  rw [parseClash_of_entries (entries_block n ps), parseClash_of_entries (entries_flow n ps),
    if_neg (by simpa using collect_block_ne_nil n ps), if_neg (by simp)] at h
  have hlen := congrArg List.length h
  rw [List.length_map, List.length_map, List.length_singleton] at hlen
  obtain ⟨it, hc⟩ := List.length_eq_one_iff.mp hlen
  exact ((collect_block_iff n ps it).mp hc).1

-- The two forms are read alike if no line looks like another entry and only the pairs are cut, and the same pairs
-- are collected from them only then.
theorem block_flow_agree (n : Nat) (ps : List Pair) :
    (NoDash ps ∧ Intact ps → parseClash (document (blockRows n ps)) = parseClash (document (flowRows n ps))) ∧
    (parseClash (document (blockRows n ps)) = parseClash (document (flowRows n ps)) → NoDash ps) ∧
    (entries (document (blockRows n ps)) = entries (document (flowRows n ps)) ↔ NoDash ps ∧ Intact ps) := by
  have hiff : entries (document (blockRows n ps)) = entries (document (flowRows n ps)) ↔ NoDash ps ∧ Intact ps := by
    rw [entries_block, entries_flow, Option.some_inj, collect_block_iff, filterMap_inner_iff]
  refine ⟨fun h => ?_, noDash_of_parseClash, hiff⟩
  rw [parseClash_of_entries (entries_flow n ps),
    parseClash_of_entries ((hiff.mpr h).trans (entries_flow n ps))]

-- A value in quotes with commas between brackets.
def bracketed : List Pair :=
  [{ key := "type".toList, value := "trojan".toList, trimmed := by decide, nonempty := by decide,
     noMark := by decide, plain := forall_mem_of_all (by decide), single := forall_mem_of_all (by decide),
     scalar := .inr (forall_mem_of_all (by decide)) },
   { key := "password".toList, value := "\"[a,b]\"".toList, trimmed := by decide, nonempty := by decide,
     noMark := by decide, plain := forall_mem_of_all (by decide), single := forall_mem_of_all (by decide),
     scalar := .inl ⟨'"', "[a,b]".toList, .inl rfl, rfl⟩ }]

theorem block_flow_agree_bracketed : NoDash bracketed ∧ Intact bracketed ∧
    parseClash (document (blockRows 2 bracketed)) = parseClash (document (flowRows 2 bracketed)) := by
  have hn : NoDash bracketed := by decide
  have hi : Intact bracketed := by decide
  exact ⟨hn, hi, (block_flow_agree 2 bracketed).1 ⟨hn, hi⟩⟩

-- A comma in a password.
theorem comma_in_quotes :
    ((parseClash "proxies:\n  - type: trojan\n    server: h\n    port: 1\n    password: \"a,b\"\n".toList).map fun r =>
      r.toOption.bind (·.param "password")) = [some "a,b"] ∧
    ((parseClash "proxies:\n  - \x7btype: trojan, server: h, port: 1, password: \"a,b\"\x7d\n".toList).map fun r =>
      r.toOption.bind (·.param "password")) = [some "\"a"] :=
  ⟨rfl, rfl⟩

end Forms
end JammVpn.Clash
