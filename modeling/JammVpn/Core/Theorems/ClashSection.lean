import JammVpn.Core.Theorems.ClashForms

-- A section of entries over several lines, with blocks inside of them.
namespace JammVpn.Clash

open Text

-- What a line says, behind its indentation.
structure Content where
  text     : List Char
  flush    : text.head? ≠ some ' '
  nonblank : trim text ≠ []
  noMark   : (trim text).head? ≠ some '#'

abbrev Skipped :=
  { text : List Char // trim text = [] ∨ (trim text).head? = some '#' }

-- A line of an entry: a key with a scalar or a flow list, a key with a block behind it, a line of such a block,
-- or a blank or a comment.
inductive Line
  | own (c : Content)
  | opens (c : Content)
  | nested (deeper : Nat) (c : Content)
  | skip (s : Skipped)

namespace Line

def text (column : Nat) : Line → List Char
  | own c           => row column c.text
  | opens c         => row column c.text
  | nested deeper c => row (column + 1 + deeper) c.text
  | skip s          => s.1

def content : Line → Option Content
  | own c      => some c
  | opens c    => some c
  | nested _ c => some c
  | skip _     => none

-- Whether it is one of the scalars of the entry.
def isOwn : Line → Bool
  | own _ => true
  | _     => false

-- The pair of the line, and whether it is the entry's own.
def marked (l : Line) : List (Bool × String × String) :=
  (l.content.bind fun c => keyValue c.text).toList.map (l.isOwn, ·)

def isStray (l : Line) : Bool :=
  l.content.any fun c => (trim c.text).head? == some '-'

end Line

-- What is on the line of the dash.
inductive Head
  | bare
  | own (c : Content) (h : (trim c.text).head? ≠ some '{')
  | opens (c : Content) (h : (trim c.text).head? ≠ some '{')
  | flow (pairs : List Char)

namespace Head

def text (gap : Nat) : Head → List Char
  | bare       => []
  | own c _    => row gap c.text
  | opens c _  => row gap c.text
  | flow pairs => row gap ('{' :: (pairs ++ ['}']))

def marked : Head → List (Bool × String × String)
  | bare       => []
  | own c _    => (keyValue c.text).toList.map (true, ·)
  | opens c _  => (keyValue c.text).toList.map (false, ·)
  | flow pairs => ((flowPieces 0 pairs).filterMap keyValue).map (true, ·)

end Head

-- The own lines begin where the text behind the dash does.
structure Element where
  gap   : Nat
  head  : Head
  lines : List Line

namespace Element

def rows (column : Nat) (e : Element) : List (List Char) :=
  row column ('-' :: e.head.text e.gap) :: e.lines.map (Line.text (column + 1 + e.gap))

def marked (e : Element) : List (Bool × String × String) :=
  e.head.marked ++ e.lines.flatMap Line.marked

def all (e : Element) : Item :=
  e.marked.map Prod.snd

def own (e : Element) : Item :=
  (e.marked.filter Prod.fst).map Prod.snd

end Element

-- The first line behind the section, and all that follows.
structure After where
  column  : Nat
  content : Content
  rest    : List (List Char)

structure Section where
  front    : List (List Char)
  column   : Nat
  behind   : List Char
  comment  : trim behind = [] ∨ (trim behind).head? = some '#'
  before   : List Skipped
  deeper   : Nat
  elements : List Element
  nonempty : elements ≠ []
  after    : Option After
  ends     : ∀ a ∈ after, a.column ≤ column

namespace Section

def body (d : Section) : List (List Char) :=
  d.before.map Subtype.val ++ (d.elements.flatMap (Element.rows (d.column + d.deeper)) ++
    d.after.elim [] fun a => row a.column a.content.text :: a.rest)

def rows (d : Section) : List (List Char) :=
  d.front ++ row d.column ("proxies:".toList ++ d.behind) :: d.body

-- The section is found at its header.
def FirstHeader (d : Section) : Prop :=
  trim d.behind = [] ∧ ∀ l ∈ d.front, isHeader l = false

-- Only the elements begin with a dash.
def NoStray (d : Section) : Prop :=
  (∀ e ∈ d.elements, ∀ l ∈ e.lines, l.isStray = false) ∧
    ∀ a ∈ d.after, (trim a.content.text).head? ≠ some '-'

instance (d : Section) : Decidable d.FirstHeader :=
  inferInstanceAs (Decidable (trim d.behind = [] ∧ ∀ l ∈ d.front, isHeader l = false))

instance (d : Section) : Decidable d.NoStray :=
  inferInstanceAs (Decidable ((∀ e ∈ d.elements, ∀ l ∈ e.lines, l.isStray = false) ∧
    ∀ a ∈ d.after, (trim a.content.text).head? ≠ some '-'))

end Section

section Collect

variable {base column : Nat} {items : List Item} {cur : Option Item} {ls : List (List Char)}

-- A line has a content, whose pair it is, deeper than the header, or is left out.
theorem line_spec (hb : base < column) (l : Line) :
    (l.isStray = false ∧ l.marked = [] ∧ (trim (l.text column) = [] ∨ (trim (l.text column)).head? = some '#')) ∨
    ∃ (n : Nat) (c : Content), base < n ∧ l.text column = row n c.text ∧ l.isStray = ((trim c.text).head? == some '-') ∧
      l.marked.map Prod.snd = (keyValue c.text).toList := by
  cases l
  case own c      => exact .inr ⟨_, c, hb, rfl, rfl, by simp [Line.marked, Line.content]⟩
  case opens c    => exact .inr ⟨_, c, hb, rfl, rfl, by simp [Line.marked, Line.content]⟩
  case nested k c => exact .inr ⟨_, c, by omega, rfl, rfl, by simp [Line.marked, Line.content]⟩
  case skip s     => exact .inl ⟨rfl, rfl, s.2⟩

theorem collect_line (hb : base < column) {l : Line} (hs : l.isStray = false) (it : Item) :
    collect base items (some it) (l.text column :: ls) =
      collect base items (some (it ++ l.marked.map Prod.snd)) ls := by
  rcases line_spec hb l with ⟨_, hm, hskip⟩ | ⟨n, c, hn, ht, hd, hm⟩
  · rw [collect_skip hskip, hm, List.map_nil, List.append_nil]
  · rw [hd] at hs
    rw [ht, collect_pair c.nonblank c.noMark (by simpa using hs) c.flush hn, hm]
    rfl

theorem collect_lines (hb : base < column) {lines : List Line} (hs : ∀ l ∈ lines, l.isStray = false) (it : Item) :
    collect base items (some it) (lines.map (Line.text column) ++ ls) =
      collect base items (some (it ++ (lines.flatMap Line.marked).map Prod.snd)) ls := by
  induction lines generalizing it
  case nil => simp
  case cons l lines hi =>
    rw [List.map_cons, List.cons_append, collect_line hb (hs l List.mem_cons_self),
      hi fun l' hl' => hs l' (List.mem_cons_of_mem _ hl'), List.flatMap_cons, List.map_append, List.append_assoc]

theorem firstPairs_head (gap : Nat) (h : Head) : firstPairs (trim (h.text gap)) = h.marked.map Prod.snd := by
  have hpair : ∀ c : Content, (trim c.text).head? ≠ some '{' →
      firstPairs (trim (row gap c.text)) = (keyValue c.text).toList := by
    intro c hc
    rw [trim_row, firstPairs, within_eq_none hc]
    simp only [List.isEmpty_eq_false_iff.mpr c.nonblank, Bool.false_eq_true, if_false]
    rw [pushKv_trim, pushKv, List.nil_append]
  cases h
  case bare       => rfl
  case own c hc   => simpa [Head.marked, Head.text] using hpair c hc
  case opens c hc => simpa [Head.marked, Head.text] using hpair c hc
  case flow pairs =>
    rw [Head.text, trim_row, firstPairs_flow, Head.marked, List.map_map]
    exact (List.map_id _).symm

-- An element without stray dashes is one entry, with all of its pairs.
theorem collect_rows (hb : base ≤ column) {e : Element} (hs : ∀ l ∈ e.lines, l.isStray = false) :
    collect base items cur (e.rows column ++ ls) = collect base (items ++ cur.toList) (some e.all) ls := by
  rw [Element.rows, List.cons_append, collect_element, firstPairs_head,
    collect_lines (by omega : base < column + 1 + e.gap) hs, Element.all, Element.marked, List.map_append]

theorem collect_elements (hb : base ≤ column) {es : List Element} (hs : ∀ e ∈ es, ∀ l ∈ e.lines, l.isStray = false) :
    ∃ items' cur', collect base items cur (es.flatMap (Element.rows column) ++ ls) = collect base items' cur' ls ∧
      items' ++ cur'.toList = items ++ cur.toList ++ es.map Element.all := by
  induction es generalizing items cur
  case nil => exact ⟨items, cur, rfl, by simp⟩
  case cons e es hi =>
    obtain ⟨items', cur', hc, he⟩ := @hi (items ++ cur.toList) (some e.all) fun e' he' =>
      hs e' (List.mem_cons_of_mem _ he')
    refine ⟨items', cur', ?_, by rw [he]; simp⟩
    rw [List.flatMap_cons, List.append_assoc, collect_rows hb (hs e List.mem_cons_self), hc]

-- Every line with a dash is one entry more.
def dashes (lines : List Line) : Nat :=
  lines.countP Line.isStray

theorem length_lines (hb : base < column) (lines : List Line) :
    ∃ items' cur', collect base items cur (lines.map (Line.text column) ++ ls) = collect base items' cur' ls ∧
      (items' ++ cur'.toList).length = (items ++ cur.toList).length + dashes lines := by
  induction lines generalizing items cur
  case nil => exact ⟨items, cur, rfl, rfl⟩
  case cons l lines hi =>
    have hstep : ∃ items₁ cur₁, (∀ ls, collect base items cur (l.text column :: ls) = collect base items₁ cur₁ ls) ∧
        (items₁ ++ cur₁.toList).length = (items ++ cur.toList).length + if l.isStray then 1 else 0 := by
      rcases line_spec hb l with ⟨hs, _, hskip⟩ | ⟨n, c, hn, ht, hd, _⟩
      · exact ⟨items, cur, fun _ => collect_skip hskip, by rw [hs]; rfl⟩
      · cases hs : l.isStray
        case false =>
          rw [hd] at hs
          refine ⟨items, cur.map (pushKv c.text), fun ls => ?_, by cases cur <;> simp⟩
          rw [ht, collect_pair c.nonblank c.noMark (by simpa using hs) c.flush hn]
        case true =>
          rw [hd] at hs
          obtain ⟨rest, hr⟩ := List.head?_eq_some_iff.mp (beq_iff_eq.mp hs)
          refine ⟨items ++ cur.toList, some (firstPairs (trim rest)), fun ls => ?_, List.length_append⟩
          rw [ht, collect_dash ((trim_row n c.text).trans hr)]
    obtain ⟨items₁, cur₁, hc₁, hl₁⟩ := hstep
    obtain ⟨items', cur', hc, hl⟩ := @hi items₁ cur₁
    refine ⟨items', cur', by rw [List.map_cons, List.cons_append, hc₁, hc], ?_⟩
    rw [hl, hl₁, dashes, dashes, List.countP_cons]
    omega

theorem length_elements (hb : base ≤ column) (es : List Element) :
    ∃ items' cur', collect base items cur (es.flatMap (Element.rows column) ++ ls) = collect base items' cur' ls ∧
      (items' ++ cur'.toList).length =
        (items ++ cur.toList).length + (es.map fun e => 1 + dashes e.lines).sum := by
  induction es generalizing items cur
  case nil => exact ⟨items, cur, rfl, rfl⟩
  case cons e es hi =>
    obtain ⟨items₁, cur₁, hc₁, hl₁⟩ := @length_lines base (column + 1 + e.gap) (items ++ cur.toList)
      (some (firstPairs (trim (e.head.text e.gap)))) (es.flatMap (Element.rows column) ++ ls) (by omega) e.lines
    obtain ⟨items', cur', hc, hl⟩ := @hi items₁ cur₁
    refine ⟨items', cur', ?_, ?_⟩
    · rw [List.flatMap_cons, List.append_assoc, Element.rows, List.cons_append, collect_element, hc₁, hc]
    · rw [hl, hl₁, List.map_cons, List.sum_cons, Option.toList_some, List.length_append, List.length_singleton]
      omega

theorem length_le_sum (es : List Element) : es.length ≤ (es.map fun e => 1 + dashes e.lines).sum := by
  induction es
  case nil => exact Nat.le_refl 0
  case cons e es hi =>
    rw [List.length_cons, List.map_cons, List.sum_cons]
    omega

theorem sum_eq_length_iff (es : List Element) :
    (es.map fun e => 1 + dashes e.lines).sum = es.length ↔ ∀ e ∈ es, ∀ l ∈ e.lines, l.isStray = false := by
  induction es
  case nil => simp
  case cons e es hi =>
    have hle := length_le_sum es
    have hd : dashes e.lines = 0 ↔ ∀ l ∈ e.lines, l.isStray = false := by
      rw [dashes, List.countP_eq_zero]
      simp
    rw [List.map_cons, List.sum_cons, List.length_cons, List.forall_mem_cons, ← hi, ← hd]
    omega

end Collect

section Fields

-- The keys that are read of an entry.
def fields : List String :=
  ["type", "server", "port", "name", "cipher", "password", "uuid", "sni", "alpn", "flow", "servername", "network",
    "client-fingerprint", "obfs", "obfs-password", "username"]

-- An empty value is none, except for the type.
def reading (key : String) (value : Option String) : Option String :=
  if key = "type" then value else value.filter (· ≠ "")

-- The entries are read alike.
def SameFields (a b : Item) : Prop :=
  ∀ key ∈ fields, reading key (a.lookup key) = reading key (b.lookup key)

theorem itemToProfile_congr {a b : Item} (h : SameFields a b) : itemToProfile a = itemToProfile b := by
  have hf : ∀ key ∈ fields.tail, nonEmpty a key = nonEmpty b key := by
    intro key hk
    have hne : key ≠ "type" := by
      rintro rfl
      exact absurd hk (by decide)
    have := h key (List.mem_of_mem_tail hk)
    rwa [reading, if_neg hne, reading, if_neg hne] at this
  have htype : a.lookup "type" = b.lookup "type" := h "type" (by decide)
  have hport : (a.lookup "port").bind (fun p => parseUnsigned 65536 p.toList) =
      (b.lookup "port").bind (fun p => parseUnsigned 65536 p.toList) := by
    have hbind : ∀ kv : Item, (kv.lookup "port").bind (fun p => parseUnsigned 65536 p.toList) =
        (nonEmpty kv "port").bind fun p => parseUnsigned 65536 p.toList := by
      intro kv
      rw [nonEmpty]
      cases kv.lookup "port"
      case none => rfl
      case some v =>
        by_cases hv : v = ""
        case pos =>
          subst hv
          rfl
        case neg => rw [Option.filter_some, if_pos (by simpa using hv)]
    rw [hbind, hbind, hf "port" (by decide)]
  have hparams : ∀ protocol, itemParams a protocol = itemParams b protocol := by
    intro protocol
    cases protocol <;> simp only [itemParams, req, opt, hf "cipher" (by decide), hf "password" (by decide),
      hf "uuid" (by decide), hf "sni" (by decide), hf "alpn" (by decide), hf "flow" (by decide),
      hf "servername" (by decide), hf "network" (by decide), hf "client-fingerprint" (by decide),
      hf "obfs" (by decide), hf "obfs-password" (by decide), hf "username" (by decide)]
  simp only [itemToProfile, htype, hport, hparams, hf "server" (by decide), hf "name" (by decide)]

-- The first pair with a key is the entry's own, or gives the key what the own pairs give it.
def FirstOwn (e : Element) : Prop :=
  ∀ key ∈ fields, ∀ m ∈ e.marked.find? (·.2.1 == key),
    m.1 = true ∨ reading key (some m.2.2) = reading key (e.own.lookup key)

instance (e : Element) : Decidable (FirstOwn e) :=
  inferInstanceAs (Decidable (∀ key ∈ fields, ∀ m ∈ e.marked.find? (·.2.1 == key),
    m.1 = true ∨ reading key (some m.2.2) = reading key (e.own.lookup key)))

theorem lookup_map_snd (l : List (Bool × String × String)) (key : String) :
    (l.map Prod.snd).lookup key = (l.find? (·.2.1 == key)).map (·.2.2) := by
  induction l
  case nil => rfl
  case cons m l hi =>
    rw [List.map_cons, List.lookup_cons, List.find?_cons, Bool.beq_comm]
    cases m.2.1 == key
    case true  => rfl
    case false => exact hi

theorem lookup_own {l : List (Bool × String × String)} {key : String} (h : ∀ m ∈ l.find? (·.2.1 == key), m.1 = true) :
    ((l.filter Prod.fst).map Prod.snd).lookup key = (l.find? (·.2.1 == key)).map (·.2.2) := by
  induction l
  case nil => rfl
  case cons m l hi =>
    rw [List.find?_cons] at h ⊢
    cases hk : m.2.1 == key
    case true =>
      rw [hk] at h
      rw [List.filter_cons_of_pos (h m rfl), List.map_cons, List.lookup_cons, Bool.beq_comm, hk]
      rfl
    case false =>
      rw [hk] at h
      have hi := hi h
      cases ho : m.1
      case false => rwa [List.filter_cons_of_neg (by simp [ho])]
      case true  =>
        rw [List.filter_cons_of_pos ho, List.map_cons, List.lookup_cons, Bool.beq_comm, hk]
        exact hi

theorem sameFields_iff (e : Element) : SameFields e.all e.own ↔ FirstOwn e := by
  refine forall₂_congr fun key _ => ?_
  rw [Element.all, lookup_map_snd]
  cases hm : e.marked.find? (·.2.1 == key)
  case none =>
    refine iff_of_true ?_ (by simp)
    rw [Element.own, lookup_own (by simp [hm]), hm]
  case some m =>
    cases ho : m.1
    case true =>
      have hown : ∀ m' ∈ e.marked.find? (·.2.1 == key), m'.1 = true := by
        rw [hm]
        rintro _ ⟨⟩
        exact ho
      refine iff_of_true ?_ (by simp [ho])
      rw [Element.own, lookup_own hown, hm]
    case false => simp [ho]

end Fields

namespace Section

variable (d : Section) {input : List Char}

theorem findSection_rows (h : d.FirstHeader) : findSection d.rows = some (d.column, d.body) := by
  obtain ⟨hbehind, hfront⟩ := h
  have hh : isHeader (row d.column ("proxies:".toList ++ d.behind)) = true := by
    have hs : trimStart (row d.column ("proxies:".toList ++ d.behind)) = "proxies:".toList ++ d.behind := by
      rw [row, trimStart, List.dropWhile_append_of_pos fun c hc => by rw [List.eq_of_mem_replicate hc]; decide]
      rfl
    rw [isHeader, hs, stripPrefix_append]
    simp only [hbehind, List.isEmpty_nil]
  rw [rows]
  generalize d.front = front at hfront
  induction front
  case nil => rw [List.nil_append, findSection, if_pos hh, indent_row (by simp)]
  case cons l front hi =>
    rw [List.cons_append, findSection, hfront l List.mem_cons_self]
    exact hi fun l' hl' => hfront l' (List.mem_cons_of_mem _ hl')

theorem collect_body (ls : List (List Char)) :
    collect d.column [] none (d.before.map Subtype.val ++ ls) = collect d.column [] none ls := by
  induction d.before
  case nil => rfl
  case cons s before hi => rw [List.map_cons, List.cons_append, collect_skip s.2, hi]

theorem collect_body_ne_nil : collect d.column [] none d.body ≠ [] := by
  obtain ⟨e, es, he⟩ := List.exists_cons_of_ne_nil d.nonempty
  rw [body, collect_body, he, List.flatMap_cons, Element.rows, List.cons_append, List.cons_append, collect_element]
  exact collect_ne_nil _ _ _ _

theorem entries_eq (h : lines input = d.rows) (hf : d.FirstHeader) :
    entries input = some (collect d.column [] none d.body) := by
  rw [entries, h, d.findSection_rows hf]
  rfl

theorem collect_after (items : List Item) (cur : Option Item)
    (h : ∀ a ∈ d.after, (trim a.content.text).head? ≠ some '-') :
    collect d.column items cur (d.after.elim [] fun a => row a.column a.content.text :: a.rest) =
      items ++ cur.toList := by
  cases ha : d.after
  case none => rfl
  case some a =>
    exact collect_end a.content.nonblank a.content.noMark (h a ha) a.content.flush (d.ends a ha)

-- Without strays an element is an entry.
theorem collect_of_noStray (h : d.NoStray) : collect d.column [] none d.body = d.elements.map Element.all := by
  obtain ⟨items, cur, hc, he⟩ := @collect_elements d.column (d.column + d.deeper) [] none
    (d.after.elim [] fun a => row a.column a.content.text :: a.rest) (by omega) d.elements h.1
  rw [body, collect_body, hc, d.collect_after _ _ h.2, he]
  rfl

-- And only then there are as many of them.
theorem length_collect_iff : (collect d.column [] none d.body).length = d.elements.length ↔ d.NoStray := by
  constructor
  case mpr =>
    intro h
    rw [d.collect_of_noStray h, List.length_map]
  case mp =>
    intro hl
    obtain ⟨items, cur, hc, he⟩ := @length_elements d.column (d.column + d.deeper) [] none
      (d.after.elim [] fun a => row a.column a.content.text :: a.rest) (by omega) d.elements
    rw [body, collect_body, hc] at hl
    rw [Option.toList_none, List.append_nil, List.length_nil, Nat.zero_add] at he
    have hsum := length_le_sum d.elements
    by_cases ha : ∀ a ∈ d.after, (trim a.content.text).head? ≠ some '-'
    case pos =>
      rw [d.collect_after _ _ ha, he] at hl
      exact ⟨(sum_eq_length_iff _).mp hl, ha⟩
    case neg =>
      push Not at ha
      obtain ⟨a, ha, hd⟩ := ha
      obtain ⟨rest, hr⟩ := List.head?_eq_some_iff.mp hd
      rw [Option.mem_def.mp ha, Option.elim_some, collect_dash ((trim_row _ _).trans hr), collect_eq_append,
        List.length_append, he] at hl
      have := List.length_pos_iff.mpr (collect_ne_nil d.column [] (firstPairs (trim rest)) a.rest)
      omega

-- The results are those of the elements' own pairs if the section is found at its header, only the elements begin
-- with a dash, and no line of a block stands in for an own one. There are as many of them, and they are read of
-- the own pairs, only then.
theorem parseClash_section (h : lines input = d.rows) :
    (d.FirstHeader ∧ d.NoStray ∧ (∀ e ∈ d.elements, FirstOwn e) →
      parseClash input = d.elements.map fun e => itemToProfile e.own) ∧
    (d.FirstHeader → ((parseClash input).length = d.elements.length ↔ d.NoStray)) ∧
    (d.FirstHeader → ((∃ items, entries input = some items ∧
        List.Forall₂ (fun it e => SameFields it e.own) items d.elements) ↔
      d.NoStray ∧ ∀ e ∈ d.elements, FirstOwn e)) := by
  have hne (hf : d.FirstHeader) : parseClash input = (collect d.column [] none d.body).map itemToProfile := by
    rw [parseClash_of_entries (d.entries_eq h hf), if_neg (by simpa using d.collect_body_ne_nil)]
  refine ⟨?_, ?_, ?_⟩
  · rintro ⟨hf, hs, ho⟩
    rw [hne hf, d.collect_of_noStray hs, List.map_map]
    exact List.map_congr_left fun e he => itemToProfile_congr ((sameFields_iff e).mpr (ho e he))
  · intro hf
    rw [hne hf, List.length_map, d.length_collect_iff]
  · intro hf
    rw [d.entries_eq h hf]
    constructor
    case mp =>
      rintro ⟨_, ⟨⟩, hall⟩
      have hs := d.length_collect_iff.mp hall.length_eq
      rw [d.collect_of_noStray hs, List.forall₂_map_left_iff, List.forall₂_same] at hall
      exact ⟨hs, fun e he => (sameFields_iff e).mp (hall e he)⟩
    case mpr =>
      rintro ⟨hs, ho⟩
      refine ⟨_, rfl, ?_⟩
      rw [d.collect_of_noStray hs, List.forall₂_map_left_iff, List.forall₂_same]
      exact fun e he => (sameFields_iff e).mpr (ho e he)

end Section

section Samples

-- A trojan node whose first lines are these.
def trojanNode (lines : List Line) : Section where
  front    := ["port: 7890".toList]
  column   := 0
  behind   := []
  comment  := by decide
  before   := []
  deeper   := 2
  elements := [{
    gap   := 1
    head  := .own ⟨"type: trojan".toList, by decide, by decide, by decide⟩ (by decide)
    lines := .own ⟨"server: h".toList, by decide, by decide, by decide⟩ ::
      .own ⟨"port: 443".toList, by decide, by decide, by decide⟩ :: lines
  }]
  nonempty := List.cons_ne_nil _ _
  after    := some ⟨0, ⟨"rules:".toList, by decide, by decide, by decide⟩, []⟩
  ends     := by
    rintro _ ⟨⟩
    exact Nat.le_refl 0

-- Options of a transport behind the own lines, and a flow list.
def withOptions : Section :=
  trojanNode [
    .own ⟨"password: p".toList, by decide, by decide, by decide⟩,
    .own ⟨"alpn: [h2, http/1.1]".toList, by decide, by decide, by decide⟩,
    .opens ⟨"ws-opts:".toList, by decide, by decide, by decide⟩,
    .nested 1 ⟨"path: /x".toList, by decide, by decide, by decide⟩]

set_option maxRecDepth 4000 in
theorem parseClash_section_withOptions :
    (withOptions.FirstHeader ∧ withOptions.NoStray ∧ ∀ e ∈ withOptions.elements, FirstOwn e) ∧
    parseClash ("port: 7890\nproxies:\n  - type: trojan\n    server: h\n    port: 443\n    password: p\n" ++
      "    alpn: [h2, http/1.1]\n    ws-opts:\n      path: /x\nrules:\n").toList =
      withOptions.elements.map fun e => itemToProfile e.own := by
  have hf : withOptions.FirstHeader := by decide
  have hs : withOptions.NoStray := by decide
  have ho : ∀ e ∈ withOptions.elements, FirstOwn e := by decide
  exact ⟨⟨hf, hs, ho⟩, (withOptions.parseClash_section (by decide +kernel)).1 ⟨hf, hs, ho⟩⟩

-- A list over several lines: its item is taken for an element, and what is behind it for a part of that one.
def withList : Section :=
  trojanNode [
    .opens ⟨"alpn:".toList, by decide, by decide, by decide⟩,
    .nested 1 ⟨"- h2".toList, by decide, by decide, by decide⟩,
    .own ⟨"password: p".toList, by decide, by decide, by decide⟩]

set_option maxRecDepth 4000 in
theorem list_in_element : ∃ input p, lines input = withList.rows ∧
    withList.elements.map (fun e => itemToProfile e.own) = [.ok p] ∧
    parseClash input = [.error (.missingField "password"), .error (.missingField "type")] :=
  ⟨("port: 7890\nproxies:\n  - type: trojan\n    server: h\n    port: 443\n    alpn:\n      - h2\n" ++
    "    password: p\nrules:\n").toList, _, by decide +kernel, rfl, rfl⟩

end Samples
end JammVpn.Clash
