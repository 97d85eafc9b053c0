import JammVpn.Core.Theorems.Base64
import JammVpn.Core.Theorems.Parsed
import JammVpn.Core.Parse.Subscription

-- A list of links, as it is and in base64.
namespace JammVpn.Subscription

open Text

section Pieces

variable {s w : List Char}

-- What the links are read from.
def kept (l : List Char) : Bool :=
  !l.isEmpty && !isComment l

def cleaned (ls : List (List Char)) : List (List Char) :=
  (ls.map trim).filter kept

theorem cleaned_append (a b : List (List Char)) : cleaned (a ++ b) = cleaned a ++ cleaned b := by
  rw [cleaned, List.map_append, List.filter_append, cleaned, cleaned]

theorem cleaned_blank {ls : List (List Char)} (h : ∀ l ∈ ls, trim l = []) : cleaned ls = [] := by
  refine List.filter_eq_nil_iff.mpr fun l hl => ?_
  obtain ⟨l', hl', rfl⟩ := List.mem_map.mp hl
  simp [kept, h l' hl']

theorem cleaned_congr {l l' : List Char} (h : trim l = trim l') (ls : List (List Char)) :
    cleaned (l :: ls) = cleaned (l' :: ls) := by
  rw [cleaned, List.map_cons, h, cleaned, List.map_cons]

theorem trim_stripSuffix (l : List Char) : trim ((stripSuffix ['\r'] l).getD l) = trim l := by
  cases hs : stripSuffix ['\r'] l
  case none => rfl
  case some t =>
    rw [stripSuffix_eq_some_iff.mp hs]
    exact (trim_append_blanks (by simp [isWhitespace]) t).symm

theorem cleaned_lines (s : List Char) : cleaned (lines s) = cleaned (split '\n' s) := by
  have hfront : ∀ ls : List (List Char), cleaned (ls.map fun l => (stripSuffix ['\r'] l).getD l) = cleaned ls := by
    intro ls
    rw [cleaned, cleaned, List.map_map]
    exact congrArg _ (List.map_congr_left fun l _ => trim_stripSuffix l)
  have hd := List.dropLast_append_getLast (split_ne_nil '\n' s)
  rw [lines]
  conv => rhs; rw [← hd]
  rw [cleaned_append, cleaned_append, hfront, List.getLast?_eq_some_getLast (split_ne_nil '\n' s)]
  congr 1
  by_cases hl : (split '\n' s).getLast (split_ne_nil '\n' s) = []
  case pos =>
    rw [hl]
    rfl
  case neg => simp [Option.filter, hl]

theorem parseLinks_eq (s : List Char) : parseLinks s = (cleaned (split '\n' s)).map Link.parseLink :=
  congrArg (List.map Link.parseLink) (cleaned_lines s)

theorem cleaned_blanks_append (h : ∀ c ∈ w, isWhitespace c = true) (s : List Char) :
    cleaned (split '\n' (w ++ s)) = cleaned (split '\n' s) := by
  obtain ⟨front, last, first, back, hw, hs, hws⟩ := split_append '\n' w s
  have hpieces : ∀ piece ∈ split '\n' w, ∀ c ∈ piece, isWhitespace c = true := fun piece hp c hc =>
    h c ((infix_of_mem_split hp).subset hc)
  rw [hw] at hpieces
  have hlast := hpieces last (by simp)
  have hfront : cleaned front = [] :=
    cleaned_blank fun l hl => trim_eq_nil_iff.mpr (hpieces l (List.mem_append_left _ hl))
  rw [hws, hs, cleaned_append, hfront, List.nil_append, cleaned_congr (trim_blanks_append hlast first)]

theorem cleaned_append_blanks (h : ∀ c ∈ w, isWhitespace c = true) (s : List Char) :
    cleaned (split '\n' (s ++ w)) = cleaned (split '\n' s) := by
  obtain ⟨front, last, first, back, hs, hw, hsw⟩ := split_append '\n' s w
  have hpieces : ∀ piece ∈ split '\n' w, ∀ c ∈ piece, isWhitespace c = true := fun piece hp c hc =>
    h c ((infix_of_mem_split hp).subset hc)
  rw [hw] at hpieces
  have hfirst := hpieces first (by simp)
  have hback : cleaned back = [] :=
    cleaned_blank fun l hl => trim_eq_nil_iff.mpr (hpieces l (List.mem_cons_of_mem _ hl))
  have he : front ++ (last ++ first) :: back = front ++ ([last ++ first] ++ back) := by simp
  rw [hsw, hs, he, cleaned_append, cleaned_append, cleaned_append, hback, List.append_nil,
    cleaned_congr (trim_append_blanks hfirst last)]

-- Blanks around the text make no difference.
theorem parseLinks_trim (s : List Char) : parseLinks (trim s) = parseLinks s := by
  obtain ⟨a, b, hs, ha, hb⟩ := exists_trim s
  have he : cleaned (split '\n' s) = cleaned (split '\n' (trim s)) :=
    calc cleaned (split '\n' s) = cleaned (split '\n' (a ++ (trim s ++ b))) := by rw [← hs]
      _ = cleaned (split '\n' (trim s ++ b)) := cleaned_blanks_append ha _
      _ = cleaned (split '\n' (trim s)) := cleaned_append_blanks hb _
  rw [parseLinks_eq, parseLinks_eq, he]

end Pieces

section Heads

variable {l s : List Char}

-- The letters that the schemes of the links begin with.
def schemeHeads : List Char :=
  ['v', 't', 's', 'h']

theorem byScheme_known {scheme : String} {p : ServerProfile} (h : Link.byScheme scheme s = .ok p) :
    ∃ c tl, scheme.toList = c :: tl ∧ c ∈ schemeHeads := by
  rw [Link.byScheme.eq_def] at h
  split at h
  case h_11 => cases h
  all_goals exact ⟨_, _, rfl, by decide⟩

theorem head_of_link {p : ServerProfile} (h : Link.parseLink l = .ok p) :
    ∃ c, (trim l).head? = some c ∧ toAsciiLowercase c ∈ schemeHeads ∧ "://".toList <:+: l := by
  simp only [Link.parseLink] at h
  split at h
  case isTrue => cases h
  case isFalse =>
    cases ho : splitOnceOn "://".toList (trim l)
    case none =>
      rw [ho] at h
      cases h
    case some parts =>
      obtain ⟨scheme, rest⟩ := parts
      rw [ho] at h
      obtain ⟨c, tl, hlow, hc⟩ := byScheme_known h
      rw [asciiLower, String.toList_ofList, String.toList_ofList] at hlow
      obtain ⟨d, tl', rfl, rfl, -⟩ := List.map_eq_cons_iff.mp hlow
      have he := eq_of_splitOnceOn ho
      refine ⟨d, by rw [he]; rfl, hc, ?_⟩
      obtain ⟨a, b, hl, -⟩ := exists_trim l
      rw [hl, he]
      exact ⟨a ++ (d :: tl'), rest ++ b, by simp⟩

theorem not_comment_of_link {p : ServerProfile} (h : Link.parseLink l = .ok p) :
    (trim l).isEmpty = false ∧ isComment (trim l) = false := by
  obtain ⟨c, hc, hlow, -⟩ := head_of_link h
  obtain ⟨tl, ht⟩ := List.head?_eq_some_iff.mp hc
  have h₁ : c ≠ '#' := by
    rintro rfl
    exact absurd hlow (by decide)
  have h₂ : c ≠ '/' := by
    rintro rfl
    exact absurd hlow (by decide)
  rw [ht]
  refine ⟨rfl, ?_⟩
  simp [isComment, h₁, List.isPrefixOf, h₂.symm]

theorem head_of_header (h : Clash.isHeader l = true) : (trim l).head? = some 'p' := by
  rw [Clash.isHeader] at h
  split at h
  case h_2 => cases h
  case h_1 after hp =>
    have hp := stripPrefix_eq_some_iff.mp hp
    have hb := trim_eq_nil_iff.mp (List.isEmpty_iff.mp h)
    rw [← trimEnd_trimStart, hp, trimEnd_append_blanks hb]
    rfl

theorem parseClash_of_no_header (h : ∀ l ∈ lines s, Clash.isHeader l = false) :
    Clash.parseClash s = [.error (.json "нет секции proxies")] := by
  have hf : ∀ ls : List (List Char), (∀ l ∈ ls, Clash.isHeader l = false) → Clash.findSection ls = none := by
    intro ls hls
    induction ls
    case nil => rfl
    case cons l ls hi =>
      rw [Clash.findSection, hls l List.mem_cons_self]
      exact hi fun l' hl' => hls l' (List.mem_cons_of_mem _ hl')
  rw [Clash.parseClash, hf _ h]

-- Where a text begins, one of its lines begins.
theorem exists_head_trimStart {c : Char} (h : (trimStart s).head? = some c) :
    ∃ l ∈ split '\n' s, (trim l).head? = some c := by
  induction s
  case nil => cases h
  case cons x s hi =>
    obtain ⟨first, back, hs⟩ := List.exists_cons_of_ne_nil (split_ne_nil '\n' s)
    rw [hs] at hi
    rw [split, hs]
    by_cases hx : isWhitespace x = true
    case pos =>
      rw [trimStart, List.dropWhile_cons_of_pos hx] at h
      obtain ⟨l, hl, hc⟩ := hi h
      split
      case isTrue  => exact ⟨l, List.mem_cons_of_mem _ hl, hc⟩
      case isFalse =>
        rcases List.mem_cons.mp hl with rfl | hl
        · refine ⟨x :: l, List.mem_cons_self, ?_⟩
          rwa [trim_cons_blank hx]
        · exact ⟨l, List.mem_cons_of_mem _ hl, hc⟩
    case neg =>
      rw [trimStart, List.dropWhile_cons_of_neg hx] at h
      cases h
      have hne : c ≠ '\n' := by
        rintro rfl
        exact hx (by decide)
      rw [if_neg hne]
      refine ⟨c :: first, List.mem_cons_self, ?_⟩
      exact head?_trim_cons (Bool.eq_false_of_not_eq_true hx) first

end Heads

-- Links, comments and blank lines, and a link among them.
structure LinkList where
  lines  : List (List Char)
  single : ∀ l ∈ lines, '\n' ∉ l
  kinds  : ∀ l ∈ lines, (∃ p, Link.parseLink l = .ok p) ∨ isComment (trim l) = true ∨ trim l = []
  link   : ∃ l ∈ lines, ∃ p, Link.parseLink l = .ok p

namespace LinkList

def text (l : LinkList) : List Char :=
  ['\n'].intercalate l.lines

-- A result for each link, in the order of the lines.
def results (l : LinkList) : List (Except ParseError ServerProfile) :=
  (l.lines.map Link.parseLink).filter isOk

variable (l : LinkList) (f64 : List Char → Option (Option Nat))

theorem split_text : split '\n' l.text = l.lines := by
  obtain ⟨x, hx, _⟩ := l.link
  exact split_intercalate (List.ne_nil_of_mem hx) l.single

theorem parseLinks_text : parseLinks l.text = l.results := by
  rw [parseLinks_eq, split_text, results]
  have hall := l.kinds
  generalize l.lines = ls at hall
  induction ls
  case nil => rfl
  case cons x ls hi =>
    have hi := hi fun x' hx' => hall x' (List.mem_cons_of_mem _ hx')
    have ht := Link.parseLink_trim x
    rw [cleaned, List.map_cons, List.map_cons]
    rcases hall x List.mem_cons_self with ⟨p, hp⟩ | hc | hb
    · obtain ⟨hne, hnc⟩ := not_comment_of_link hp
      rw [List.filter_cons_of_pos (by simp [kept, hne, hnc]), List.map_cons, ht,
        List.filter_cons_of_pos (by rw [hp]; rfl)]
      exact congrArg _ hi
    · have hr : ∀ p, Link.parseLink x ≠ .ok p := fun p hp => by
        rw [(not_comment_of_link hp).2] at hc
        cases hc
      rw [List.filter_cons_of_neg (by simp [kept, hc])]
      rw [List.filter_cons_of_neg]
      · exact hi
      cases hx : Link.parseLink x
      case error e => exact Bool.false_ne_true
      case ok p    => exact absurd hx (hr p)
    · rw [List.filter_cons_of_neg (by simp [kept, hb]), List.filter_cons_of_neg]
      · exact hi
      rw [← ht, hb]
      exact Bool.false_ne_true

theorem exists_ok : ∃ p, .ok p ∈ l.results := by
  obtain ⟨x, hx, p, hp⟩ := l.link
  refine ⟨p, List.mem_filter.mpr ⟨?_, rfl⟩⟩
  rw [← hp]
  exact List.mem_map_of_mem hx

theorem marked : "://".toList <:+: l.text := by
  obtain ⟨x, hx, p, hp⟩ := l.link
  obtain ⟨_, _, _, hm⟩ := head_of_link hp
  rw [← split_text] at hx
  exact hm.trans (infix_of_mem_split hx)

theorem decodeBody_text : decodeBody l.text = trim l.text := by
  have hm := contains_iff.mpr (infix_trim ⟨':', rfl, rfl⟩ ⟨'/', rfl, rfl⟩ l.marked)
  rw [decodeBody, if_pos hm]

-- No line begins like a JSON text, or like the header of a section.
theorem head_of_line {x : List Char} (hx : x ∈ l.lines) {c : Char} (hc : (trim x).head? = some c) :
    c = '#' ∨ c = '/' ∨ toAsciiLowercase c ∈ schemeHeads := by
  rcases l.kinds x hx with ⟨p, hp⟩ | hm | hb
  · obtain ⟨d, hd, hlow, -⟩ := head_of_link hp
    cases hd.symm.trans hc
    exact .inr (.inr hlow)
  · obtain ⟨tl, ht⟩ := List.head?_eq_some_iff.mp hc
    rw [ht] at hm
    rcases Bool.or_eq_true_iff.mp hm with hm | hm
    · exact .inl (by simpa using hm)
    · simp [List.isPrefixOf] at hm
      exact .inr (.inl hm.1.symm)
  · rw [hb] at hc
    cases hc

theorem not_json : (trimStart l.text).head? ≠ some '{' ∧ (trimStart l.text).head? ≠ some '[' := by
  have hall : ∀ c, (trimStart l.text).head? = some c → c = '#' ∨ c = '/' ∨ toAsciiLowercase c ∈ schemeHeads := by
    intro c hc
    obtain ⟨x, hx, hc⟩ := exists_head_trimStart hc
    rw [split_text] at hx
    exact l.head_of_line hx hc
  exact ⟨fun h => absurd (hall _ h) (by decide), fun h => absurd (hall _ h) (by decide)⟩

theorem parseClash_text : Clash.parseClash l.text = [.error (.json "нет секции proxies")] := by
  refine parseClash_of_no_header fun x hx => Bool.eq_false_iff.mpr fun hh => ?_
  have hp := head_of_header hh
  have hy : ∃ y ∈ l.lines, trim y = trim x := by
    rw [Text.lines, split_text] at hx
    rcases List.mem_append.mp hx with hx | hx
    · obtain ⟨y, hy, rfl⟩ := List.mem_map.mp hx
      exact ⟨y, List.mem_of_mem_dropLast hy, (trim_stripSuffix y).symm⟩
    · obtain ⟨hx, _⟩ := Option.filter_eq_some_iff.mp (Option.mem_toList.mp hx)
      exact ⟨x, List.mem_of_getLast? hx, rfl⟩
  obtain ⟨y, hy, he⟩ := hy
  rw [← he] at hp
  exact absurd (l.head_of_line hy hp) (by decide)

theorem parseSubscription_text : parseSubscription f64 l.text =
    if "proxies:".toList <:+: l.text then [.error (.json "нет секции proxies")] else l.results := by
  have hc : contains "proxies:".toList (trimStart l.text) = true ↔ "proxies:".toList <:+: l.text := by
    rw [contains_iff]
    exact ⟨fun h => h.trans (List.dropWhile_suffix _).isInfix, infix_dropWhile ⟨'p', rfl, rfl⟩⟩
  obtain ⟨h₁, h₂⟩ := l.not_json
  simp only [parseSubscription, h₁, h₂, or_false, if_false]
  by_cases h : "proxies:".toList <:+: l.text
  case pos => rw [if_pos (hc.mpr h), if_pos h, parseClash_text]
  case neg => rw [if_neg (hc.not.mpr h), if_neg h, decodeBody_text, parseLinks_trim, parseLinks_text]

end LinkList

section Encoded

variable {bytes : List UInt8} {t : List Char}

theorem isText_trim (h : Base64.IsText bytes t) : Base64.IsText bytes (trim t) := by
  obtain ⟨a, b, ht, ha, hb⟩ := exists_trim t
  have hfill : ∀ w : List Char, (∀ c ∈ w, isWhitespace c = true) → (∀ c ∈ w, c ∈ t) → Base64.symbols w = [] := by
    intro w hw hm
    rw [Base64.symbols, List.map_eq_nil_iff, List.filter_eq_nil_iff]
    intro c hc
    rcases Base64.mem_isText h (hm c hc) with hf | hs | rfl | rfl
    · simpa using hf
    · have hall : ∀ d ∈ Base64.alphabet, isWhitespace d = false := forall_mem_of_all (by decide +kernel)
      exact absurd ((hall c hs).symm.trans (hw c hc)) Bool.false_ne_true
    · exact absurd (hw _ hc) (by decide)
    · exact absurd (hw _ hc) (by decide)
  have happ : ∀ x y, Base64.symbols (x ++ y) = Base64.symbols x ++ Base64.symbols y := by simp [Base64.symbols]
  have hs : Base64.symbols t = Base64.symbols (trim t) := by
    conv => lhs; rw [ht]
    rw [happ, happ, hfill a ha (fun c hc => by rw [ht]; simp [hc]), hfill b hb (fun c hc => by rw [ht]; simp [hc]),
      List.nil_append, List.append_nil]
  exact hs.symm.trans h

-- The text of the base64 has none of the marks of the other forms.
theorem parseSubscription_isText (l : LinkList) (f64 : List Char → Option (Option Nat))
    (h : Base64.IsText (Utf8.encode l.text) t) : parseSubscription f64 t = l.results := by
  have hcolon : ':' ∉ t := Base64.not_mem_isText h (by decide)
  have hbrace : '{' ∉ t := Base64.not_mem_isText h (by decide)
  have hbracket : '[' ∉ t := Base64.not_mem_isText h (by decide)
  have hhead : ∀ c, (trimStart t).head? = some c → c ∈ t := fun c hc =>
    (List.dropWhile_suffix _).subset (List.mem_of_head? hc)
  have h₁ : (trimStart t).head? ≠ some '{' := fun hc => hbrace (hhead _ hc)
  have h₂ : (trimStart t).head? ≠ some '[' := fun hc => hbracket (hhead _ hc)
  have hclash : contains "proxies:".toList (trimStart t) = false := by
    refine Bool.eq_false_iff.mpr fun hc => hcolon ?_
    exact (List.dropWhile_suffix _).subset ((contains_iff.mp hc).subset (by decide))
  have hmark : contains "://".toList (trim t) = false := by
    refine Bool.eq_false_iff.mpr fun hc => hcolon ?_
    exact mem_of_mem_trim ((contains_iff.mp hc).subset (by decide))
  have hbody : decodeBody t = l.text := by
    rw [decodeBody, hmark, Base64.decodeToString_isText (isText_trim h)]
    simp only [Bool.false_eq_true, if_false, String.toList_ofList, contains_iff.mpr l.marked, if_true]
  simp only [parseSubscription, h₁, h₂, or_false, if_false, hclash, Bool.false_eq_true]
  rw [hbody, l.parseLinks_text]

-- The base64 of a list is always read as the list, the list itself unless it looks like the config of Clash.
theorem raw_agrees_iff (l : LinkList) (f64 : List Char → Option (Option Nat))
    (h : Base64.IsText (Utf8.encode l.text) t) :
    parseSubscription f64 t = l.results ∧
      (parseSubscription f64 l.text = parseSubscription f64 t ↔ ¬"proxies:".toList <:+: l.text) := by
  rw [parseSubscription_isText l f64 h, l.parseSubscription_text f64]
  refine ⟨rfl, ?_⟩
  split
  case isFalse hc => exact iff_of_true rfl hc
  case isTrue hc =>
    refine iff_of_false (fun he => ?_) (not_not.mpr hc)
    obtain ⟨p, hp⟩ := l.exists_ok
    rw [← he] at hp
    cases List.mem_singleton.mp hp

def sampleList : LinkList where
  lines := ["vless://uuid@a.com:443#a".toList, "# comment".toList, [], "trojan://pw@b.com:443#b".toList]
  single := by decide
  kinds := by
    rw [List.forall_mem_cons, List.forall_mem_cons, List.forall_mem_cons, List.forall_mem_singleton]
    exact ⟨.inl ⟨_, rfl⟩, .inr (.inl rfl), .inr (.inr rfl), .inl ⟨_, rfl⟩⟩
  link := ⟨_, List.mem_cons_self, _, rfl⟩

theorem raw_agrees_iff_sample : ¬"proxies:".toList <:+: sampleList.text ∧
    parseSubscription (fun _ => none) sampleList.text =
      parseSubscription (fun _ => none) (Base64.encodeChunks (Utf8.encode sampleList.text)) := by
  have hc : ¬"proxies:".toList <:+: sampleList.text := by decide
  exact ⟨hc, (raw_agrees_iff sampleList (fun _ => none) (Base64.isText_encodeChunks _)).2.mpr hc⟩

set_option maxRecDepth 4000 in
-- A name is enough.
theorem proxies_in_name :
    parseSubscription (fun _ => none) "trojan://p@h:1#proxies:".toList = [.error (.json "нет секции proxies")] ∧
    ∃ p, parseSubscription (fun _ => none) (Base64.encodeChunks (Utf8.encode "trojan://p@h:1#proxies:".toList)) =
      [.ok p] ∧ p.name = "proxies:" :=
  ⟨rfl, _, rfl, rfl⟩

end Encoded
end JammVpn.Subscription
