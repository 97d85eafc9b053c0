import Mathlib.Data.List.TakeWhile
import JammVpn.Core.Json

-- The parser makes of every JSON text the value that it is a text of, and comes to an end with every other text.
namespace JammVpn.JsonParser

open Cursor Json Text

section Sound

variable {n : Nat}

theorem sound_jsonErr {α : Type} : Sound (jsonErr : Parser α) n :=
  sound_fail _

theorem sound_next : Sound next n := by
  refine sound_bump.bind fun c => ?_
  cases c
  case none   => exact sound_jsonErr
  case some c => exact sound_pure c

theorem eats_next : Eats next := by
  intro s c rest h
  cases s
  case nil      => cases h
  case cons d s =>
    cases h
    exact Nat.lt_succ_self _

theorem sound_ws : Sound ws n :=
  (sound_takeWhile _).bind fun _ => sound_pure _

theorem sound_literal {α : Type} (word : List Char) (val : α) : Sound (literal word val) n := by
  induction word
  case nil          => exact sound_pure val
  case cons c cs hi => exact sound_bump.bind fun _ => .ite hi sound_jsonErr

theorem sound_hexDigits (k v : Nat) : Sound (hexDigits k v) n := by
  induction k generalizing v
  case zero      => exact sound_pure v
  case succ k hi =>
    refine sound_next.bind fun c => ?_
    cases toDigit 16 c
    case none   => exact sound_jsonErr
    case some d => exact hi (v * 16 + d)

theorem sound_unicodeEscape : Sound unicodeEscape n := by
  refine (sound_hexDigits 4 0).bind fun cp => .ite ?_ (sound_pure _)
  refine sound_bump.bind fun _ => .ite sound_jsonErr <| sound_bump.bind fun _ => .ite sound_jsonErr ?_
  refine (sound_hexDigits 4 0).bind fun lo => .ite ?_ sound_jsonErr
  cases charFromU32 (0x10000 + ((cp - 0xd800) <<< 10) + (lo - 0xdc00))
  case none   => exact sound_jsonErr
  case some c => exact sound_pure c

theorem sound_escape : Sound escape n := by
  refine sound_next.bind fun c => ?_
  split
  case h_9  => exact sound_unicodeEscape
  case h_10 => exact sound_jsonErr
  all_goals exact sound_pure _

theorem sound_stringTurn (out : List Char) : Sound (stringTurn out) n :=
  sound_next.bind fun _ => .ite (sound_pure _) <| .ite (sound_escape.bind fun _ => sound_pure _) (sound_pure _)

theorem eats_stringTurn (out : List Char) : Eats (stringTurn out) :=
  eats_next.bind fun _ =>
    .ite (forward_pure _) <| .ite ((@sound_escape 0).forward.bind fun _ => forward_pure _) (forward_pure _)

theorem sound_string : Sound string n :=
  (sound_advance 1).bind fun _ =>
    (sound_iterate sound_stringTurn (progresses_of_eats eats_stringTurn) []).bind fun _ => sound_pure _

variable {ν : Type} {f64 : List Char → Option ν} {inner : Parser (Value ν)}

theorem sound_sign : Sound sign n :=
  sound_peek.bind fun _ => .ite ((sound_advance 1).bind fun _ => sound_pure _) (sound_pure _)

theorem sound_number : Sound (number f64) n := by
  refine sound_sign.bind fun front => (sound_takeWhile _).bind fun rest => ?_
  cases f64 (front ++ rest)
  case none   => exact sound_jsonErr
  case some x => exact sound_pure _

theorem sound_arrayTurn (h : Sound inner n) (items : List (Value ν)) : Sound (arrayTurn inner items) n :=
  h.bind fun _ => sound_ws.bind fun _ => sound_next.bind fun _ =>
    .ite (sound_pure _) <| .ite (sound_pure _) sound_jsonErr

theorem eats_arrayTurn (h : Forward inner) (items : List (Value ν)) : Eats (arrayTurn inner items) :=
  h.eats_bind fun _ => (@sound_ws 0).forward.eats_bind fun _ => eats_next.bind fun _ =>
    .ite (forward_pure _) <| .ite (forward_pure _) (forward_throw _)

theorem sound_arrayItems (h : Sound inner n) : Sound (arrayItems inner) n :=
  sound_ws.bind fun _ => sound_peek.bind fun _ => .ite ((sound_advance 1).bind fun _ => sound_pure _) <|
    sound_iterate (sound_arrayTurn h) (progresses_of_eats (eats_arrayTurn h.forward)) []

theorem sound_objectTurn (h : Sound inner n) (items : List (String × Value ν)) :
    Sound (objectTurn inner items) n :=
  sound_ws.bind fun _ => sound_peek.bind fun _ => .ite sound_jsonErr <| sound_string.bind fun _ =>
    sound_ws.bind fun _ => sound_bump.bind fun _ => .ite sound_jsonErr <| h.bind fun _ =>
      sound_ws.bind fun _ => sound_next.bind fun _ => .ite (sound_pure _) <| .ite (sound_pure _) sound_jsonErr

theorem eats_objectTurn (h : Forward inner) (items : List (String × Value ν)) : Eats (objectTurn inner items) :=
  (@sound_ws 0).forward.eats_bind fun _ => forward_peek.eats_bind fun _ => .ite (eats_throw _) <|
    (@sound_string 0).forward.eats_bind fun _ => (@sound_ws 0).forward.eats_bind fun _ =>
      forward_bump.eats_bind fun _ => .ite (eats_throw _) <| h.eats_bind fun _ =>
        (@sound_ws 0).forward.eats_bind fun _ => eats_next.bind fun _ =>
          .ite (forward_pure _) <| .ite (forward_pure _) (forward_throw _)

theorem sound_objectItems (h : Sound inner n) : Sound (objectItems inner) n :=
  sound_ws.bind fun _ => sound_peek.bind fun _ => .ite ((sound_advance 1).bind fun _ => sound_pure _) <|
    sound_iterate (sound_objectTurn h) (progresses_of_eats (eats_objectTurn h.forward)) []

-- Behind its first character there is less left for what is inside of a value.
theorem safe_valueAt (h : Sound inner n) {s : List Char} (hs : s.length < n) (c : Char) (f : Fault ParseError)
    (hf : (valueAt f64 inner c (c :: s)).1 = .error f) : ∃ e, f = .error e := by
  rw [valueAt] at hf
  have hl : (c :: s).length < n + 1 := Nat.succ_lt_succ hs
  split at hf
  case isTrue => exact (sound_objectItems h).safe s hs f hf
  case isFalse =>
    split at hf
    case isTrue => exact (sound_arrayItems h).safe s hs f hf
    case isFalse =>
      refine Sound.safe (m := _) ?_ (c :: s) hl f hf
      exact .ite (sound_string.bind fun _ => sound_pure _) <| .ite (sound_literal _ _) <|
        .ite (sound_literal _ _) <| .ite (sound_literal _ _) <| .ite sound_number sound_jsonErr

theorem forward_valueAt (h : Forward inner) (c : Char) : Forward (valueAt f64 inner c) :=
  have hs : Sound inner 0 := ⟨h, fun _ hs => absurd hs (Nat.not_lt_zero _)⟩
  .ite ((forward_advance 1).bind fun _ => (sound_objectItems hs).forward) <|
  .ite ((forward_advance 1).bind fun _ => (sound_arrayItems hs).forward) <|
  .ite ((@sound_string 0).forward.bind fun _ => forward_pure _) <|
  .ite (@sound_literal 0 _ _ _).forward <| .ite (@sound_literal 0 _ _ _).forward <|
  .ite (@sound_literal 0 _ _ _).forward <| .ite (@sound_number 0 _ _).forward (forward_throw _)

theorem ws_eq (s : List Char) : ws s = (.ok (), s.dropWhile isWs) :=
  rfl

theorem value_eq_error {s : List Char} (h : s.dropWhile isWs = []) :
    value f64 (n + 1) s = (.error (.error (.json "некорректный JSON")), []) := by
  rw [value, bind_eq (ws_eq s), h]
  rfl

theorem value_eq_valueAt {s rest : List Char} {c : Char} (h : s.dropWhile isWs = c :: rest) :
    value f64 (n + 1) s = valueAt f64 (value f64 n) c (c :: rest) := by
  have hp : (peek : Parser (Option Char)) (c :: rest) = (.ok (some c), c :: rest) := rfl
  rw [value, bind_eq (ws_eq s), h]
  exact bind_eq hp

theorem sound_value (f64 : List Char → Option ν) (n : Nat) : Sound (value f64 n) n := by
  induction n
  case zero => exact ⟨forward_throw _, fun _ hs => absurd hs (Nat.not_lt_zero _)⟩
  case succ n hi =>
    constructor
    case forward =>
      refine (@sound_ws 0).forward.bind fun _ => forward_peek.bind fun c => ?_
      cases c
      case none   => exact forward_throw _
      case some c => exact forward_valueAt hi.forward c
    case safe =>
      intro s hs f hf
      have hle : (s.dropWhile isWs).length ≤ s.length := (List.dropWhile_suffix isWs).length_le
      cases hd : s.dropWhile isWs
      case nil =>
        rw [value_eq_error hd] at hf
        cases hf
        exact ⟨_, rfl⟩
      case cons c rest =>
        rw [value_eq_valueAt hd] at hf
        rw [hd, List.length_cons] at hle
        exact safe_valueAt hi (by omega) c f hf

end Sound

section Strings

variable {c d : Char} {s t h rest : List Char} {n v : Nat}

theorem next_cons (c : Char) (s : List Char) : next (c :: s) = (.ok c, s) :=
  rfl

theorem hexDigits_cons {d : Nat} (h : toDigit 16 c = some d) (n v : Nat) (s : List Char) :
    hexDigits (n + 1) v (c :: s) = hexDigits n (v * 16 + d) s := by
  rw [hexDigits, bind_eq (next_cons c s), h]

theorem reads_hex4 (h4 : Hex4 h n) : Reads hex4 h n := by
  obtain ⟨a, b, c, d, x, y, z, w, rfl, ha, hb, hc, hd, rfl⟩ := h4.digits
  intro rest
  show hexDigits 4 0 (a :: b :: c :: d :: rest) = _
  rw [hexDigits_cons ha, hexDigits_cons hb, hexDigits_cons hc, hexDigits_cons hd, Nat.zero_mul, Nat.zero_add]
  rfl

theorem charFromU32_toNat (c : Char) : charFromU32 c.toNat = some c := by
  have hv : c.toNat.isValidChar := c.valid
  rw [charFromU32, if_pos hv, Char.ofNat_toNat]

theorem reads_bump {α : Type} {m : Parser α} {a : α} (c : Char) (h : Reads m t a) :
    Reads (do if (← bump) ≠ some c then jsonErr else m : Parser α) (c :: t) a := by
  intro rest
  have hb : (bump : Parser (Option Char)) (c :: (t ++ rest)) = (.ok (some c), t ++ rest) := rfl
  rw [List.cons_append, bind_eq hb, if_neg (not_not_intro rfl)]
  exact h rest

theorem reads_unicodeEscape (h4 : Hex4 h c.toNat) : Reads unicodeEscape h c := by
  have hv : c.toNat < 0xd800 ∨ 0xdfff < c.toNat ∧ c.toNat < 0x110000 := c.valid
  have hno : ¬(0xd800 ≤ c.toNat ∧ c.toNat ≤ 0xdbff) := by omega
  refine (reads_hex4 h4).last ?_
  rw [if_neg hno, charFromU32_toNat]
  rfl

-- The surrogates of a character give it back.
theorem reads_surrogates {l : List Char} (hc : 0x10000 ≤ c.toNat)
    (hh : Hex4 h (0xd800 + (c.toNat - 0x10000) / 0x400)) (hl : Hex4 l (0xdc00 + (c.toNat - 0x10000) % 0x400)) :
    Reads unicodeEscape (h ++ '\\' :: 'u' :: l) c := by
  have hv : c.toNat < 0xd800 ∨ 0xdfff < c.toNat ∧ c.toNat < 0x110000 := c.valid
  refine (reads_hex4 hh).bind ?_
  rw [if_pos (by omega)]
  refine reads_bump '\\' (reads_bump 'u' ((reads_hex4 hl).last ?_))
  have hsum : 0x10000 + ((0xd800 + (c.toNat - 0x10000) / 0x400 - 0xd800) <<< 10) +
      (0xdc00 + (c.toNat - 0x10000) % 0x400 - 0xdc00) = c.toNat := by
    rw [Nat.shiftLeft_eq]
    omega
  rw [if_pos (by omega), hsum, charFromU32_toNat]

theorem stringTurn_quote (out rest : List Char) : stringTurn out ('"' :: rest) = (.ok (.inr out), rest) :=
  rfl

theorem reads_escaped {out : List Char} (h : Reads escape t c) :
    Reads (stringTurn out) ('\\' :: t) (.inl (out ++ [c])) := by
  intro rest
  have he : (escape >>= fun c => pure (.inl (out ++ [c])) : Parser (List Char ⊕ List Char)) (t ++ rest) =
      (.ok (.inl (out ++ [c])), rest) := by
    rw [bind_eq (h rest)]
    rfl
  exact he

theorem reads_charText (h : CharText c t) (out : List Char) : Reads (stringTurn out) t (.inl (out ++ [c])) := by
  cases h
  case raw hr hq hb =>
    intro rest
    rw [stringTurn, List.singleton_append, bind_eq (next_cons c rest), if_neg hq, if_neg hb]
    rfl
  case unicode h hc   => exact reads_escaped fun rest => reads_unicodeEscape hc rest
  case pair h l hh hl => exact reads_escaped fun rest => reads_surrogates ‹_› hh hl rest
  all_goals exact reads_escaped fun rest => rfl

theorem reads_charsText (h : CharsText s t) (out rest : List Char) :
    iterate stringTurn out (t ++ '"' :: rest) = (.ok (out ++ s), rest) := by
  induction h generalizing out
  case nil =>
    rw [List.append_nil]
    exact iterate_inr (stringTurn_quote out rest)
  case cons c s t ts hc _ hi =>
    have hr := reads_charText hc out (ts ++ '"' :: rest)
    rw [List.append_assoc, iterate_inl (progresses_of_eats eats_stringTurn) hr, hi, List.append_assoc]
    rfl

theorem reads_string {s : String} (h : StringText s t) : Reads string t s := by
  obtain ⟨body, rfl, hs⟩ := h
  intro rest
  have hi := reads_charsText hs [] rest
  have hadv : (advance 1 : Parser Unit) ('"' :: (body ++ '"' :: rest)) = (.ok (), body ++ '"' :: rest) := rfl
  rw [List.cons_append, List.append_assoc, List.singleton_append, string, bind_eq hadv, bind_eq hi,
    List.nil_append, String.ofList_toList]
  rfl

end Strings

section Blanks

variable {w s : List Char}

theorem isWs_iff (c : Char) : isWs c = true ↔ IsBlank c := by
  simp [isWs, IsBlank, or_assoc]

theorem dropWhile_blanks (hw : Blanks w) (s : List Char) : (w ++ s).dropWhile isWs = s.dropWhile isWs :=
  List.dropWhile_append_of_pos fun c hc => (isWs_iff c).mpr (hw c hc)

theorem dropWhile_of_not_blank {c : Char} (h : ¬IsBlank c) (s : List Char) :
    (c :: s).dropWhile isWs = c :: s :=
  List.dropWhile_cons_of_neg fun hb => h ((isWs_iff c).mp hb)

theorem ws_blanks (hw : Blanks w) {c : Char} (h : ¬IsBlank c) (s : List Char) :
    ws (w ++ c :: s) = (.ok (), c :: s) := by
  rw [ws_eq, dropWhile_blanks hw, dropWhile_of_not_blank h]

end Blanks

section Numbers

variable {s : List Char}

-- A character ends a number unless it can be in one.
def Ends (rest : List Char) : Prop :=
  ∀ c ∈ rest.head?, isNumberChar c = false

theorem isNumberChar_of_digits (h : Digits s) : ∀ c ∈ s, isNumberChar c = true := by
  intro c hc
  simp [isNumberChar, h.2 c hc]

theorem isNumberChar_of_numberText (h : NumberText s) : ∀ c ∈ s, isNumberChar c = true := by
  obtain ⟨sign, int, frac, exp, rfl, hs, hi, hf, he⟩ := h
  simp only [List.mem_append]
  rintro c (hc | hc | hc | hc)
  · rcases hs with rfl | rfl
    · cases hc
    · rw [List.mem_singleton.mp hc]
      rfl
  · exact isNumberChar_of_digits hi.1 c hc
  · rcases hf with rfl | ⟨ds, rfl, hd⟩
    · cases hc
    · rcases List.mem_cons.mp hc with rfl | hc
      · rfl
      · exact isNumberChar_of_digits hd c hc
  · rcases he with rfl | ⟨e, esign, ds, rfl, hE, hsign, hd⟩
    · cases hc
    · rw [List.mem_cons, List.mem_append] at hc
      rcases hc with rfl | hc | hc
      · rcases hE with rfl | rfl <;> rfl
      · rcases hsign with rfl | rfl | rfl
        · cases hc
        · rw [List.mem_singleton.mp hc]
          rfl
        · rw [List.mem_singleton.mp hc]
          rfl
      · exact isNumberChar_of_digits hd c hc

-- A number begins with a digit or a minus.
theorem head_of_numberText (h : NumberText s) : ∃ c tl, s = c :: tl ∧ (c = '-' ∨ c.isDigit = true) := by
  obtain ⟨sign, int, frac, exp, rfl, hs, hi, _, _⟩ := h
  rcases hs with rfl | rfl
  · obtain ⟨c, tl, rfl⟩ := List.exists_cons_of_ne_nil hi.1.1
    exact ⟨c, tl ++ (frac ++ exp), rfl, .inr (hi.1.2 c (.head _))⟩
  · exact ⟨'-', int ++ (frac ++ exp), rfl, .inl rfl⟩

theorem takeWhile_number {rest : List Char} (h : ∀ c ∈ s, isNumberChar c = true) (hr : Ends rest) :
    (takeWhile isNumberChar : Parser (List Char)) (s ++ rest) = (.ok s, rest) := by
  have hrest : rest.takeWhile isNumberChar = [] ∧ rest.dropWhile isNumberChar = rest := by
    cases rest
    case nil         => exact ⟨rfl, rfl⟩
    case cons c rest => simp [hr c rfl]
  rw [takeWhile, List.takeWhile_append_of_pos h, List.dropWhile_append_of_pos h, hrest.1, hrest.2,
    List.append_nil]

variable {ν : Type} {f64 : List Char → Option ν} {num : Numeral → ν}

theorem number_numeral (hf : ∀ n : Numeral, f64 n.text = some (num n)) (n : Numeral) {rest : List Char}
    (hr : Ends rest) : number f64 (n.text ++ rest) = (.ok (.number (num n)), rest) := by
  have hchars := isNumberChar_of_numberText n.numberText
  obtain ⟨c, tl, hn, _⟩ := head_of_numberText n.numberText
  have hfront : ∃ front more, sign (n.text ++ rest) = (.ok front, more ++ rest) ∧ front ++ more = n.text := by
    by_cases hc : c = '-'
    case pos =>
      refine ⟨['-'], tl, ?_, by rw [hn, hc]; rfl⟩
      rw [hn, hc]
      rfl
    case neg =>
      refine ⟨[], n.text, ?_, rfl⟩
      have hp : (peek : Parser (Option Char)) (n.text ++ rest) = (.ok (some c), n.text ++ rest) := by
        rw [hn]
        rfl
      rw [sign, bind_eq hp, if_neg fun h => hc (Option.some.inj h)]
      rfl
  obtain ⟨front, more, hsign, happ⟩ := hfront
  have hmore := takeWhile_number (fun c hc => hchars c (happ ▸ List.mem_append_right front hc)) hr
  rw [number, bind_eq hsign, bind_eq hmore, happ]
  simp only [hf]
  rfl

end Numbers

section Values

variable {ν : Type} {f64 : List Char → Option ν} {num : Numeral → ν} {inner : Parser (Value ν)} {v : Value ν}
  {t w rest : List Char} {c : Char}

-- The reader of the values inside makes this value of this text, wherever a number could end.
def ReadsValue (inner : Parser (Value ν)) (v : Value ν) (t : List Char) : Prop :=
  ∀ w, Blanks w → ∀ rest, Ends rest → inner (w ++ (t ++ rest)) = (.ok v, rest)

theorem ends_blanks (hw : Blanks w) (hc : isNumberChar c = false) (rest : List Char) : Ends (w ++ c :: rest) := by
  intro d hd
  cases w
  case nil =>
    cases hd
    exact hc
  case cons e w =>
    cases hd
    rcases hw _ (.head _) with rfl | rfl | rfl | rfl <;> rfl

-- No value begins with a blank or the end of an array.
theorem head_of_renders (h : Renders num v t) : ∃ c tl, t = c :: tl ∧ ¬IsBlank c ∧ c ≠ ']' := by
  have hdigit : ∀ c : Char, c = '-' ∨ c.isDigit = true → ¬IsBlank c ∧ c ≠ ']' := by
    intro c hc
    constructor
    · rintro (rfl | rfl | rfl | rfl) <;> exact absurd hc (by decide)
    · rintro rfl
      exact absurd hc (by decide)
  cases h
  case number n =>
    obtain ⟨c, tl, hn, hc⟩ := head_of_numberText n.numberText
    exact ⟨c, tl, hn, hdigit c hc⟩
  case string s h =>
    obtain ⟨body, rfl, _⟩ := h
    exact ⟨'"', body ++ ['"'], rfl, by decide, by decide⟩
  case null  => exact ⟨'n', "ull".toList, rfl, by decide, by decide⟩
  case true  => exact ⟨'t', "rue".toList, rfl, by decide, by decide⟩
  case false => exact ⟨'f', "alse".toList, rfl, by decide, by decide⟩
  all_goals exact ⟨_, _, rfl, by decide, by decide⟩

section Turns

variable {i : Item ν} {m : Member ν}

theorem arrayTurn_item (hi : ReadsValue inner i.value i.text) (hb : Blanks i.before) (ha : Blanks i.after)
    (hc : c = ',' ∨ c = ']') (items : List (Value ν)) (rest : List Char) :
    arrayTurn inner items (i.render ++ c :: rest) =
      (.ok (if c = ',' then .inl (items ++ [i.value]) else .inr (.array (items ++ [i.value]))), rest) := by
  have hend : isNumberChar c = false := by rcases hc with rfl | rfl <;> rfl
  have hblank : ¬IsBlank c := by rcases hc with rfl | rfl <;> decide
  have hv := hi i.before hb (i.after ++ c :: rest) (ends_blanks ha hend rest)
  rw [Item.render, List.append_assoc, List.append_assoc, arrayTurn, bind_eq hv, bind_eq (ws_blanks ha hblank rest),
    bind_eq (next_cons c rest)]
  rcases hc with rfl | rfl <;> rfl

theorem objectTurn_member (hi : ReadsValue inner m.value m.text) (hk : StringText m.key m.keyText)
    (hkb : Blanks m.keyBefore) (hka : Blanks m.keyAfter) (hb : Blanks m.before) (ha : Blanks m.after)
    (hc : c = ',' ∨ c = '}') (items : List (String × Value ν)) (rest : List Char) :
    objectTurn inner items (m.render ++ c :: rest) =
      (.ok (if c = ',' then .inl (items ++ [m.entry]) else .inr (.object (items ++ [m.entry]))), rest) := by
  have hend : isNumberChar c = false := by rcases hc with rfl | rfl <;> rfl
  have hblank : ¬IsBlank c := by rcases hc with rfl | rfl <;> decide
  have hv := hi m.before hb (m.after ++ c :: rest) (ends_blanks ha hend rest)
  have hkey := reads_string hk (m.keyAfter ++ ':' :: (m.before ++ (m.text ++ (m.after ++ c :: rest))))
  obtain ⟨body, hbody, _⟩ := hk
  rw [hbody, List.cons_append] at hkey
  have hws := ws_blanks hkb (by decide : ¬IsBlank '"')
    (body ++ ['"'] ++ (m.keyAfter ++ ':' :: (m.before ++ (m.text ++ (m.after ++ c :: rest)))))
  have hpeek : (peek : Parser (Option Char)) ('"' :: (body ++ ['"'] ++
      (m.keyAfter ++ ':' :: (m.before ++ (m.text ++ (m.after ++ c :: rest)))))) = (.ok (some '"'), _) := rfl
  have hcolon := ws_blanks hka (by decide : ¬IsBlank ':') (m.before ++ (m.text ++ (m.after ++ c :: rest)))
  have hbump : (bump : Parser (Option Char)) (':' :: (m.before ++ (m.text ++ (m.after ++ c :: rest)))) =
      (.ok (some ':'), m.before ++ (m.text ++ (m.after ++ c :: rest))) := rfl
  simp only [Member.render, Item.render, List.append_assoc, List.cons_append, hbody] at hws hpeek hkey ⊢
  rw [objectTurn, bind_eq hws, bind_eq hpeek, if_neg (not_not_intro rfl), bind_eq hkey, bind_eq hcolon,
    bind_eq hbump, if_neg (not_not_intro rfl), bind_eq hv, bind_eq (ws_blanks ha hblank rest),
    bind_eq (next_cons c rest)]
  rcases hc with rfl | rfl <;> rfl

theorem foldl_push {α β : Type} (f : α → β) (l : List α) (acc : List β) :
    l.foldl (fun acc x => acc ++ [f x]) acc = acc ++ l.map f := by
  induction l generalizing acc
  case nil          => rw [List.foldl_nil, List.map_nil, List.append_nil]
  case cons a l hi => rw [List.foldl_cons, hi, List.append_assoc, List.map_cons, List.singleton_append]

theorem intercalate_cons_append {α : Type} (sep a b : List α) (l : List (List α)) :
    sep.intercalate ((a ++ b) :: l) = a ++ sep.intercalate (b :: l) := by
  cases l
  case nil => simp
  case cons c l =>
    rw [List.intercalate_cons_cons, List.intercalate_cons_cons]
    simp only [List.append_assoc]

theorem arrayItems_items {l : List (Item ν)} (hw : Forward inner) (hne : l ≠ [])
    (hb : ∀ i ∈ l, Blanks i.before ∧ Blanks i.after) (hr : ∀ i ∈ l, ReadsValue inner i.value i.text)
    (hh : ∀ i ∈ l, ∃ c tl, i.text = c :: tl ∧ ¬IsBlank c ∧ c ≠ ']') (rest : List Char) :
    arrayItems inner ([','].intercalate (l.map Item.render) ++ ']' :: rest) =
      (.ok (.array (l.map Item.value)), rest) := by
  obtain ⟨i, l, rfl⟩ := List.exists_cons_of_ne_nil hne
  obtain ⟨hbi, hbl⟩ := List.forall_mem_cons.mp hb
  obtain ⟨hri, hrl⟩ := List.forall_mem_cons.mp hr
  obtain ⟨c, tl, ht, hc, hbracket⟩ := hh i (.head _)
  -- The blanks in front of the first value are skipped before there is a look at it.
  let first : Item ν := { i with before := [] }
  have hfirst : ∀ j ∈ first :: l, (Blanks j.before ∧ Blanks j.after) ∧ ReadsValue inner j.value j.text := by
    refine List.forall_mem_cons.mpr ⟨⟨⟨fun c hc => absurd hc List.not_mem_nil, hbi.2⟩, hri⟩, ?_⟩
    exact fun j hj => ⟨hbl j hj, hrl j hj⟩
  have hloop := iterate_separated (fun items j => items ++ [j.value]) Value.array Item.render
    (progresses_of_eats (eats_arrayTurn hw))
    (fun j hj items rest => arrayTurn_item (hfirst j hj).2 (hfirst j hj).1.1 (hfirst j hj).1.2 (.inl rfl) items rest)
    (fun j hj items rest => arrayTurn_item (hfirst j hj).2 (hfirst j hj).1.1 (hfirst j hj).1.2 (.inr rfl) items rest)
    (List.cons_ne_nil first l) [] rest
  rw [foldl_push, List.nil_append] at hloop
  have htext : [','].intercalate ((i :: l).map Item.render) ++ ']' :: rest =
      i.before ++ ([','].intercalate ((first :: l).map Item.render) ++ ']' :: rest) := by
    rw [List.map_cons, Item.render, intercalate_cons_append, List.append_assoc]
    rfl
  obtain ⟨more, hmore⟩ : ∃ more, [','].intercalate ((first :: l).map Item.render) ++ ']' :: rest = c :: more := by
    have hr : first.render = c :: (tl ++ i.after) := by
      show [] ++ (i.text ++ i.after) = _
      rw [ht]
      rfl
    rw [List.map_cons, hr]
    cases l.map Item.render
    case nil       => exact ⟨_, rfl⟩
    case cons r rs => exact ⟨_, rfl⟩
  have hpeek : (peek : Parser (Option Char)) (c :: more) = (.ok (some c), c :: more) := rfl
  rw [htext, hmore, arrayItems, bind_eq (ws_blanks hbi.1 hc more), bind_eq hpeek,
    if_neg fun h => hbracket (Option.some.inj h), ← hmore, hloop]
  rfl

theorem objectItems_members {l : List (Member ν)} (hw : Forward inner) (hne : l ≠ [])
    (hb : ∀ m ∈ l, Blanks m.keyBefore ∧ Blanks m.keyAfter ∧ Blanks m.before ∧ Blanks m.after)
    (hk : ∀ m ∈ l, StringText m.key m.keyText) (hr : ∀ m ∈ l, ReadsValue inner m.value m.text)
    (rest : List Char) :
    objectItems inner ([','].intercalate (l.map Member.render) ++ '}' :: rest) =
      (.ok (.object (l.map Member.entry)), rest) := by
  obtain ⟨m, l, rfl⟩ := List.exists_cons_of_ne_nil hne
  obtain ⟨hbm, hbl⟩ := List.forall_mem_cons.mp hb
  let first : Member ν := { m with keyBefore := [] }
  have hfirst : ∀ j ∈ first :: l, ReadsValue inner j.value j.text ∧ StringText j.key j.keyText ∧
      Blanks j.keyBefore ∧ Blanks j.keyAfter ∧ Blanks j.before ∧ Blanks j.after := by
    refine List.forall_mem_cons.mpr ⟨⟨hr m (.head _), hk m (.head _), fun c hc => absurd hc List.not_mem_nil, hbm.2⟩, ?_⟩
    exact fun j hj => ⟨hr j (.tail _ hj), hk j (.tail _ hj), hbl j hj⟩
  have hturn : ∀ c, c = ',' ∨ c = '}' → ∀ j ∈ first :: l, ∀ items rest,
      objectTurn inner items (j.render ++ c :: rest) =
        (.ok (if c = ',' then .inl (items ++ [j.entry]) else .inr (.object (items ++ [j.entry]))), rest) := by
    intro c hc j hj items rest
    obtain ⟨hv, hkey, hkb, hka, hbef, haft⟩ := hfirst j hj
    exact objectTurn_member hv hkey hkb hka hbef haft hc items rest
  have hloop := iterate_separated (fun items j => items ++ [j.entry]) Value.object Member.render
    (progresses_of_eats (eats_objectTurn hw)) (hturn ',' (.inl rfl)) (hturn '}' (.inr rfl))
    (List.cons_ne_nil first l) [] rest
  rw [foldl_push, List.nil_append] at hloop
  have htext : [','].intercalate ((m :: l).map Member.render) ++ '}' :: rest =
      m.keyBefore ++ ([','].intercalate ((first :: l).map Member.render) ++ '}' :: rest) := by
    rw [List.map_cons, Member.render, intercalate_cons_append, List.append_assoc]
    rfl
  obtain ⟨more, hmore⟩ : ∃ more, [','].intercalate ((first :: l).map Member.render) ++ '}' :: rest = '"' :: more := by
    obtain ⟨body, hbody, _⟩ := hk m (.head _)
    have hr : first.render = '"' :: (body ++ ['"'] ++ (m.keyAfter ++ ':' :: m.toItem.render)) := by
      show [] ++ (m.keyText ++ _) = _
      rw [hbody]
      rfl
    rw [List.map_cons, hr]
    cases l.map Member.render
    case nil       => exact ⟨_, rfl⟩
    case cons r rs => exact ⟨_, rfl⟩
  have hpeek : (peek : Parser (Option Char)) ('"' :: more) = (.ok (some '"'), '"' :: more) := rfl
  rw [htext, hmore, objectItems, bind_eq (ws_blanks hbm.1 (by decide) more), bind_eq hpeek, if_neg (by decide),
    ← hmore, hloop]
  rfl

end Turns

theorem value_blanks (hw : Blanks w) (hc : ¬IsBlank c) (f64 : List Char → Option ν) (n : Nat) (s : List Char) :
    value f64 (n + 1) (w ++ c :: s) = valueAt f64 (value f64 n) c (c :: s) :=
  value_eq_valueAt ((dropWhile_blanks hw _).trans (dropWhile_of_not_blank hc s))

theorem valueAt_number (h : c = '-' ∨ c.isDigit = true) (f64 : List Char → Option ν) (inner : Parser (Value ν)) :
    valueAt f64 inner c = number f64 := by
  have hne : ∀ d : Char, d ≠ '-' → d.isDigit = false → c ≠ d := by
    rintro d hd hdigit rfl
    rcases h with rfl | h
    · exact hd rfl
    · rw [hdigit] at h
      cases h
  rw [valueAt, if_neg (hne '{' (by decide) rfl), if_neg (hne '[' (by decide) rfl), if_neg (hne '"' (by decide) rfl),
    if_neg (hne 't' (by decide) rfl), if_neg (hne 'f' (by decide) rfl), if_neg (hne 'n' (by decide) rfl), if_pos h]

theorem length_le_intercalate {α : Type} {sep : List α} {l : List (List α)} {a : List α} (h : a ∈ l) :
    a.length ≤ (sep.intercalate l).length := by
  induction l
  case nil => cases h
  case cons b l hi =>
    cases l
    case nil =>
      rw [List.mem_singleton.mp h, List.intercalate_singleton]
    case cons c l =>
      rw [List.intercalate_cons_cons, List.length_append, List.length_append]
      rcases List.mem_cons.mp h with rfl | h
      · omega
      · have := hi h
        omega

-- By induction on the value: a text that fits into the depth is read as it should be.
theorem value_renders (hf : ∀ n : Numeral, f64 n.text = some (num n)) (h : Renders num v t) {n : Nat}
    (hn : t.length < n) (hw : Blanks w) (hr : v.IsNumber → Ends rest) :
    value f64 n (w ++ (t ++ rest)) = (.ok v, rest) := by
  induction h generalizing n w rest <;> obtain ⟨n, rfl⟩ := Nat.exists_eq_succ_of_ne_zero (Nat.ne_zero_of_lt hn)
  case null  => exact value_blanks hw (by decide : ¬IsBlank 'n') f64 n _
  case true  => exact value_blanks hw (by decide : ¬IsBlank 't') f64 n _
  case false => exact value_blanks hw (by decide : ¬IsBlank 'f') f64 n _
  case number m =>
    obtain ⟨c, tl, hm, hc⟩ := head_of_numberText m.numberText
    obtain ⟨_, _, hm', hblank, _⟩ := head_of_renders (Renders.number m : Renders num _ _)
    cases hm.symm.trans hm'
    have hv := value_blanks hw hblank f64 n (tl ++ rest)
    rw [valueAt_number hc, ← List.cons_append, ← hm] at hv
    exact hv.trans (number_numeral hf m (hr trivial))
  case string s t h =>
    have hs := reads_string h rest
    obtain ⟨body, rfl, _⟩ := h
    have hv : valueAt f64 (value f64 n) '"' = (string >>= fun s => pure (.string s)) := rfl
    refine (value_blanks hw (by decide : ¬IsBlank '"') f64 n _).trans ?_
    rw [hv]
    exact bind_eq hs
  case emptyArray w' hw' =>
    have hi : arrayItems (value f64 n) (w' ++ ']' :: rest) = (.ok (.array []), rest) := by
      rw [arrayItems, bind_eq (ws_blanks hw' (by decide) rest)]
      rfl
    rw [List.cons_append, List.append_assoc]
    exact (value_blanks hw (by decide : ¬IsBlank '[') f64 n _).trans hi
  case emptyObject w' hw' =>
    have hi : objectItems (value f64 n) (w' ++ '}' :: rest) = (.ok (.object []), rest) := by
      rw [objectItems, bind_eq (ws_blanks hw' (by decide) rest)]
      rfl
    rw [List.cons_append, List.append_assoc]
    exact (value_blanks hw (by decide : ¬IsBlank '{') f64 n _).trans hi
  case array l hne hb h hi =>
    rw [List.length_cons, List.length_append] at hn
    have hread : ∀ i ∈ l, ReadsValue (value f64 n) i.value i.text := by
      intro i hi' w hw rest hr
      have hlen := @length_le_intercalate _ [','] _ _ (List.mem_map_of_mem (f := Item.render) hi')
      rw [Item.render, List.length_append, List.length_append] at hlen
      exact hi i hi' (by omega) hw fun _ => hr
    have hitems := arrayItems_items (sound_value f64 n).forward hne hb hread
      (fun i hi' => head_of_renders (h i hi')) rest
    rw [List.cons_append, List.append_assoc]
    exact (value_blanks hw (by decide : ¬IsBlank '[') f64 n _).trans hitems
  case object l hne hb hk h hi =>
    rw [List.length_cons, List.length_append] at hn
    have hread : ∀ m ∈ l, ReadsValue (value f64 n) m.value m.text := by
      intro m hm w hw rest hr
      have hlen := @length_le_intercalate _ [','] _ _ (List.mem_map_of_mem (f := Member.render) hm)
      rw [Member.render, Item.render] at hlen
      simp only [List.length_append, List.length_cons] at hlen
      exact hi m hm (by omega) hw fun _ => hr
    have hmembers := objectItems_members (sound_value f64 n).forward hne hb hk hread rest
    rw [List.cons_append, List.append_assoc]
    exact (value_blanks hw (by decide : ¬IsBlank '{') f64 n _).trans hmembers

theorem dropWhile_eq_nil_iff {s : List Char} : s.dropWhile isWs = [] ↔ Blanks s := by
  rw [List.dropWhile_eq_nil_iff]
  exact forall_congr' fun c => imp_congr_right fun _ => isWs_iff c

theorem parse_eq_ok {input : List Char} (h : value f64 (input.length + 1) input = (.ok v, rest))
    (hb : Blanks rest) : parse f64 input = .ok v := by
  rw [parse, document, bind_eq h, bind_eq (ws_eq rest), dropWhile_eq_nil_iff.mpr hb]
  rfl

theorem parse_eq_error {input : List Char} (h : value f64 (input.length + 1) input = (.ok v, rest))
    (hb : ¬Blanks rest) : parse f64 input = .error (.error (.json "некорректный JSON")) := by
  obtain ⟨c, tl, hd⟩ := List.exists_cons_of_ne_nil (mt dropWhile_eq_nil_iff.mp hb)
  rw [parse, document, bind_eq h, bind_eq (ws_eq rest), hd]
  rfl

theorem exists_of_parse_error {input : List Char} {f : Fault ParseError} (h : parse f64 input = .error f) :
    ∃ e, f = .error e := by
  have hs : Sound (document f64 (input.length + 1)) (input.length + 1) :=
    (sound_value f64 _).bind fun _ => sound_ws.bind fun _ => sound_eof.bind fun _ => .ite (sound_pure _) sound_jsonErr
  exact hs.safe input (Nat.lt_succ_self _) f h

theorem not_blanks_append {a b : List Char} (h : ¬Blanks b) : ¬Blanks (a ++ b) :=
  fun hb => h fun c hc => hb c (List.mem_append_right a hc)

-- A text of a value is read as that value. With anything but blanks behind it, it is no text any more, unless
-- more of a number is behind a number. There is no text for which the parser does not come to an end.
theorem parse_textOf (f64 : List Char → Option ν) (num : Numeral → ν)
    (hf : ∀ n : Numeral, f64 n.text = some (num n)) :
    (∀ v text, TextOf num v text → parse f64 text = .ok v ∧
      (¬v.IsNumber → ∀ more, ¬Blanks more → ∃ e, parse f64 (text ++ more) = .error (.error e))) ∧
    ∀ input, parse f64 input ≠ .error .outOfFuel ∧ parse f64 input ≠ .error .outOfBounds := by
  refine ⟨fun v text ht => ?_, fun input => ⟨fun h => ?_, fun h => ?_⟩⟩
  · obtain ⟨before, text, after, rfl, hb, ha, hr⟩ := ht
    constructor
    case left =>
      have hends : Ends after := by
        intro c hc
        have hn := ends_blanks ha (by decide : isNumberChar ' ' = false) []
        cases after
        case nil      => cases hc
        case cons d _ => exact hn c hc
      have hv := @value_renders _ _ _ _ _ before after hf hr ((before ++ (text ++ after)).length + 1)
        (by simp only [List.length_append]; omega) hb fun _ => hends
      exact parse_eq_ok hv ha
    case right =>
      intro hn more hm
      have hv := @value_renders _ _ _ _ _ before (after ++ more) hf hr
        ((before ++ (text ++ after) ++ more).length + 1) (by simp only [List.length_append]; omega) hb
        fun h => absurd h hn
      have happ : before ++ (text ++ after) ++ more = before ++ (text ++ (after ++ more)) := by
        simp only [List.append_assoc]
      rw [← happ] at hv
      exact ⟨_, parse_eq_error hv (not_blanks_append hm)⟩
  · obtain ⟨e, he⟩ := exists_of_parse_error h
    cases he
  · obtain ⟨e, he⟩ := exists_of_parse_error h
    cases he

-- A parser of the numbers that knows the ones without a sign, a fraction and an exponent.
def smallF64 (s : List Char) : Option Nat :=
  some (s.foldl (fun n c => n * 10 + (c.toNat - '0'.toNat)) 0)

def smallNumeral : Numeral where
  text := ['1', '2']
  numberText := by
    have hdigits : Digits ['1', '2'] :=
      ⟨by simp, List.forall_mem_cons.mpr ⟨rfl, List.forall_mem_cons.mpr ⟨rfl, List.forall_mem_nil _⟩⟩⟩
    exact ⟨[], ['1', '2'], [], [], rfl, .inl rfl, ⟨hdigits, by simp⟩, .inl rfl, .inl rfl⟩

theorem parse_textOf_smallNumeral : parse smallF64 "[ 12]".toList = .ok (.array [.number 12]) := by
  let num : Numeral → Nat := fun n => (smallF64 n.text).getD 0
  let item : Item Nat := { before := [' '], value := .number 12, text := ['1', '2'], after := [] }
  have hblank : Blanks [' '] := List.forall_mem_cons.mpr ⟨.inl rfl, List.forall_mem_nil _⟩
  have hitem : Renders num item.value item.text := .number smallNumeral
  have hr : Renders num (.array ([item].map Item.value)) ('[' :: ([','].intercalate ([item].map Item.render) ++ [']'])) :=
    .array (List.cons_ne_nil _ _)
      (List.forall_mem_cons.mpr ⟨⟨hblank, List.forall_mem_nil _⟩, List.forall_mem_nil _⟩)
      (List.forall_mem_cons.mpr ⟨hitem, List.forall_mem_nil _⟩)
  have ht : TextOf num (.array [.number 12]) "[ 12]".toList :=
    ⟨[], _, [], rfl, List.forall_mem_nil _, List.forall_mem_nil _, hr⟩
  exact ((parse_textOf smallF64 num fun _ => rfl).1 _ _ ht).1

end Values
end JammVpn.JsonParser
