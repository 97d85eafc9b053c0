import JammVpn.Core.Parse.Link

-- How links are written, and that the parser reads them back.
namespace JammVpn

open Text

def unreserved (b : UInt8) : Bool :=
  (0x30 ≤ b && b ≤ 0x39) || (0x41 ≤ b && b ≤ 0x5a) || (0x61 ≤ b && b ≤ 0x7a) ||
  b == 0x2d || b == 0x2e || b == 0x5f || b == 0x7e

def upperDigit (n : Nat) : Char :=
  if n < 10 then .ofNat (48 + n) else .ofNat (55 + n)

def percentEncodeByte (b : UInt8) : List Char :=
  if unreserved b then [.ofNat b.toNat]
  else ['%', upperDigit (b.toNat / 16), upperDigit (b.toNat % 16)]

def percentEncode (s : String) : List Char :=
  (Utf8.encode s.toList).flatMap percentEncodeByte

-- The characters of an encoded text.
def encoded (c : Char) : Bool :=
  (c.toNat < 128 && unreserved (.ofNat c.toNat)) || c == '%'

section Percent

theorem toNat_lt_of_unreserved {b : UInt8} (h : unreserved b = true) : b.toNat < 128 := by
  simp only [unreserved, Bool.or_eq_true, Bool.and_eq_true, decide_eq_true_eq, beq_iff_eq, UInt8.le_iff_toNat_le,
    ← UInt8.toNat_inj] at h
  simp only [UInt8.reduceToNat] at h
  omega

theorem toNat_ofNat_ascii {n : Nat} (h : n < 128) : (Char.ofNat n).toNat = n := by
  rw [Char.ofNat, dif_pos (.inl (by omega))]
  rfl

theorem encoded_upperDigit : ∀ n < 16, encoded (upperDigit n) = true := by
  decide

theorem all_percentEncodeByte (b : UInt8) : (percentEncodeByte b).all encoded = true := by
  have hb := b.toNat_lt
  rw [percentEncodeByte]
  split
  case isTrue hu =>
    have hl := toNat_lt_of_unreserved hu
    simp only [List.all_cons, List.all_nil, encoded, toNat_ofNat_ascii hl, hl, UInt8.ofNat_toNat, hu, decide_true,
      Bool.and_self, Bool.true_or]
  case isFalse =>
    simp only [List.all_cons, List.all_nil, encoded_upperDigit _ (by omega : b.toNat / 16 < 16),
      encoded_upperDigit _ (by omega : b.toNat % 16 < 16), Bool.and_true]
    rfl

theorem encoded_of_mem {s : String} {c : Char} (h : c ∈ percentEncode s) : encoded c = true := by
  obtain ⟨b, _, hc⟩ := List.mem_flatMap.mp h
  exact List.all_eq_true.mp (all_percentEncodeByte b) c hc

theorem not_mem_percentEncode {c : Char} (h : encoded c = false) (s : String) : c ∉ percentEncode s :=
  fun hc => absurd (encoded_of_mem hc) (by rw [h]; exact Bool.false_ne_true)

def digitByte (n : Nat) : UInt8 :=
  .ofNat (upperDigit n).toNat

def encodedBytes (b : UInt8) : List UInt8 :=
  if unreserved b then [b] else [0x25, digitByte (b.toNat / 16), digitByte (b.toNat % 16)]

theorem encodeChar_ofNat {n : Nat} (h : n < 128) : String.utf8EncodeChar (.ofNat n) = [.ofNat n] := by
  have hn := toNat_ofNat_ascii h
  simp only [Char.toNat] at hn
  simp only [String.utf8EncodeChar, hn]
  rw [if_pos (by omega)]

theorem encodeChar_upperDigit : ∀ n < 16, String.utf8EncodeChar (upperDigit n) = [digitByte n] := by
  decide

theorem encode_byte (b : UInt8) : Utf8.encode (percentEncodeByte b) = encodedBytes b := by
  have hb := b.toNat_lt
  rw [percentEncodeByte, encodedBytes]
  split
  case isTrue hu =>
    rw [Utf8.encode_cons, encodeChar_ofNat (toNat_lt_of_unreserved hu), UInt8.ofNat_toNat]
    rfl
  case isFalse =>
    simp only [Utf8.encode_cons, encodeChar_upperDigit _ (by omega : b.toNat / 16 < 16),
      encodeChar_upperDigit _ (by omega : b.toNat % 16 < 16)]
    rfl

theorem hexVal_digitByte : ∀ n < 16, hexVal (digitByte n) = some (.ofNat n) := by
  decide

theorem nibbles : ∀ n < 256, UInt8.ofNat (n / 16) <<< 4 ||| .ofNat (n % 16) = .ofNat n := by
  intro n hn
  have hhigh : (UInt8.ofNat (n / 16)).toNat = n / 16 := Nat.mod_eq_of_lt (by omega)
  have hlow : (UInt8.ofNat (n % 16)).toNat = n % 16 := Nat.mod_eq_of_lt (by omega)
  have hall : (UInt8.ofNat n).toNat = n := Nat.mod_eq_of_lt hn
  have hshift : (n / 16) <<< 4 = n / 16 * 16 := Nat.shiftLeft_eq _ _
  rw [← UInt8.toNat_inj, UInt8.toNat_or, UInt8.toNat_shiftLeft, hhigh, hlow, hall]
  show (n / 16) <<< 4 % 256 ||| n % 16 = n
  rw [Nat.mod_eq_of_lt (by omega), ← Nat.shiftLeft_add_eq_or_of_lt (by omega : n % 16 < 2 ^ 4), hshift]
  omega

theorem percentDecodeBytes_cons {b : UInt8} (h : b ≠ 0x25) (bs : List UInt8) :
    percentDecodeBytes (b :: bs) = b :: percentDecodeBytes bs := by
  rcases bs with _ | ⟨h', _ | ⟨l, rest⟩⟩
  · rfl
  · rfl
  · rw [percentDecodeBytes, beq_eq_false_iff_ne.mpr h]

theorem percentDecode_of_no_percent {s : List Char} (h : 0x25 ∉ Utf8.encode s) : percentDecode s = .ofList s := by
  have hb : ∀ bs : List UInt8, 0x25 ∉ bs → percentDecodeBytes bs = bs := by
    intro bs hbs
    induction bs
    case nil => rfl
    case cons b bs hi =>
      rw [List.mem_cons, not_or] at hbs
      rw [percentDecodeBytes_cons (Ne.symm hbs.1), hi hbs.2]
  rw [percentDecode, hb _ h, Utf8.decodeLossy_encode]

theorem percentDecodeBytes_encodedBytes (b : UInt8) (bs : List UInt8) :
    percentDecodeBytes (encodedBytes b ++ bs) = b :: percentDecodeBytes bs := by
  have hb := b.toNat_lt
  rw [encodedBytes]
  split
  case isTrue hu =>
    refine percentDecodeBytes_cons ?_ bs
    rintro rfl
    exact absurd hu (by decide)
  case isFalse =>
    have hn := nibbles b.toNat hb
    rw [UInt8.ofNat_toNat] at hn
    simp only [List.cons_append, List.nil_append, percentDecodeBytes, beq_self_eq_true,
      hexVal_digitByte _ (by omega : b.toNat / 16 < 16), hexVal_digitByte _ (by omega : b.toNat % 16 < 16), hn]

theorem encode_percentEncode (s : String) :
    Utf8.encode (percentEncode s) = (Utf8.encode s.toList).flatMap encodedBytes := by
  rw [percentEncode]
  generalize Utf8.encode s.toList = bs
  induction bs
  case nil => rfl
  case cons b bs hi =>
    rw [List.flatMap_cons, List.flatMap_cons, Utf8.encode_append, hi, encode_byte b]

theorem percentDecodeBytes_percentEncode (s : String) :
    percentDecodeBytes (Utf8.encode (percentEncode s)) = Utf8.encode s.toList := by
  rw [encode_percentEncode]
  induction Utf8.encode s.toList
  case nil          => rfl
  case cons b bs hi => rw [List.flatMap_cons, percentDecodeBytes_encodedBytes, hi]

theorem percentDecode_percentEncode (s : String) : percentDecode (percentEncode s) = s := by
  rw [percentDecode, percentDecodeBytes_percentEncode, Utf8.decodeLossy_encode, String.ofList_toList]

theorem percentDecodeBytes_cons_of {b : UInt8} {bs : List UInt8}
    (h : ∀ x y rest, bs = x :: y :: rest → hexVal x = none ∨ hexVal y = none) :
    percentDecodeBytes (b :: bs) = b :: percentDecodeBytes bs := by
  rcases bs with _ | ⟨x, _ | ⟨y, rest⟩⟩
  · rfl
  · rfl
  · rw [percentDecodeBytes]
    split
    case h_2 => rfl
    case h_1 hx hy =>
      rcases h x y rest rfl with hn | hn
      · cases hn.symm.trans hx
      · cases hn.symm.trans hy

-- A byte that is no digit is in no escape sequence but at its front.
theorem percentDecodeBytes_append {b : UInt8} (hb : hexVal b = none) (hp : b ≠ 0x25) (xs ys : List UInt8) :
    percentDecodeBytes (xs ++ b :: ys) = percentDecodeBytes xs ++ b :: percentDecodeBytes ys := by
  fun_induction percentDecodeBytes xs
  case case1 hi =>
    rename_i h2 h1 h0
    simp only [List.cons_append, percentDecodeBytes, h2, h1, h0, hi]
  case case2 hi =>
    rename_i h0
    rw [List.cons_append, List.cons_append, List.cons_append, percentDecodeBytes]
    split
    case h_1 hb' hx hy => exact absurd hy (h0 _ _ hb' hx)
    case h_2           => exact congrArg _ hi
  case case3 x bs h0 hi =>
    rw [List.cons_append, percentDecodeBytes_cons_of, hi]
    · rfl
    intro y z rest he
    rcases bs with _ | ⟨y', _ | ⟨z', tl⟩⟩
    · cases he
      exact .inl hb
    · cases he
      exact .inr hb
    · exact absurd rfl (h0 y' z' tl)
  case case4 => rw [List.nil_append, percentDecodeBytes_cons hp]; rfl

-- An encoded text behind a mark is not the whole.
theorem count_percentDecode (t : List Char) (s : String) :
    s.toList.count '#' < (percentDecode (t ++ '#' :: percentEncode s)).toList.count '#' := by
  have he : String.utf8EncodeChar '#' = [0x23] := by decide
  have hcount := Utf8.count_decodeLossy he (by decide) (by decide)
  have hs : s.toList.count '#' = (Utf8.encode s.toList).count 0x23 := by
    rw [← hcount, Utf8.decodeLossy_encode]
  rw [percentDecode, String.toList_ofList, hcount, Utf8.encode_append, Utf8.encode_cons, he,
    List.singleton_append, percentDecodeBytes_append (by decide) (by decide),
    percentDecodeBytes_percentEncode, List.count_append, List.count_cons_self, hs]
  omega

end Percent

section Query

def renderPair (p : String × String) : List Char :=
  percentEncode p.1 ++ '=' :: percentEncode p.2

def renderQuery : List (String × String) → List Char
  | []          => []
  | [p]         => renderPair p
  | p :: q :: l => renderPair p ++ '&' :: renderQuery (q :: l)

theorem parsePair_renderPair (p : String × String) : Uri.parsePair (renderPair p) = p := by
  rw [Uri.parsePair, renderPair, splitOnce_append (not_mem_percentEncode (by decide) _)]
  simp only [percentDecode_percentEncode]

theorem renderPair_ne_nil (p : String × String) : (renderPair p).isEmpty = false := by
  rw [renderPair, List.isEmpty_eq_false_iff]
  exact List.append_ne_nil_of_right_ne_nil _ (List.cons_ne_nil _ _)

theorem not_mem_renderPair {c : Char} (h : encoded c = false) (hc : c ≠ '=') (p : String × String) :
    c ∉ renderPair p := by
  rw [renderPair, List.mem_append, List.mem_cons]
  rintro (hm | hm | hm)
  · exact not_mem_percentEncode h _ hm
  · exact hc hm
  · exact not_mem_percentEncode h _ hm

theorem not_mem_renderQuery {c : Char} (h : encoded c = false) (hc : c ≠ '=') (ha : c ≠ '&')
    (l : List (String × String)) : c ∉ renderQuery l := by
  induction l using renderQuery.induct
  case case1   => exact List.not_mem_nil
  case case2 p => exact not_mem_renderPair h hc p
  case case3 p q l hi =>
    rw [renderQuery, List.mem_append, List.mem_cons]
    rintro (hm | hm | hm)
    · exact not_mem_renderPair h hc p hm
    · exact ha hm
    · exact hi hm

theorem parseQuery_amp (a b : List Char) :
    Uri.parseQuery (a ++ '&' :: b) = Uri.parseQuery a ++ Uri.parseQuery b := by
  rw [Uri.parseQuery, Uri.parseQuery, Uri.parseQuery, split_append_cons, List.filter_append, List.map_append]

theorem parseQuery_renderPair (p : String × String) : Uri.parseQuery (renderPair p) = [p] := by
  rw [Uri.parseQuery, split_of_not_mem (not_mem_renderPair (by decide) (by decide) p)]
  simp [renderPair_ne_nil, parsePair_renderPair]

theorem parseQuery_renderQuery (l : List (String × String)) : Uri.parseQuery (renderQuery l) = l := by
  induction l using renderQuery.induct
  case case1          => rfl
  case case2 p        => exact parseQuery_renderPair p
  case case3 p q l hi => rw [renderQuery, parseQuery_amp, parseQuery_renderPair, hi, List.singleton_append]

end Query

section Link

def renderHost (host : String) (port : Nat) : List Char :=
  if ':' ∈ host.toList then '[' :: (host.toList ++ ']' :: ':' :: decimal port)
  else host.toList ++ ':' :: decimal port

-- A host is not encoded in a link, and so must not have the characters that end it.
structure LinkHost (host : String) : Prop where
  nonempty : host.toList ≠ []
  plain    : ∀ c ∈ host.toList, c ∉ ['#', '?', '@', '[', ']']

def renderUri (scheme : List Char) (user host : String) (port : Nat) (query : List (String × String))
    (fragment : String) : List Char :=
  scheme ++ ':' :: ("//".toList ++ (percentEncode user ++ '@' :: (renderHost host port ++
    '?' :: (renderQuery query ++ '#' :: percentEncode fragment))))

variable {scheme : List Char} {user host fragment : String} {port : Nat} {query : List (String × String)}

theorem LinkHost.not_mem (h : LinkHost host) {c : Char} (hc : c ∈ ['#', '?', '@', '[', ']']) :
    c ∉ host.toList :=
  fun hm => h.plain c hm hc

theorem not_mem_renderHost (h : LinkHost host) {c : Char} (hc : c ∈ ['#', '?', '@']) (port : Nat) :
    c ∉ renderHost host port := by
  have hd : c.isDigit = false ∧ c ≠ ':' ∧ c ≠ '[' ∧ c ≠ ']' := by
    rw [List.mem_cons, List.mem_cons, List.mem_singleton] at hc
    obtain rfl | rfl | rfl := hc <;> decide
  have hm : c ∉ host.toList := h.not_mem (List.mem_of_mem_take (i := 3) hc)
  have hp := not_mem_decimal hd.1 port
  rw [renderHost]
  split
  case isTrue  => simp [hm, hp, hd]
  case isFalse => simp [hm, hp, hd]

-- An address in brackets, and one that does not begin with a bracket.
theorem splitHostPort_bracketed {a : List Char} (h : ']' ∉ a) (hp : port < 65536) :
    Uri.splitHostPort ('[' :: (a ++ ']' :: ':' :: decimal port)) = .ok (.ofList a, some port) := by
  have hs := @stripPrefix_append Char _ ['['] (a ++ ']' :: ':' :: decimal port)
  have hc := @stripPrefix_append Char _ [':'] (decimal port)
  rw [List.cons_append, List.nil_append] at hs hc
  simp only [Uri.splitHostPort, hs, splitOnce_append h, hc, parseUnsigned_decimal hp]

theorem splitHostPort_plain {a : List Char} (hne : a ≠ []) (h : a.head? ≠ some '[') (hp : port < 65536) :
    Uri.splitHostPort (a ++ ':' :: decimal port) = .ok (.ofList a, some port) := by
  have hs : stripPrefix ['['] (a ++ ':' :: decimal port) = none := by
    refine stripPrefix_single_eq_none fun hh => h ?_
    rwa [List.head?_append_of_ne_nil _ hne] at hh
  have hc := rsplitOnce_append (not_mem_decimal (by decide : Char.isDigit ':' = false) port) a
  simp only [Uri.splitHostPort, hs, hc, parseUnsigned_decimal hp, List.isEmpty_eq_false_iff.mpr hne]
  rfl

theorem splitHostPort_renderHost (h : LinkHost host) (hp : port < 65536) :
    Uri.splitHostPort (renderHost host port) = .ok (host, some port) := by
  rw [renderHost]
  split
  case isTrue => rw [splitHostPort_bracketed (h.not_mem (by decide)) hp, String.ofList_toList]
  case isFalse =>
    have hh : host.toList.head? ≠ some '[' := fun hh => h.not_mem (by decide) (List.mem_of_head? hh)
    rw [splitHostPort_plain h.nonempty hh hp, String.ofList_toList]

theorem cut_append {c : Char} {a : List Char} (h : c ∉ a) (b : List Char) :
    Uri.cut c (a ++ c :: b) = (a, some b) := by
  rw [Uri.cut, splitOnce_append h]

theorem cut_of_not_mem {c : Char} {a : List Char} (h : c ∉ a) : Uri.cut c a = (a, none) := by
  rw [Uri.cut, splitOnce_eq_none h]

-- A link with an encoded name, and with parts that are taken as they are.
def linkText (scheme : List Char) (userinfo : Option (List Char)) (hostport : List Char)
    (queryText : Option (List Char)) (name : String) : List Char :=
  scheme ++ ':' :: ("//".toList ++ (userinfo.elim [] (· ++ ['@']) ++ (hostport ++
    (queryText.elim [] ('?' :: ·) ++ '#' :: percentEncode name))))

-- No part has a character that ends it.
structure LinkParts (userinfo : Option (List Char)) (hostport : List Char) (queryText : Option (List Char)) :
    Prop where
  ofUser   : ∀ u ∈ userinfo, '#' ∉ u ∧ '?' ∉ u
  ofHost   : '#' ∉ hostport ∧ '?' ∉ hostport ∧ '@' ∉ hostport
  ofQuery  : ∀ q ∈ queryText, '#' ∉ q
  nonempty : hostport ≠ []

theorem splitOnceOn_linkText (hs : ':' ∉ scheme) (userinfo : Option (List Char)) (hostport : List Char)
    (queryText : Option (List Char)) (name : String) :
    splitOnceOn "://".toList (linkText scheme userinfo hostport queryText name) =
      some (scheme, userinfo.elim [] (· ++ ['@']) ++ (hostport ++ (queryText.elim [] ('?' :: ·) ++
        '#' :: percentEncode name))) :=
  splitOnceOn_append hs _

section

variable {userinfo queryText : Option (List Char)} {hostport : List Char} {name : String}

theorem cut_name (h : LinkParts userinfo hostport queryText) (after : List Char) :
    Uri.cut '#' (userinfo.elim [] (· ++ ['@']) ++ (hostport ++ (queryText.elim [] ('?' :: ·) ++ '#' :: after))) =
      (userinfo.elim [] (· ++ ['@']) ++ (hostport ++ queryText.elim [] ('?' :: ·)), some after) := by
  have hu : '#' ∉ userinfo.elim [] (· ++ ['@']) := by
    cases userinfo
    case none   => exact List.not_mem_nil
    case some u => simp [h.ofUser u rfl]
  have hq : '#' ∉ queryText.elim [] ('?' :: ·) := by
    cases queryText
    case none   => exact List.not_mem_nil
    case some q => simp [h.ofQuery q rfl]
  have hfront : '#' ∉ userinfo.elim [] (· ++ ['@']) ++ (hostport ++ queryText.elim [] ('?' :: ·)) := by
    simp only [List.mem_append, not_or]
    exact ⟨hu, h.ofHost.1, hq⟩
  have hc := cut_append hfront after
  simpa only [List.append_assoc] using hc

theorem cut_query (h : LinkParts userinfo hostport queryText) :
    Uri.cut '?' (userinfo.elim [] (· ++ ['@']) ++ (hostport ++ queryText.elim [] ('?' :: ·))) =
      (userinfo.elim [] (· ++ ['@']) ++ hostport, queryText) := by
  have hu : '?' ∉ userinfo.elim [] (· ++ ['@']) := by
    cases userinfo
    case none   => exact List.not_mem_nil
    case some u => simp [h.ofUser u rfl]
  have hfront : '?' ∉ userinfo.elim [] (· ++ ['@']) ++ hostport := by
    rw [List.mem_append, not_or]
    exact ⟨hu, h.ofHost.2.1⟩
  rw [← List.append_assoc]
  cases queryText
  case none   => exact List.append_nil _ ▸ cut_of_not_mem hfront
  case some q => exact cut_append hfront q

theorem parse_linkText (hs : ':' ∉ scheme) (h : LinkParts userinfo hostport queryText) :
    Uri.parse (linkText scheme userinfo hostport queryText name) =
      (Uri.splitHostPort hostport).map fun hp => {
        scheme := asciiLower (.ofList scheme)
        userinfo := userinfo.map String.ofList
        host := hp.1
        port := hp.2
        query := (queryText.map Uri.parseQuery).getD []
        fragment := some name
      } := by
  rw [Uri.parse, splitOnceOn_linkText hs]
  simp only [cut_name h, cut_query h, Option.map_some, percentDecode_percentEncode]
  cases userinfo
  case none =>
    simp only [Option.elim_none, List.nil_append, rsplitOnce_eq_none h.ofHost.2.2,
      List.isEmpty_eq_false_iff.mpr h.nonempty, Option.map_none]
    cases Uri.splitHostPort hostport <;> rfl
  case some u =>
    have hat := rsplitOnce_append h.ofHost.2.2 u
    simp only [Option.elim_some, List.append_assoc, List.singleton_append, hat,
      List.isEmpty_eq_false_iff.mpr h.nonempty, Option.map_some]
    cases Uri.splitHostPort hostport <;> rfl

end

theorem renderUri_eq : renderUri scheme user host port query fragment =
    linkText scheme (some (percentEncode user)) (renderHost host port) (some (renderQuery query)) fragment := by
  simp [renderUri, linkText]

theorem renderHost_ne_nil (host : String) (port : Nat) : renderHost host port ≠ [] := by
  rw [renderHost]
  split <;> simp

theorem linkParts_render (h : LinkHost host) (port : Nat) {userinfo : List Char}
    (hu : ∀ c ∈ userinfo, encoded c = true ∨ c = ':') {queryText : Option (List Char)}
    (hq : ∀ q ∈ queryText, '#' ∉ q) : LinkParts (some userinfo) (renderHost host port) queryText := by
  have hnot : ∀ c, encoded c = false → c ≠ ':' → c ∉ userinfo := by
    intro c he hc hm
    rcases hu c hm with h' | h'
    · exact absurd (he.symm.trans h') Bool.false_ne_true
    · exact hc h'
  constructor
  case ofUser =>
    rintro _ ⟨⟩
    exact ⟨hnot '#' (by decide) (by decide), hnot '?' (by decide) (by decide)⟩
  case ofHost => exact ⟨not_mem_renderHost h (by decide) port, not_mem_renderHost h (by decide) port,
    not_mem_renderHost h (by decide) port⟩
  case ofQuery  => exact hq
  case nonempty => exact renderHost_ne_nil host port

theorem parse_renderUri (hs : ':' ∉ scheme) (h : LinkHost host) (hp : port < 65536) :
    Uri.parse (renderUri scheme user host port query fragment) = .ok {
      scheme := asciiLower (.ofList scheme)
      userinfo := some (.ofList (percentEncode user))
      host
      port := some port
      query
      fragment := some fragment
    } := by
  have hparts : LinkParts (some (percentEncode user)) (renderHost host port) (some (renderQuery query)) :=
    linkParts_render h port (fun c hc => .inl (encoded_of_mem hc)) fun q hq =>
      Option.some.inj hq ▸ not_mem_renderQuery (by decide) (by decide) (by decide) query
  rw [renderUri_eq, parse_linkText hs hparts, splitHostPort_renderHost h hp]
  simp only [Except.map, Option.map_some, Option.getD_some, parseQuery_renderQuery]

theorem parseWithUser_renderUri (hs : ':' ∉ scheme) (h : LinkHost host) (hp : port < 65536)
    (protocol : ProtocolKind) (field : String) :
    Link.parseWithUser protocol field (renderUri scheme user host port query fragment) =
      .ok (Link.makeProfile protocol host port ((Link.queryToParams query).insert field user)
        (some fragment)) := by
  rw [Link.parseWithUser, parse_renderUri hs h hp]
  show Except.ok (Link.makeProfile _ _ _ (OrdMap.insert _ field (percentDecode _)) _) = _
  rw [String.toList_ofList, percentDecode_percentEncode]

theorem isWhitespace_of_encoded {c : Char} (h : encoded c = true) : isWhitespace c = false := by
  have hall : ∀ n < 128, encoded (.ofNat n) = true → isWhitespace (.ofNat n) = false := by
    decide +kernel
  have hc : c.toNat < 128 := by
    rcases Bool.or_eq_true_iff.mp h with h | h
    · exact decide_eq_true_iff.mp (Bool.and_eq_true_iff.mp h).1
    · rw [beq_iff_eq.mp h]
      decide
  have := hall c.toNat hc
  rw [Char.ofNat_toNat] at this
  exact this h

-- Nothing is trimmed off a link.
theorem trim_linkText (hne : scheme ≠ []) (hs : scheme.any isWhitespace = false)
    (userinfo : Option (List Char)) (hostport : List Char) (queryText : Option (List Char)) (name : String) :
    trim (linkText scheme userinfo hostport queryText name) =
      linkText scheme userinfo hostport queryText name := by
  refine trim_eq_self (fun c hc => ?_) (fun c hc => ?_)
  · rw [linkText, List.head?_append_of_ne_nil _ hne] at hc
    exact Bool.eq_false_of_not_eq_true (List.any_eq_false.mp hs c (List.mem_of_head? hc))
  · have he : linkText scheme userinfo hostport queryText name =
        (scheme ++ ':' :: ("//".toList ++ (userinfo.elim [] (· ++ ['@']) ++ (hostport ++
          queryText.elim [] ('?' :: ·))))) ++ '#' :: percentEncode name := by
      simp only [linkText, List.append_assoc, List.cons_append]
    rw [he, List.getLast?_append_of_ne_nil _ (List.cons_ne_nil _ _)] at hc
    rcases List.mem_cons.mp (List.mem_of_getLast? hc) with rfl | hc
    · decide
    · exact isWhitespace_of_encoded (encoded_of_mem hc)

theorem Link.parseLink_trim (s : List Char) : parseLink (trim s) = parseLink s := by
  simp only [parseLink, trim_trim]

theorem parseLink_eq {s rest : List Char} (ht : trim s = s) (hne : s.isEmpty = false)
    (hs : splitOnceOn "://".toList s = some (scheme, rest)) :
    Link.parseLink s = Link.byScheme (asciiLower (.ofList scheme)) s := by
  simp only [Link.parseLink, ht, hne, hs]
  rfl

theorem parseLink_linkText (hne : scheme ≠ []) (hs : ':' ∉ scheme) (hw : scheme.any isWhitespace = false)
    (userinfo : Option (List Char)) (hostport : List Char) (queryText : Option (List Char)) (name : String) :
    Link.parseLink (linkText scheme userinfo hostport queryText name) =
      Link.byScheme (asciiLower (.ofList scheme)) (linkText scheme userinfo hostport queryText name) := by
  refine parseLink_eq (trim_linkText hne hw _ _ _ _) ?_ (splitOnceOn_linkText hs _ _ _ _)
  rw [List.isEmpty_eq_false_iff, linkText]
  exact List.append_ne_nil_of_left_ne_nil hne _

theorem parseLink_vless (h : LinkHost host) (hp : port < 65536) (user fragment : String)
    (query : List (String × String)) :
    Link.parseLink (renderUri "vless".toList user host port query fragment) =
      .ok (Link.makeProfile .vless host port ((Link.queryToParams query).insert "uuid" user)
        (some fragment)) := by
  rw [renderUri_eq, parseLink_linkText (by decide) (by decide) (by decide), ← renderUri_eq]
  exact parseWithUser_renderUri (by decide) h hp .vless "uuid"

end Link
end JammVpn
