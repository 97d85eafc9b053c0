import JammVpn.Core.Theorems.Parsed

-- A slash behind the port of a link.
namespace JammVpn.Link

open Text

section Port

variable {s : List Char} {host : String} {port : Nat}

theorem port_of_text {text : List Char} {address : String} (h : (match parseUnsigned 65536 text with
    | some port => .ok (address, some port)
    | none      => .error (ParseError.invalidPort (.ofList text))) = Except.ok (host, some port)) :
    parseUnsigned 65536 text = some port := by
  split at h
  case h_2 => cases h
  case h_1 hp =>
    cases h
    exact hp

-- The text of the port ends the text, and with a slash it is no port.
theorem splitHostPort_slash (h : Uri.splitHostPort s = .ok (host, some port)) :
    ∃ text, parseUnsigned 65536 text = some port ∧
      Uri.splitHostPort (s ++ ['/']) = .error (.invalidPort (.ofList (text ++ ['/']))) := by
  have hslash : toDigit 10 '/' = none := by decide
  rw [Uri.splitHostPort] at h
  split at h
  case h_1 rest hs =>
    have hs := stripPrefix_eq_some_iff.mp hs
    split at h
    case h_1 => cases h
    case h_2 address after ho =>
      obtain ⟨rfl, hnot⟩ := splitOnce_eq_some_iff.mp ho
      split at h
      case h_1 => cases h
      case h_2 text hp =>
        obtain rfl := stripPrefix_eq_some_iff.mp hp
        refine ⟨text, port_of_text h, ?_⟩
        have hb : s ++ ['/'] = ['['] ++ (address ++ ']' :: ([':'] ++ (text ++ ['/']))) := by simp [hs]
        rw [hb, Uri.splitHostPort, stripPrefix_append]
        simp only [splitOnce_append hnot, stripPrefix_append, parseUnsigned_append hslash]
  case h_2 hs =>
    split at h
    case h_1 => cases h
    case h_2 address text ho =>
      obtain ⟨rfl, hnot⟩ := rsplitOnce_eq_some ho
      split at h
      case isTrue => cases h
      case isFalse hne =>
        refine ⟨text, port_of_text h, ?_⟩
        have hb : stripPrefix ['['] (address ++ ':' :: text ++ ['/']) = none := by
          rcases address with _ | ⟨c, address⟩
          · exact absurd rfl hne
          · simpa [stripPrefix] using hs
        have hc : ':' ∉ text ++ ['/'] := by simp [hnot]
        have ho := rsplitOnce_append hc address
        rw [Uri.splitHostPort, hb, List.append_assoc, List.cons_append]
        simp only [ho, parseUnsigned_append hslash]
        rw [if_neg hne]

end Port

section Authority

variable {scheme authority tail : List Char} {uri : Uri} {port : Nat}

-- The authority ends at the query, at the name or at the end of the link.
def IsTail (tail : List Char) : Prop :=
  ∀ c ∈ tail.head?, c = '?' ∨ c = '#'

def linkOf (scheme authority tail : List Char) : List Char :=
  scheme ++ ':' :: ("//".toList ++ (authority ++ tail))

theorem authority_of_cut (hf : '#' ∉ authority) (hq : '?' ∉ authority) (ht : IsTail tail) :
    (Uri.cut '?' (Uri.cut '#' (authority ++ tail)).1).1 = authority := by
  rw [cut_append_fst hf, cut_append_fst hq]
  refine (congrArg (authority ++ ·) ?_).trans (List.append_nil _)
  rcases tail with _ | ⟨c, tail⟩
  · rfl
  · rcases ht c rfl with rfl | rfl
    · have hc := @cut_append_fst '#' ['?'] (by decide) tail
      rw [List.singleton_append] at hc
      rw [hc]
      exact congrArg Prod.fst (cut_append List.not_mem_nil _)
    · rw [show Uri.cut '#' ('#' :: tail) = ([], some tail) from cut_append List.not_mem_nil tail]
      rfl

-- The text behind the user.
def hostportOf (authority : List Char) : List Char :=
  match rsplitOnce '@' authority with
  | some (_, hostport) => hostport
  | none               => authority

theorem hostportOf_slash (authority : List Char) :
    hostportOf (authority ++ ['/']) = hostportOf authority ++ ['/'] := by
  rw [hostportOf, hostportOf]
  cases ho : rsplitOnce '@' authority
  case none =>
    have hat : '@' ∉ authority ++ ['/'] := by simp [not_mem_of_rsplitOnce ho]
    rw [rsplitOnce_eq_none hat]
  case some p =>
    obtain ⟨he, hn⟩ := rsplitOnce_eq_some ho
    have hat : '@' ∉ p.2 ++ ['/'] := by simp [hn]
    rw [he, List.append_assoc, List.cons_append, rsplitOnce_append hat]

theorem splitOnceOn_linkOf (hs : ':' ∉ scheme) (authority tail : List Char) :
    splitOnceOn "://".toList (linkOf scheme authority tail) = some (scheme, authority ++ tail) :=
  splitOnceOn_append hs _

theorem splitHostPort_of_parse (hs : ':' ∉ scheme) (hf : '#' ∉ authority) (hq : '?' ∉ authority)
    (ht : IsTail tail) (h : Uri.parse (linkOf scheme authority tail) = .ok uri) :
    Uri.splitHostPort (hostportOf authority) = .ok (uri.host, uri.port) := by
  have hgoal : ∀ userinfo hostport query fragment, (if hostport.isEmpty = true then .error .missingHost else do
      let hp ← Uri.splitHostPort hostport
      return { scheme := asciiLower (.ofList scheme), userinfo, host := hp.1, port := hp.2, query, fragment }) =
        Except.ok uri → Uri.splitHostPort hostport = .ok (uri.host, uri.port) := by
    intro userinfo hostport query fragment h
    split at h
    case isTrue => cases h
    case isFalse =>
      obtain ⟨hp, hr, h⟩ := bind_eq_ok h
      cases h
      exact hr
  rw [Uri.parse, splitOnceOn_linkOf hs] at h
  dsimp only at h
  rw [authority_of_cut hf hq ht] at h
  rw [hostportOf]
  cases ho : rsplitOnce '@' authority
  case none =>
    rw [ho] at h
    exact hgoal _ _ _ _ h
  case some p =>
    rw [ho] at h
    exact hgoal _ _ _ _ h

theorem parse_of_splitHostPort (hs : ':' ∉ scheme) (hf : '#' ∉ authority) (hq : '?' ∉ authority)
    (ht : IsTail tail) (hne : hostportOf authority ≠ []) {e : ParseError}
    (h : Uri.splitHostPort (hostportOf authority) = .error e) :
    Uri.parse (linkOf scheme authority tail) = .error e := by
  rw [hostportOf] at hne h
  rw [Uri.parse, splitOnceOn_linkOf hs]
  dsimp only
  rw [authority_of_cut hf hq ht]
  cases ho : rsplitOnce '@' authority
  case none =>
    rw [ho] at hne h
    simp only [List.isEmpty_eq_false_iff.mpr hne, Bool.false_eq_true, if_false, h]
    rfl
  case some p =>
    rw [ho] at hne h
    simp only [List.isEmpty_eq_false_iff.mpr hne, Bool.false_eq_true, if_false, h]
    rfl

theorem parse_slash (hs : ':' ∉ scheme) (hf : '#' ∉ authority) (hq : '?' ∉ authority) (ht : IsTail tail)
    (hok : Uri.parse (linkOf scheme authority tail) = .ok uri) (hp : uri.port = some port) :
    ∃ text, parseUnsigned 65536 text = some port ∧
      Uri.parse (linkOf scheme (authority ++ ['/']) tail) = .error (.invalidPort (.ofList (text ++ ['/']))) := by
  have h := splitHostPort_of_parse hs hf hq ht hok
  rw [hp] at h
  obtain ⟨text, hport, herr⟩ := splitHostPort_slash h
  refine ⟨text, hport, ?_⟩
  rw [← hostportOf_slash] at herr
  refine parse_of_splitHostPort hs (by simp [hf]) (by simp [hq]) ht ?_ herr
  rw [hostportOf_slash]
  exact List.append_ne_nil_of_right_ne_nil _ (List.cons_ne_nil _ _)

end Authority

section ByScheme

-- Schemes whose links are read as URIs.
def uriSchemes : List String :=
  ["vless", "trojan", "hysteria2", "hy2", "tuic", "socks5"]

variable {scheme : String} {s : List Char} {p : ServerProfile}

theorem port_of_parseWithUser {kind : ProtocolKind} {field : String} (h : parseWithUser kind field s = .ok p) :
    ∃ uri, Uri.parse s = .ok uri ∧ uri.port = some p.port := by
  obtain ⟨uri, hu, h⟩ := bind_eq_ok h
  obtain ⟨_, _, h⟩ := bind_eq_ok h
  obtain ⟨port, hp, h⟩ := bind_eq_ok h
  cases h
  exact ⟨uri, hu, orError_ok hp⟩

theorem port_of_parseHysteria2 (h : parseHysteria2 s = .ok p) :
    ∃ uri, Uri.parse s = .ok uri ∧ uri.port = some p.port := by
  obtain ⟨uri, hu, h⟩ := bind_eq_ok h
  obtain ⟨port, hp, h⟩ := bind_eq_ok h
  cases h
  exact ⟨uri, hu, orError_ok hp⟩

theorem port_of_parseTuic (h : parseTuic s = .ok p) :
    ∃ uri, Uri.parse s = .ok uri ∧ uri.port = some p.port := by
  obtain ⟨uri, hu, h⟩ := bind_eq_ok h
  obtain ⟨_, _, h⟩ := bind_eq_ok h
  obtain ⟨port, hp, h⟩ := bind_eq_ok h
  cases h
  exact ⟨uri, hu, orError_ok hp⟩

theorem port_of_proxyProfile {kind : ProtocolKind} (h : proxyProfile kind s = .ok p) :
    ∃ uri, Uri.parse s = .ok uri ∧ uri.port = some p.port := by
  obtain ⟨uri, hu, h⟩ := bind_eq_ok h
  obtain ⟨port, hp, h⟩ := bind_eq_ok h
  cases h
  exact ⟨uri, hu, orError_ok hp⟩

theorem port_of_byScheme (hs : scheme ∈ uriSchemes) (h : byScheme scheme s = .ok p) :
    ∃ uri, Uri.parse s = .ok uri ∧ uri.port = some p.port := by
  simp only [uriSchemes, List.mem_cons, List.not_mem_nil, or_false] at hs
  rcases hs with rfl | rfl | rfl | rfl | rfl | rfl
  · exact port_of_parseWithUser h
  · exact port_of_parseWithUser h
  · exact port_of_parseHysteria2 h
  · exact port_of_parseHysteria2 h
  · exact port_of_parseTuic h
  · exact port_of_proxyProfile h

-- Each of these parsers begins with the URI.
theorem byScheme_error (hs : scheme ∈ uriSchemes) {e : ParseError} (h : Uri.parse s = .error e) :
    byScheme scheme s = .error e := by
  simp only [uriSchemes, List.mem_cons, List.not_mem_nil, or_false] at hs
  rcases hs with rfl | rfl | rfl | rfl | rfl | rfl
  all_goals exact congrArg (· >>= _) h

theorem not_mem_lower {scheme : List Char} {lower : String} (hne : lower ≠ "") (hc : ':' ∉ lower.toList)
    (h : asciiLower (.ofList scheme) = lower) : scheme ≠ [] ∧ ':' ∉ scheme := by
  subst h
  constructor
  · rintro rfl
    exact hne rfl
  · intro hm
    refine hc ?_
    rw [asciiLower, String.toList_ofList, String.toList_ofList]
    exact List.mem_map.mpr ⟨':', hm, by decide⟩

theorem not_mem_scheme {scheme : List Char} (hs : asciiLower (.ofList scheme) ∈ uriSchemes) :
    scheme ≠ [] ∧ ':' ∉ scheme := by
  have hall : ∀ t ∈ uriSchemes, t ≠ "" ∧ ':' ∉ t.toList := by decide
  exact not_mem_lower (hall _ hs).1 (hall _ hs).2 rfl

end ByScheme

section Slash

variable {s : List Char} {p : ServerProfile}

def schemeOf (s : List Char) : Option String :=
  (splitOnceOn "://".toList (trim s)).map fun parts => asciiLower (.ofList parts.1)

def endsAuthority (c : Char) : Bool :=
  c == '?' || c == '#'

-- The link with a slash in front of the query, of the name or of its end.
def insertSlash (s : List Char) : List Char :=
  match splitOnceOn "://".toList (trim s) with
  | some (scheme, rest) =>
    linkOf scheme (rest.takeWhile (!endsAuthority ·) ++ ['/']) (rest.dropWhile (!endsAuthority ·))
  | none => trim s

theorem isTail_dropWhile (rest : List Char) : IsTail (rest.dropWhile (!endsAuthority ·)) := by
  intro c hc
  have := List.head?_dropWhile_not (p := (!endsAuthority ·)) (l := rest)
  rw [Option.mem_def.mp hc] at this
  simpa [endsAuthority, or_iff_not_imp_left] using this

theorem not_mem_takeWhile {c : Char} (h : endsAuthority c = true) (rest : List Char) :
    c ∉ rest.takeWhile (!endsAuthority ·) := by
  intro hm
  have := List.mem_takeWhile_imp hm
  rw [h] at this
  cases this

theorem trim_eq_linkOf {scheme rest : List Char} (h : splitOnceOn "://".toList (trim s) = some (scheme, rest)) :
    trim s = linkOf scheme (rest.takeWhile (!endsAuthority ·)) (rest.dropWhile (!endsAuthority ·)) := by
  rw [eq_of_splitOnceOn h, linkOf, List.takeWhile_append_dropWhile]
  rfl

theorem trim_linkOf {scheme authority tail : List Char} (hne : scheme ≠ [])
    (ht : trim (linkOf scheme authority tail) = linkOf scheme authority tail) :
    trim (linkOf scheme (authority ++ ['/']) tail) = linkOf scheme (authority ++ ['/']) tail := by
  have hh := @head?_trim (linkOf scheme authority tail)
  have hl := @getLast?_trim (linkOf scheme authority tail)
  rw [ht] at hh hl
  apply trim_eq_self
  · rw [linkOf, List.head?_append_of_ne_nil _ hne] at hh ⊢
    exact hh
  · cases tail
    case nil =>
      intro c hc
      have he : linkOf scheme (authority ++ ['/']) [] = linkOf scheme authority [] ++ ['/'] := by simp [linkOf]
      rw [he, List.getLast?_append_of_ne_nil _ (List.cons_ne_nil _ _)] at hc
      cases hc
      decide
    case cons d tail =>
      have he : ∀ a, linkOf scheme a (d :: tail) = (scheme ++ ':' :: ("//".toList ++ a)) ++ d :: tail := by
        simp [linkOf]
      rw [he, List.getLast?_append_of_ne_nil _ (List.cons_ne_nil _ _)] at hl ⊢
      exact hl

theorem parseLink_linkOf {scheme authority tail : List Char} (hne : scheme ≠ []) (hs : ':' ∉ scheme)
    (ht : trim (linkOf scheme authority tail) = linkOf scheme authority tail) :
    parseLink (linkOf scheme authority tail) =
      byScheme (asciiLower (.ofList scheme)) (linkOf scheme authority tail) := by
  refine parseLink_eq ht ?_ (splitOnceOn_linkOf hs _ _)
  rw [List.isEmpty_eq_false_iff, linkOf]
  exact List.append_ne_nil_of_left_ne_nil hne _

-- The sibling path: what `ss` does with the same slash, when the address is in the text.
theorem headD_split_slash (hostport : List Char) :
    (split '/' (hostport ++ ['/'])).headD (hostport ++ ['/']) = (split '/' hostport).headD hostport := by
  obtain ⟨piece, tl, hs⟩ := List.exists_cons_of_ne_nil (split_ne_nil '/' hostport)
  rw [split_append_cons, hs]
  rfl

theorem parseShadowsocks_slash {scheme authority tail : List Char} (hs : ':' ∉ scheme) (hf : '#' ∉ authority)
    (hq : '?' ∉ authority) (hat : '@' ∈ authority) (ht : IsTail tail) :
    parseShadowsocks (linkOf scheme (authority ++ ['/']) tail) = parseShadowsocks (linkOf scheme authority tail) := by
  have hcut : ∀ a, '#' ∉ a → '?' ∉ a → Uri.cut '?' (Uri.cut '#' (a ++ tail)).1 =
      (a ++ (Uri.cut '?' (Uri.cut '#' tail).1).1, (Uri.cut '?' (Uri.cut '#' tail).1).2) := by
    intro a hf hq
    rw [cut_append_fst hf, cut_append_of_not_mem hq]
  have hfrag : ∀ a, '#' ∉ a → (Uri.cut '#' (a ++ tail)).2 = (Uri.cut '#' tail).2 := by
    intro a hf
    rw [cut_append_of_not_mem hf]
  have hbody := authority_of_cut hf hq ht
  have hf' : '#' ∉ authority ++ ['/'] := by simp [hf]
  have hq' : '?' ∉ authority ++ ['/'] := by simp [hq]
  have hbody' := authority_of_cut hf' hq' ht
  obtain ⟨⟨user, hostport⟩, ho⟩ : ∃ p, rsplitOnce '@' authority = some p := by
    cases ho : rsplitOnce '@' authority
    case none   => exact absurd hat (not_mem_of_rsplitOnce ho)
    case some p => exact ⟨p, rfl⟩
  have ho' : rsplitOnce '@' (authority ++ ['/']) = some (user, hostport ++ ['/']) := by
    obtain ⟨he, hn⟩ := rsplitOnce_eq_some ho
    have hn : '@' ∉ hostport ++ ['/'] := by simp [hn]
    rw [he, List.append_assoc, List.cons_append, rsplitOnce_append hn]
  rw [parseShadowsocks, parseShadowsocks, splitOnceOn_linkOf hs, splitOnceOn_linkOf hs]
  dsimp only
  rw [hbody, hbody', ho, ho', hfrag _ hf, hfrag _ hf', hcut _ hf hq, hcut _ hf' hq']
  simp only [ssFromParts, headD_split_slash]

theorem insertSlash_shadowsocks (hs : schemeOf s = some "ss")
    (hat : ∀ scheme rest, splitOnceOn "://".toList (trim s) = some (scheme, rest) →
      '@' ∈ rest.takeWhile (!endsAuthority ·)) : parseLink (insertSlash s) = parseLink s := by
  obtain ⟨⟨scheme, rest⟩, ho, hl⟩ := Option.map_eq_some_iff.mp hs
  have hne : scheme ≠ [] ∧ ':' ∉ scheme := not_mem_lower (by decide) (by decide) hl
  have he := trim_eq_linkOf ho
  have ht := trim_trim s
  rw [he] at ht
  rw [← parseLink_trim s, insertSlash, ho]
  dsimp only
  rw [he, parseLink_linkOf hne.1 hne.2 ht, parseLink_linkOf hne.1 hne.2 (trim_linkOf hne.1 ht), hl]
  exact parseShadowsocks_slash hne.2 (not_mem_takeWhile (by decide) rest) (not_mem_takeWhile (by decide) rest)
    (hat scheme rest ho) (isTail_dropWhile rest)

-- The slash is read as part of the port.
theorem insertSlash_refused {scheme : String} (hs : schemeOf s = some scheme) (hm : scheme ∈ uriSchemes)
    (hok : parseLink s = .ok p) :
    parseLink (insertSlash s) ≠ .ok p ∧ ∃ text, parseUnsigned 65536 text = some p.port ∧
      parseLink (insertSlash s) = .error (.invalidPort (.ofList (text ++ ['/']))) := by
  obtain ⟨⟨scheme', rest⟩, ho, rfl⟩ := Option.map_eq_some_iff.mp hs
  obtain ⟨hne, hc⟩ := not_mem_scheme hm
  have he := trim_eq_linkOf ho
  have ht := trim_trim s
  rw [he] at ht
  rw [← parseLink_trim, he, parseLink_linkOf hne hc ht] at hok
  obtain ⟨uri, hu, hp⟩ := port_of_byScheme hm hok
  obtain ⟨text, hport, herr⟩ := parse_slash hc (not_mem_takeWhile (by decide) rest)
    (not_mem_takeWhile (by decide) rest) (isTail_dropWhile rest) hu hp
  have hslash : parseLink (insertSlash s) = .error (.invalidPort (.ofList (text ++ ['/']))) := by
    rw [insertSlash, ho]
    dsimp only
    rw [parseLink_linkOf hne hc (trim_linkOf hne ht)]
    exact byScheme_error hm herr
  rw [hslash]
  refine ⟨?_, text, hport, rfl⟩
  intro he
  cases he

theorem insertSlash_refused_hysteria2 : "hysteria2" ∈ uriSchemes ∧
    ∃ p, parseLink "hysteria2://pw@h.example:8443?sni=x#n".toList = .ok p ∧
      parseLink "hysteria2://pw@h.example:8443/?sni=x#n".toList ≠ .ok p := by
  have hm : "hysteria2" ∈ uriSchemes := by decide
  refine ⟨hm, _, rfl, ?_⟩
  exact (insertSlash_refused (s := "hysteria2://pw@h.example:8443?sni=x#n".toList) rfl hm rfl).1

theorem slash_behind_port : ∃ p,
    schemeOf "hysteria2://pw@h.example:8443?sni=x#n".toList = some "hysteria2" ∧
    parseLink "hysteria2://pw@h.example:8443?sni=x#n".toList = .ok p ∧
    insertSlash "hysteria2://pw@h.example:8443?sni=x#n".toList = "hysteria2://pw@h.example:8443/?sni=x#n".toList ∧
    parseLink "hysteria2://pw@h.example:8443/?sni=x#n".toList = .error (.invalidPort "8443/") :=
  ⟨_, rfl, rfl, rfl, rfl⟩

end Slash
end JammVpn.Link
