import JammVpn.Core.Theorems.Uri

-- What a link is written from, and that the parser of its scheme recovers it.
namespace JammVpn

open Text

inductive ShareKind
  | vless
  | trojan
  | hysteria2
  | tuic
  | socks5
  deriving DecidableEq

namespace ShareKind

def scheme : ShareKind → List Char
  | vless     => "vless".toList
  | trojan    => "trojan".toList
  | hysteria2 => "hysteria2".toList
  | tuic      => "tuic".toList
  | socks5    => "socks5".toList

def protocol : ShareKind → ProtocolKind
  | vless     => .vless
  | trojan    => .trojan
  | hysteria2 => .hysteria2
  | tuic      => .tuic
  | socks5    => .socks5

-- The names of the credentials, of which there are one or two.
def fields : ShareKind → List String
  | vless     => ["uuid"]
  | trojan    => ["password"]
  | hysteria2 => ["auth"]
  | tuic      => ["uuid", "password"]
  | socks5    => ["username", "password"]

end ShareKind

def shareUser : List String → List Char
  | []            => []
  | [c]           => percentEncode c
  | c :: d :: cs  => percentEncode c ++ ':' :: shareUser (d :: cs)

def shareQuery (query : List (String × String)) : Option (List Char) :=
  if query.isEmpty then none else some (renderQuery query)

-- Credentials, keys, values and the name are encoded; an address with colons is in brackets.
def shareLink (k : ShareKind) (creds : List String) (host : String) (port : Nat)
    (query : List (String × String)) (name : String) : List Char :=
  linkText k.scheme (some (shareUser creds)) (renderHost host port) (shareQuery query) name

variable {k : ShareKind} {creds : List String} {host name : String} {port : Nat} {query : List (String × String)}

theorem encoded_of_mem_shareUser (creds : List String) :
    ∀ c ∈ shareUser creds, encoded c = true ∨ c = ':' := by
  intro c hc
  fun_induction shareUser creds
  case case1   => cases hc
  case case2 a => exact .inl (encoded_of_mem hc)
  case case3 a b cs hi =>
    rw [List.mem_append, List.mem_cons] at hc
    rcases hc with hc | rfl | hc
    · exact .inl (encoded_of_mem hc)
    · exact .inr rfl
    · exact hi hc

theorem parse_shareLink (h : LinkHost host) (hp : port < 65536) :
    Uri.parse (shareLink k creds host port query name) = .ok {
      scheme := asciiLower (.ofList k.scheme)
      userinfo := some (.ofList (shareUser creds))
      host
      port := some port
      query
      fragment := some name
    } := by
  have hq : ∀ q ∈ shareQuery query, '#' ∉ q := by
    intro q hq
    cases Option.some.inj (Option.ite_none_left_eq_some.mp hq).2
    exact not_mem_renderQuery (by decide) (by decide) (by decide) query
  have hget : ((shareQuery query).map Uri.parseQuery).getD [] = query := by
    cases query
    case nil       => rfl
    case cons p ps => exact parseQuery_renderQuery (p :: ps)
  have hs : ':' ∉ k.scheme := by cases k <;> decide
  rw [shareLink, parse_linkText hs (linkParts_render h port (encoded_of_mem_shareUser creds) hq),
    splitHostPort_renderHost h hp]
  simp only [Except.map, hget, Option.map_some]

theorem makeProfile_named (hn : name ≠ "") (protocol : ProtocolKind) (params : Link.Params) :
    Link.makeProfile protocol host port params (some name) =
      { name, protocol, address := host, port, params, tags := [] } := by
  have hf : (some name).filter (· != "") = some name := by simp [hn]
  rw [Link.makeProfile, hf]
  rfl

theorem shareUser_ne (hl : creds ≠ []) (h : creds ≠ [""]) : String.ofList (shareUser creds) ≠ "" := by
  intro he
  have he : shareUser creds = [] := by simpa using congrArg String.toList he
  rcases creds with _ | ⟨c, _ | ⟨d, cs⟩⟩
  · exact hl rfl
  · have hc := percentDecode_percentEncode c
    rw [show percentEncode c = [] from he] at hc
    exact h (hc ▸ rfl)
  · exact List.append_ne_nil_of_right_ne_nil _ (List.cons_ne_nil _ _) he

theorem insertUser_shareUser (params : Link.Params) (f g a b : String) :
    Link.insertUser params f g (shareUser [a, b]) = (params.insert f a).insert g b := by
  have hs : splitOnce ':' (shareUser [a, b]) = some (percentEncode a, percentEncode b) :=
    splitOnce_append (not_mem_percentEncode (by decide) a) _
  rw [Link.insertUser, hs]
  simp only [percentDecode_percentEncode]

theorem insert_eq_ofList (l : List (String × String)) (f a : String) :
    (Link.queryToParams l).insert f a = OrdMap.ofList (l ++ [(f, a)]) := by
  rw [OrdMap.ofList, List.foldl_append]
  rfl

theorem insert_insert_eq_ofList (l : List (String × String)) (f g a b : String) :
    ((Link.queryToParams l).insert f a).insert g b = OrdMap.ofList (l ++ [(f, a), (g, b)]) := by
  rw [OrdMap.ofList, List.foldl_append]
  rfl

section

variable {s : List Char} {uri : Uri} {user : String}

theorem parseWithUser_of (hu : Uri.parse s = .ok uri) (hi : uri.userinfo = some user)
    (hp : uri.port = some port) (protocol : ProtocolKind) (field : String) :
    Link.parseWithUser protocol field s = .ok (Link.makeProfile protocol uri.host port
      ((Link.queryToParams uri.query).insert field (percentDecode user.toList)) uri.fragment) := by
  rw [Link.parseWithUser, hu]
  simp only [bind, Except.bind, hi, hp]
  rfl

theorem parseHysteria2_of (hu : Uri.parse s = .ok uri) (hi : uri.userinfo.filter (· != "") = some user)
    (hp : uri.port = some port) :
    Link.parseHysteria2 s = .ok (Link.makeProfile .hysteria2 uri.host port
      ((Link.queryToParams uri.query).insert "auth" (percentDecode user.toList)) uri.fragment) := by
  rw [Link.parseHysteria2, hu]
  simp only [bind, Except.bind, hi, hp]
  rfl

theorem parseTuic_of (hu : Uri.parse s = .ok uri) (hi : uri.userinfo = some user) (hp : uri.port = some port) :
    Link.parseTuic s = .ok (Link.makeProfile .tuic uri.host port
      (Link.insertUser (Link.queryToParams uri.query) "uuid" "password" user.toList) uri.fragment) := by
  rw [Link.parseTuic, hu]
  simp only [bind, Except.bind, hi, hp]
  rfl

theorem proxyProfile_of (hu : Uri.parse s = .ok uri) (hi : uri.userinfo.filter (· != "") = some user)
    (hp : uri.port = some port) (kind : ProtocolKind) :
    Link.proxyProfile kind s = .ok (Link.makeProfile kind uri.host port
      (Link.insertUser (Link.queryToParams uri.query) "username" "password" user.toList) uri.fragment) := by
  rw [Link.proxyProfile, hu]
  simp only [bind, Except.bind, hi, hp]
  rfl

end

-- One credential is a parameter of its own, and two are parted by a colon.
theorem params_one (query : List (String × String)) (f c : String) :
    (Link.queryToParams query).insert f (percentDecode (String.ofList (shareUser [c])).toList) =
      OrdMap.ofList (query ++ [(f, c)]) := by
  rw [String.toList_ofList, shareUser, percentDecode_percentEncode, insert_eq_ofList]

theorem params_two (query : List (String × String)) (f g a b : String) :
    Link.insertUser (Link.queryToParams query) f g (String.ofList (shareUser [a, b])).toList =
      OrdMap.ofList (query ++ [(f, a), (g, b)]) := by
  rw [String.toList_ofList, insertUser_shareUser, insert_insert_eq_ofList]

theorem parseLink_shareLink (h : LinkHost host) (hp : port < 65536) (hn : name ≠ "")
    (hl : creds.length = k.fields.length) (hc : creds ≠ [""]) :
    Link.parseLink (shareLink k creds host port query name) = .ok {
      name
      protocol := k.protocol
      address := host
      port
      params := OrdMap.ofList (query ++ k.fields.zip creds)
      tags := []
    } := by
  have hs : ':' ∉ k.scheme ∧ k.scheme ≠ [] ∧ k.scheme.any isWhitespace = false := by cases k <;> decide
  have hu := @parse_shareLink k creds host name port query h hp
  have hne : String.ofList (shareUser creds) ≠ "" := shareUser_ne (by rintro rfl; cases k <;> cases hl) hc
  have hsome : (some (String.ofList (shareUser creds))).filter (· != "") =
      some (.ofList (shareUser creds)) := by simp [hne]
  rw [shareLink, parseLink_linkText hs.2.1 hs.1 hs.2.2, ← shareLink]
  cases k
  case vless =>
    obtain ⟨c, rfl⟩ := List.length_eq_one_iff.mp hl
    refine (parseWithUser_of hu rfl rfl .vless "uuid").trans ?_
    rw [makeProfile_named hn, params_one]
    rfl
  case trojan =>
    obtain ⟨c, rfl⟩ := List.length_eq_one_iff.mp hl
    refine (parseWithUser_of hu rfl rfl .trojan "password").trans ?_
    rw [makeProfile_named hn, params_one]
    rfl
  case hysteria2 =>
    obtain ⟨c, rfl⟩ := List.length_eq_one_iff.mp hl
    refine (parseHysteria2_of hu hsome rfl).trans ?_
    rw [makeProfile_named hn, params_one]
    rfl
  case tuic =>
    obtain ⟨a, b, rfl⟩ := List.length_eq_two.mp hl
    refine (parseTuic_of hu rfl rfl).trans ?_
    rw [makeProfile_named hn, params_two]
    rfl
  case socks5 =>
    obtain ⟨a, b, rfl⟩ := List.length_eq_two.mp hl
    refine (proxyProfile_of hu hsome rfl .socks5).trans ?_
    rw [makeProfile_named hn, params_two]
    rfl

theorem links_recover_what_was_written (k : ShareKind) (creds : List String) (host : String) (port : Nat)
    (query : List (String × String)) (name : String) (h : LinkHost host) (hp : port < 65536) (hn : name ≠ "")
    (hl : creds.length = k.fields.length) (hc : creds ≠ [""]) (hq : (query.map Prod.fst).Nodup)
    (hk : ∀ e ∈ query, e.1 ∉ k.fields) :
    (∃ p, Link.parseLink (shareLink k creds host port query name) = .ok p ∧ p.protocol = k.protocol ∧
      p.address = host ∧ p.port = port ∧ p.name = name ∧
      ∀ key v, p.param key = some v ↔ (key, v) ∈ query ∨ (key, v) ∈ k.fields.zip creds) ∧
    ∀ s, percentDecode (percentEncode s) = s := by
  refine ⟨⟨_, parseLink_shareLink h hp hn hl hc, rfl, rfl, rfl, rfl, fun key v => ?_⟩,
    percentDecode_percentEncode⟩
  have hkeys : (k.fields.zip creds).map Prod.fst = k.fields := List.map_fst_zip (Nat.le_of_eq hl.symm)
  have hfields : k.fields.Nodup := by cases k <;> decide
  have hnodup : ((query ++ k.fields.zip creds).map Prod.fst).Nodup := by
    rw [List.map_append, hkeys, List.nodup_append]
    refine ⟨hq, hfields, fun a ha b hb hab => ?_⟩
    obtain ⟨e, he, rfl⟩ := List.mem_map.mp ha
    exact hk e he (hab ▸ hb)
  rw [← List.mem_append]
  exact OrdMap.get_ofList_eq_some_iff hnodup

theorem links_recover_what_was_written_delimiters :
    (∃ p, Link.parseLink (shareLink .tuic ["a:b", "p@#?"] "2001:db8::1" 443 [("k&", "=%41")] "#1") = .ok p ∧
      p.protocol = .tuic ∧ p.address = "2001:db8::1" ∧ p.port = 443 ∧ p.name = "#1" ∧
      ∀ key v, p.param key = some v ↔
        (key, v) ∈ [("k&", "=%41")] ∨ (key, v) ∈ [("uuid", "a:b"), ("password", "p@#?")]) ∧
    ∀ s, percentDecode (percentEncode s) = s :=
  links_recover_what_was_written .tuic ["a:b", "p@#?"] "2001:db8::1" 443 [("k&", "=%41")] "#1"
    ⟨by decide, by simp⟩ (by decide) (by decide) rfl (by decide) (by decide) (by decide)

end JammVpn
