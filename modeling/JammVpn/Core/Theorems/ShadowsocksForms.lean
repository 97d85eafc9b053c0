import JammVpn.Core.Theorems.Base64
import JammVpn.Core.Theorems.Uri

namespace JammVpn.Link

open Text

def ssLink (body name : List Char) : List Char :=
  "ss://".toList ++ (body ++ '#' :: name)

-- A host as it stands in a link: a name, or an IPv6 address in brackets.
inductive HostText : List Char → List Char → Prop
  | name (host : List Char) : host ≠ [] → (∀ c ∈ host, c ∉ ['@', '/', '?', '#', ':', '[', ']']) → HostText host host
  | literal (addr : List Char) : (∀ c ∈ addr, c ∉ ['@', '/', '?', '#', '[', ']']) →
    HostText ('[' :: (addr ++ [']'])) addr

-- Percent-encoded in any way.
def IsEncoded (text t : List Char) : Prop :=
  '#' ∉ t ∧ '?' ∉ t ∧ (percentDecode t).toList = text

-- Nothing, or a path.
def IsPath (path : List Char) : Prop :=
  path = [] ∨ ∃ rest, path = '/' :: rest ∧ '@' ∉ rest ∧ '?' ∉ rest ∧ '#' ∉ rest

-- The method and the password, and the address with them.
def credentials (method password : String) : List Char :=
  method.toList ++ ':' :: password.toList

def ssProfile (method password : String) (address : List Char) (port : Nat) (name : List Char) : ServerProfile :=
  makeProfile .shadowsocks (.ofList address) port ((OrdMap.empty.insert "method" method).insert "password" password)
    (some (percentDecode name))

section

variable {method password : String} {host address name path user body : List Char} {port : Nat}

theorem HostText.not_mem (h : HostText host address) {c : Char} (hc : c ∈ ['@', '/', '?', '#']) : c ∉ host := by
  have hsub : ∀ c ∈ ['@', '/', '?', '#'],
      c ∈ ['@', '/', '?', '#', ':', '[', ']'] ∧ c ∈ ['@', '/', '?', '#', '[', ']'] ∧ c ≠ '[' ∧ c ≠ ']' :=
    forall_mem_of_all (by decide)
  obtain ⟨h₁, h₂, h₃, h₄⟩ := hsub c hc
  cases h
  case name hn    => exact fun hm => hn c hm h₁
  case literal ha =>
    intro hm
    simp only [List.mem_cons, List.mem_append, List.not_mem_nil, or_false, h₃, h₄, false_or] at hm
    exact ha c hm h₂

theorem splitHostPort_hostText (h : HostText host address) (hp : port < 65536) :
    Uri.splitHostPort (host ++ ':' :: decimal port) = .ok (.ofList address, some port) := by
  cases h
  case name hne hn =>
    exact splitHostPort_plain hne (fun hh => hn '[' (List.mem_of_head? hh) (by decide)) hp
  case literal ha =>
    have := splitHostPort_bracketed (fun hm => ha ']' hm (by decide)) hp
    simpa using this

-- The path is not looked at.
theorem ssFromParts_hostText (hm : ':' ∉ method.toList) (hh : HostText host address) (hp : port < 65536)
    (hpath : IsPath path) :
    ssFromParts (credentials method password) (host ++ ':' :: decimal port ++ path) =
      .ok { method, password, host := .ofList address, port } := by
  have hslash : '/' ∉ host ++ ':' :: decimal port := by
    simp [hh.not_mem (by decide : '/' ∈ ['@', '/', '?', '#']), not_mem_decimal]
  have hs : (split '/' (host ++ ':' :: decimal port ++ path)).headD (host ++ ':' :: decimal port ++ path) =
      host ++ ':' :: decimal port := by
    obtain rfl | ⟨rest, rfl, _⟩ := hpath
    case inl =>
      rw [List.append_nil, split_of_not_mem hslash]
      rfl
    case inr =>
      rw [split_append_cons, split_of_not_mem hslash]
      rfl
  rw [ssFromParts, hs, splitHostPort_hostText hh hp, credentials, splitOnce_append hm]
  simp only [orError, bind, Except.bind, String.ofList_toList]
  rfl

theorem colon_mem_credentials : ':' ∈ credentials method password := by
  simp [credentials]

theorem decodeUserinfo_isText (h : Base64.IsText (Utf8.encode (credentials method password)) user) :
    decodeUserinfo user = .ok (credentials method password) := by
  rw [decodeUserinfo, Base64.decodeToString_isText h]
  simp only [String.toList_ofList, if_pos colon_mem_credentials]

-- Encoded credentials have a colon or a percent sign, and so are not taken for base64.
theorem decodeUserinfo_isEncoded (h : IsEncoded (credentials method password) user) :
    decodeUserinfo user = .ok (credentials method password) := by
  obtain ⟨_, _, hd⟩ := h
  have hmark : 0x25 ∈ Utf8.encode user ∨ 0x3a ∈ Utf8.encode user := by
    by_cases hp : 0x25 ∈ Utf8.encode user
    case pos => exact .inl hp
    case neg =>
      have hc := @colon_mem_credentials method password
      rw [← hd, percentDecode_of_no_percent hp, String.toList_ofList] at hc
      exact .inr (List.mem_flatMap.mpr ⟨':', hc, by decide⟩)
  have hfail : ∃ e, Base64.decodeToString (.ofList user) = .error e := by
    rcases hmark with hb | hb
    · exact Base64.decodeToString_invalid (by decide) (by decide) hb
    · exact Base64.decodeToString_invalid (by decide) (by decide) hb
  obtain ⟨e, he⟩ := hfail
  rw [decodeUserinfo, he, hd]
  simp only [if_pos colon_mem_credentials]

theorem splitOnceOn_ssLink (body name : List Char) :
    splitOnceOn "://".toList (ssLink body name) = some ("ss".toList, body ++ '#' :: name) :=
  splitOnceOn_append (by decide : ':' ∉ "ss".toList) _

theorem parseLink_ssBody (hn : ∀ c ∈ name, isWhitespace c = false) :
    parseLink (ssLink body name) = parseShadowsocks (ssLink body name) := by
  have htrim : trim (ssLink body name) = ssLink body name := by
    refine trim_eq_self (fun c hc => ?_) fun c hc => ?_
    case refine_1 =>
      cases hc
      rfl
    case refine_2 =>
      rw [ssLink, ← List.append_assoc, List.getLast?_append_of_ne_nil _ (List.cons_ne_nil _ _)] at hc
      rcases List.mem_cons.mp (List.mem_of_getLast? hc) with rfl | hc
      · rfl
      · exact hn c hc
  rw [parseLink_eq htrim rfl (splitOnceOn_ssLink body name)]
  rfl

-- The credentials in front of the last `@`, in a body or in what is decoded from it.
theorem parseShadowsocks_sip002 (hb : '#' ∉ body ∧ '?' ∉ body) {creds hostport : List Char} {parts : SsParts}
    (hat : rsplitOnce '@' body = some (user, hostport)) (hu : decodeUserinfo user = .ok creds)
    (hp : ssFromParts creds hostport = .ok parts) :
    parseShadowsocks (ssLink body name) =
      .ok (ssProfile parts.method parts.password parts.host.toList parts.port name) := by
  rw [parseShadowsocks, splitOnceOn_ssLink]
  simp only [cut_append hb.1, cut_of_not_mem hb.2, hat, hu, hp, bind, Except.bind, ssProfile, String.ofList_toList]
  rfl

theorem parseShadowsocks_legacy (hb : '#' ∉ body ∧ '?' ∉ body ∧ '@' ∉ body) {decoded creds hostport : List Char}
    {parts : SsParts} (hd : Base64.decodeToString (.ofList body) = .ok (.ofList decoded))
    (hat : rsplitOnce '@' decoded = some (creds, hostport)) (hp : ssFromParts creds hostport = .ok parts) :
    parseShadowsocks (ssLink body name) =
      .ok (ssProfile parts.method parts.password parts.host.toList parts.port name) := by
  rw [parseShadowsocks, splitOnceOn_ssLink]
  simp only [cut_append hb.1, cut_of_not_mem hb.2.1, rsplitOnce_eq_none hb.2.2, hd, String.toList_ofList, hat, hp,
    orError, bind, Except.bind, ssProfile, String.ofList_toList]
  rfl

theorem not_mem_hostport (hh : HostText host address) {c : Char} (hc : c ∈ ['@', '?', '#']) (port : Nat) :
    c ∉ host ++ ':' :: decimal port := by
  have hd : c.isDigit = false ∧ c ≠ ':' ∧ c ∈ ['@', '/', '?', '#'] := by
    rw [List.mem_cons, List.mem_cons, List.mem_singleton] at hc
    obtain rfl | rfl | rfl := hc <;> decide
  simp [hh.not_mem hd.2.2, hd.2.1, not_mem_decimal hd.1]

theorem IsPath.not_mem (h : IsPath path) {c : Char} (hc : c ∈ ['@', '?', '#']) : c ∉ path := by
  obtain rfl | ⟨rest, rfl, h₁, h₂, h₃⟩ := h
  case inl => exact List.not_mem_nil
  case inr =>
    rw [List.mem_cons, List.mem_cons, List.mem_singleton] at hc
    obtain rfl | rfl | rfl := hc <;> simp [h₁, h₂, h₃]

theorem not_mem_user (hu : Base64.IsText (Utf8.encode (credentials method password)) user ∨
    IsEncoded (credentials method password) user) : '#' ∉ user ∧ '?' ∉ user := by
  rcases hu with h | h
  · exact ⟨Base64.not_mem_isText h (by decide), Base64.not_mem_isText h (by decide)⟩
  · exact ⟨h.1, h.2.1⟩

-- The credentials in base64 or encoded in front of the address, with or without a path behind it, and all in
-- base64: these are read as the same profile.
theorem shadowsocks_forms_agree (hm : ':' ∉ method.toList) (hh : HostText host address) (hp : port < 65536)
    (hn : ∀ c ∈ name, isWhitespace c = false) :
    (∀ user path, (Base64.IsText (Utf8.encode (credentials method password)) user ∨
        IsEncoded (credentials method password) user) → IsPath path →
      parseLink (ssLink (user ++ '@' :: (host ++ ':' :: decimal port ++ path)) name) =
        .ok (ssProfile method password address port name)) ∧
    ∀ body, Base64.IsText (Utf8.encode (credentials method password ++ '@' :: (host ++ ':' :: decimal port))) body →
      parseLink (ssLink body name) = .ok (ssProfile method password address port name) := by
  refine ⟨fun user path hu hpath => ?_, fun body hbody => ?_⟩
  case refine_1 =>
    have hmem {c : Char} (hc : c ∈ ['@', '?', '#']) : c ∉ host ++ ':' :: decimal port ++ path := by
      rw [List.mem_append, not_or]
      exact ⟨not_mem_hostport hh hc port, hpath.not_mem hc⟩
    have hfrag := (not_mem_user hu).1
    have hquery := (not_mem_user hu).2
    have hb : '#' ∉ user ++ '@' :: (host ++ ':' :: decimal port ++ path) ∧
        '?' ∉ user ++ '@' :: (host ++ ':' :: decimal port ++ path) := by
      have h₁ := @hmem '#' (by decide)
      have h₂ := @hmem '?' (by decide)
      rw [List.mem_append, List.mem_append, List.mem_cons, List.mem_cons]
      exact ⟨by simp only [hfrag, h₁]; decide, by simp only [hquery, h₂]; decide⟩
    have hcreds : decodeUserinfo user = .ok (credentials method password) :=
      hu.elim decodeUserinfo_isText decodeUserinfo_isEncoded
    have hat := rsplitOnce_append (@hmem '@' (by decide)) user
    rw [parseLink_ssBody hn, parseShadowsocks_sip002 hb hat hcreds (ssFromParts_hostText hm hh hp hpath),
      String.toList_ofList]
  case refine_2 =>
    have hb : '#' ∉ body ∧ '?' ∉ body ∧ '@' ∉ body :=
      ⟨Base64.not_mem_isText hbody (by decide), Base64.not_mem_isText hbody (by decide),
        Base64.not_mem_isText hbody (by decide)⟩
    have hparts := @ssFromParts_hostText method password host address [] port hm hh hp (.inl rfl)
    rw [List.append_nil] at hparts
    have hat : '@' ∉ host ++ ':' :: decimal port := not_mem_hostport hh (by decide) port
    rw [parseLink_ssBody hn, parseShadowsocks_legacy hb (Base64.decodeToString_isText hbody)
      (rsplitOnce_append hat _) hparts, String.toList_ofList]

end

-- A password with a colon, an at sign, a slash and a letter of two bytes, and an IPv6 address.
theorem shadowsocks_forms_agree_delimiters :
    let p := ssProfile "aes-256-gcm" "a:b@c/я" "::1".toList 8388 ['x']
    parseLink (ssLink (Base64.encodeChunks (Utf8.encode (credentials "aes-256-gcm" "a:b@c/я")) ++
      '@' :: ("[::1]".toList ++ ':' :: decimal 8388 ++ "/p".toList)) ['x']) = .ok p ∧
    parseLink (ssLink ("aes-256-gcm:a%3ab%40c/%D1%8F".toList ++
      '@' :: ("[::1]".toList ++ ':' :: decimal 8388 ++ [])) ['x']) = .ok p ∧
    parseLink (ssLink (Base64.encodeChunks (Utf8.encode (credentials "aes-256-gcm" "a:b@c/я" ++
      '@' :: ("[::1]".toList ++ ':' :: decimal 8388)))) ['x']) = .ok p := by
  have hh : HostText "[::1]".toList "::1".toList := .literal "::1".toList (forall_mem_of_all (by decide))
  obtain ⟨h₁, h₂⟩ := @shadowsocks_forms_agree "aes-256-gcm" "a:b@c/я" _ _ ['x'] 8388 (by decide) hh (by decide)
    (forall_mem_of_all (by decide))
  exact ⟨h₁ _ _ (.inl rfl) (.inr ⟨['p'], rfl, by decide⟩),
    h₁ _ _ (.inr ⟨by decide, by decide, by decide +kernel⟩) (.inl rfl), h₂ _ rfl⟩

end JammVpn.Link
