import JammVpn.Core.Theorems.Uri

-- What the parsers of the links let through.
namespace JammVpn

open Text

-- A host in a link: some of its text, and with a bracket in front only if there is none behind it.
structure HostOf (host : String) (port : Option Nat) (s : List Char) : Prop where
  mem    : ∀ c ∈ host.toList, c ∈ s
  closed : host.toList.head? = some '[' → ']' ∉ host.toList
  lt     : ∀ n ∈ port, n < 65536

theorem hostOf_splitHostPort {s : List Char} {r : String × Option Nat} (h : Uri.splitHostPort s = .ok r) :
    HostOf r.1 r.2 s := by
  rw [Uri.splitHostPort] at h
  split at h
  case h_1 rest hs =>
    have hs := stripPrefix_eq_some_iff.mp hs
    split at h
    case h_1 => cases h
    case h_2 hd after ho =>
      obtain ⟨hrest, hnot⟩ := splitOnce_eq_some_iff.mp ho
      have hmem : ∀ c ∈ hd, c ∈ s := fun c hc => by simp [hs, hrest, hc]
      split at h
      case h_1 =>
        cases h
        exact ⟨by simpa using hmem, by simp [hnot], fun n hn => by cases hn⟩
      case h_2 =>
        split at h
        case h_2 => cases h
        case h_1 hp =>
          cases h
          exact ⟨by simpa using hmem, by simp [hnot], fun n hn => Option.some.inj hn ▸ lt_of_parseUnsigned hp⟩
  case h_2 hs =>
    have hfront : s.head? ≠ some '[' := by
      intro hh
      obtain ⟨tl, rfl⟩ := List.head?_eq_some_iff.mp hh
      simp [stripPrefix] at hs
    split at h
    case h_1 =>
      cases h
      exact ⟨by simp, fun hh => absurd (by simpa using hh) hfront, fun n hn => by cases hn⟩
    case h_2 hd p ho =>
      split at h
      case isTrue => cases h
      case isFalse =>
        split at h
        case h_2 => cases h
        case h_1 hp =>
          have hs := (rsplitOnce_eq_some ho).1
          cases h
          constructor
          case mem => simp +contextual [hs]
          case lt  => exact fun n hn => Option.some.inj hn ▸ lt_of_parseUnsigned hp
          case closed =>
            intro hh
            rw [String.toList_ofList] at hh
            rw [hs, List.head?_append, hh] at hfront
            exact absurd rfl hfront

theorem cut_fst (c : Char) (s : List Char) : c ∉ (Uri.cut c s).1 ∧ ∀ x ∈ (Uri.cut c s).1, x ∈ s := by
  rw [Uri.cut]
  cases hs : splitOnce c s
  case none => exact ⟨not_mem_of_splitOnce hs, fun x hx => hx⟩
  case some p =>
    obtain ⟨he, hn⟩ := splitOnce_eq_some_iff.mp hs
    exact ⟨hn, fun x hx => by simp [he, show x ∈ p.1 from hx]⟩

theorem cut_append_of_not_mem {c : Char} {a : List Char} (h : c ∉ a) (b : List Char) :
    Uri.cut c (a ++ b) = (a ++ (Uri.cut c b).1, (Uri.cut c b).2) := by
  rw [Uri.cut, Uri.cut]
  cases hs : splitOnce c b
  case none =>
    have hn : c ∉ a ++ b := by simp [h, not_mem_of_splitOnce hs]
    rw [splitOnce_eq_none hn]
  case some p =>
    obtain ⟨he, hn⟩ := splitOnce_eq_some_iff.mp hs
    have hn : c ∉ a ++ p.1 := by simp [h, show c ∉ p.1 from hn]
    have hb : a ++ b = a ++ p.1 ++ c :: p.2 := by rw [List.append_assoc]; exact congrArg (a ++ ·) he
    rw [hb, splitOnce_append hn]

theorem cut_append_fst {c : Char} {a : List Char} (h : c ∉ a) (b : List Char) :
    (Uri.cut c (a ++ b)).1 = a ++ (Uri.cut c b).1 :=
  congrArg Prod.fst (cut_append_of_not_mem h b)

theorem uri_of_hostport {scheme : String} {userinfo fragment : Option String} {query : List (String × String)}
    {hostport : List Char} {uri : Uri}
    (h : (if hostport.isEmpty = true then .error .missingHost else do
      let hp ← Uri.splitHostPort hostport
      return { scheme, userinfo, host := hp.1, port := hp.2, query, fragment }) = Except.ok uri) :
    HostOf uri.host uri.port hostport ∧ uri.fragment = fragment := by
  split at h
  case isTrue => cases h
  case isFalse =>
    cases hr : Uri.splitHostPort hostport
    case error e =>
      rw [hr] at h
      cases h
    case ok r =>
      have hr' := hostOf_splitHostPort hr
      rw [hr] at h
      cases h
      exact ⟨hr', rfl⟩

-- What holds of the host of a link. Its text is in front of the query and the name, and behind the user.
theorem hostOf_parse {s : List Char} {uri : Uri} (h : Uri.parse s = .ok uri) :
    ∃ scheme rest hostport, splitOnceOn "://".toList s = some (scheme, rest) ∧
      uri.fragment = (Uri.cut '#' rest).2.map percentDecode ∧ HostOf uri.host uri.port hostport ∧
      '#' ∉ hostport ∧ '?' ∉ hostport ∧ '@' ∉ hostport := by
  rw [Uri.parse] at h
  split at h
  case h_1 => cases h
  case h_2 scheme rest hs =>
    obtain ⟨hfrag, -⟩ := cut_fst '#' rest
    obtain ⟨hquery, hmem⟩ := cut_fst '?' (Uri.cut '#' rest).1
    have hfrag' : '#' ∉ (Uri.cut '?' (Uri.cut '#' rest).1).1 := fun hc => hfrag (hmem _ hc)
    dsimp only at h
    cases ho : rsplitOnce '@' (Uri.cut '?' (Uri.cut '#' rest).1).1
    case none =>
      simp only [ho] at h
      obtain ⟨hhost, hf⟩ := uri_of_hostport h
      exact ⟨scheme, rest, _, hs, hf, hhost, hfrag', hquery, not_mem_of_rsplitOnce ho⟩
    case some p =>
      obtain ⟨u, hostport⟩ := p
      simp only [ho] at h
      obtain ⟨hhost, hf⟩ := uri_of_hostport h
      obtain ⟨hauth, hat⟩ := rsplitOnce_eq_some ho
      rw [hauth, List.mem_append, List.mem_cons, not_or, not_or] at hfrag' hquery
      exact ⟨scheme, rest, hostport, hs, hf, hhost, hfrag'.2.2, hquery.2.2, hat⟩

-- What holds of every profile that comes from a link.
structure FromLink (p : ServerProfile) : Prop where
  named   : p.name ≠ ""
  lt      : p.port < 65536
  noAt    : '@' ∉ p.address.toList
  closed  : p.address.toList.head? = some '[' → ']' ∉ p.address.toList
  noSlash : p.protocol = .shadowsocks → '/' ∉ p.address.toList
  noMark  : p.protocol ≠ .shadowsocks → '#' ∉ p.address.toList ∧ '?' ∉ p.address.toList

theorem makeProfile_name_ne (protocol : ProtocolKind) (host : String) (port : Nat) (params : Link.Params)
    (fragment : Option String) : (Link.makeProfile protocol host port params fragment).name ≠ "" := by
  rw [Link.makeProfile]
  cases hf : fragment.filter (· != "")
  case none =>
    intro h
    have := congrArg (fun s => (String.toList s).length) h
    simp at this
  case some f =>
    obtain ⟨-, hne⟩ := Option.filter_eq_some_iff.mp hf
    exact bne_iff_ne.mp hne

theorem fromLink_makeProfile {s : List Char} {uri : Uri} {port : Nat} (h : Uri.parse s = .ok uri)
    (hp : uri.port = some port) {kind : ProtocolKind} (hk : kind ≠ .shadowsocks) (params : Link.Params)
    (fragment : Option String) : FromLink (Link.makeProfile kind uri.host port params fragment) := by
  obtain ⟨_, _, hostport, _, _, hhost, hfrag, hquery, hat⟩ := hostOf_parse h
  constructor
  case named   => exact makeProfile_name_ne _ _ _ _ _
  case lt      => exact hhost.lt port hp
  case noAt    => exact fun hc => hat (hhost.mem _ hc)
  case closed  => exact hhost.closed
  case noSlash => exact fun he => absurd he hk
  case noMark  => exact fun _ => ⟨fun hc => hfrag (hhost.mem _ hc), fun hc => hquery (hhost.mem _ hc)⟩

theorem orError_ok {α : Type} {e : ParseError} {o : Option α} {a : α} (h : Link.orError e o = .ok a) :
    o = some a := by
  cases o
  case none   => cases h
  case some b => cases h; rfl

variable {s : List Char} {p : ServerProfile}

theorem fromLink_parseWithUser {kind : ProtocolKind} {field : String} (hk : kind ≠ .shadowsocks)
    (h : Link.parseWithUser kind field s = .ok p) : FromLink p := by
  obtain ⟨uri, hu, h⟩ := bind_eq_ok h
  obtain ⟨user, _, h⟩ := bind_eq_ok h
  obtain ⟨port, hp, h⟩ := bind_eq_ok h
  cases h
  exact fromLink_makeProfile hu (orError_ok hp) hk _ _

theorem fromLink_parseHysteria2 (h : Link.parseHysteria2 s = .ok p) : FromLink p := by
  obtain ⟨uri, hu, h⟩ := bind_eq_ok h
  obtain ⟨port, hp, h⟩ := bind_eq_ok h
  cases h
  exact fromLink_makeProfile hu (orError_ok hp) (by decide) _ _

theorem fromLink_parseTuic (h : Link.parseTuic s = .ok p) : FromLink p := by
  obtain ⟨uri, hu, h⟩ := bind_eq_ok h
  obtain ⟨user, _, h⟩ := bind_eq_ok h
  obtain ⟨port, hp, h⟩ := bind_eq_ok h
  cases h
  exact fromLink_makeProfile hu (orError_ok hp) (by decide) _ _

theorem fromLink_proxyProfile {kind : ProtocolKind} (hk : kind ≠ .shadowsocks)
    (h : Link.proxyProfile kind s = .ok p) : FromLink p := by
  obtain ⟨uri, hu, h⟩ := bind_eq_ok h
  obtain ⟨port, hp, h⟩ := bind_eq_ok h
  cases h
  exact fromLink_makeProfile hu (orError_ok hp) hk _ _

theorem hostOf_ssFromParts {creds hostport : List Char} {parts : Link.SsParts}
    (h : Link.ssFromParts creds hostport = .ok parts) :
    ∃ text, HostOf parts.host (some parts.port) text ∧ '/' ∉ text ∧ ∀ c ∈ text, c ∈ hostport := by
  obtain ⟨_, _, h⟩ := bind_eq_ok h
  obtain ⟨_, hr, h⟩ := bind_eq_ok h
  obtain ⟨port, hp, h⟩ := bind_eq_ok h
  cases h
  obtain ⟨hslash, hmem⟩ := headD_split '/' hostport hostport
  have hr := hostOf_splitHostPort hr
  exact ⟨_, orError_ok hp ▸ hr, hslash, hmem⟩

theorem fromLink_of_ssParts {creds hostport : List Char} {parts : Link.SsParts}
    (h : Link.ssFromParts creds hostport = .ok parts) (hat : '@' ∉ hostport) (params : Link.Params)
    (fragment : Option String) :
    FromLink (Link.makeProfile .shadowsocks parts.host parts.port params fragment) := by
  obtain ⟨text, hhost, hslash, hmem⟩ := hostOf_ssFromParts h
  constructor
  case named   => exact makeProfile_name_ne _ _ _ _ _
  case lt      => exact hhost.lt _ rfl
  case noAt    => exact fun hc => hat (hmem _ (hhost.mem _ hc))
  case closed  => exact hhost.closed
  case noSlash => exact fun _ hc => hslash (hhost.mem _ hc)
  case noMark  => exact fun he => absurd rfl he

-- The host and the port are behind the user in the text or, without a user there, in what it encodes.
theorem exists_of_parseShadowsocks (h : Link.parseShadowsocks s = .ok p) :
    ∃ scheme rest creds hostport parts params fragment, splitOnceOn "://".toList s = some (scheme, rest) ∧
      Link.ssFromParts creds hostport = .ok parts ∧ '@' ∉ hostport ∧
      ('@' ∈ (Uri.cut '?' (Uri.cut '#' rest).1).1 → ∀ c ∈ hostport, c ∈ (Uri.cut '?' (Uri.cut '#' rest).1).1) ∧
      p = Link.makeProfile .shadowsocks parts.host parts.port params fragment := by
  rw [Link.parseShadowsocks] at h
  split at h
  case h_1 => cases h
  case h_2 scheme rest hs =>
    dsimp only at h
    split at h
    case h_1 ho =>
      obtain ⟨_, _, h⟩ := bind_eq_ok h
      obtain ⟨parts, hp, h⟩ := bind_eq_ok h
      cases h
      obtain ⟨he, hn⟩ := rsplitOnce_eq_some ho
      exact ⟨scheme, rest, _, _, parts, _, _, hs, hp, hn, fun _ c hc => by simp [he, hc], rfl⟩
    case h_2 ho =>
      obtain ⟨_, _, h⟩ := bind_eq_ok h
      obtain ⟨q, hq, h⟩ := bind_eq_ok h
      obtain ⟨parts, hp, h⟩ := bind_eq_ok h
      cases h
      have hn := (rsplitOnce_eq_some (orError_ok hq)).2
      exact ⟨scheme, rest, _, _, parts, _, _, hs, hp, hn, fun hc => absurd hc (not_mem_of_rsplitOnce ho), rfl⟩

theorem fromLink_parseShadowsocks (h : Link.parseShadowsocks s = .ok p) : FromLink p := by
  obtain ⟨_, _, _, _, _, _, _, _, hp, hat, _, rfl⟩ := exists_of_parseShadowsocks h
  exact fromLink_of_ssParts hp hat _ _

theorem fromLink_parseLink (h : Link.parseLink s = .ok p) : FromLink p := by
  simp only [Link.parseLink] at h
  split at h
  case isTrue => cases h
  case isFalse =>
    split at h
    case h_1 => cases h
    case h_2 =>
      rw [Link.byScheme.eq_def] at h
      split at h
      case h_1  => exact fromLink_parseWithUser (by decide) h
      case h_2  => exact fromLink_parseWithUser (by decide) h
      case h_3  => exact fromLink_parseShadowsocks h
      case h_4  => exact fromLink_proxyProfile (by decide) h
      case h_5  => exact fromLink_proxyProfile (by decide) h
      case h_6  => exact fromLink_proxyProfile (by decide) h
      case h_7  => exact fromLink_proxyProfile (by decide) h
      case h_8  => exact fromLink_parseHysteria2 h
      case h_9  => exact fromLink_parseHysteria2 h
      case h_10 => exact fromLink_parseTuic h
      case h_11 => cases h

end JammVpn
