import JammVpn.Cli.Theorems.Links.Written

namespace JammVpn.Link

open Text

variable {p : ServerProfile} {ob : Outbound}

-- The parameters in the link of a node of this protocol.
def written (p : ServerProfile) : List (String × String) :=
  p.params.entries.filter fun e => e.1 != "auth" && e.2 != ""

-- The keys are written as they are. What is behind the last `&` of a key is the key for the value; what is
-- behind a `=` of that belongs to the value.
def lastOfKey (key : List Char) (value : String) : String × String :=
  match splitOnce '=' key with
  | none        => (percentDecode key, value)
  | some (k, v) => (percentDecode k, percentDecode (v ++ '=' :: pct value))

def apart (e : String × String) : List (String × String) :=
  match rsplitOnce '&' e.1.toList with
  | none               => [lastOfKey e.1.toList e.2]
  | some (before, key) => Uri.parseQuery before ++ [lastOfKey key e.2]

-- The parameters of a node once its keys are taken apart.
def spelled (p : ServerProfile) : Params :=
  .ofList ((written p).flatMap apart)

theorem parseQuery_last {key : List Char} (h : '&' ∉ key) (value : String) :
    Uri.parseQuery (key ++ '=' :: pct value) = [lastOfKey key value] := by
  have hvalue : '&' ∉ pct value := not_mem_percentEncode (by decide) value
  have hamp : '&' ∉ key ++ '=' :: pct value := by simp [h, hvalue]
  have hne : (key ++ '=' :: pct value).isEmpty = false := by simp
  have hq : Uri.parseQuery (key ++ '=' :: pct value) = [Uri.parsePair (key ++ '=' :: pct value)] := by
    rw [Uri.parseQuery, split_of_not_mem hamp, List.filter_cons_of_pos (by rw [hne]; rfl)]
    rfl
  rw [hq, lastOfKey, Uri.parsePair]
  cases hk : splitOnce '=' key
  case none =>
    rw [splitOnce_append (not_mem_of_splitOnce hk)]
    simp only [pct, percentDecode_percentEncode]
  case some kv =>
    obtain ⟨rfl, hn⟩ := splitOnce_eq_some_iff.mp hk
    rw [List.append_assoc, List.cons_append, splitOnce_append hn]

theorem parseQuery_apart (e : String × String) : Uri.parseQuery (writePair e) = apart e := by
  rw [apart, writePair]
  cases hk : rsplitOnce '&' e.1.toList
  case none => exact parseQuery_last (not_mem_of_rsplitOnce hk) e.2
  case some bk =>
    obtain ⟨hkey, hn⟩ := rsplitOnce_eq_some hk
    have hq := parseQuery_amp bk.1 (bk.2 ++ '=' :: pct e.2)
    rw [hkey, List.append_assoc, List.cons_append, hq, parseQuery_last hn]

def givenAuth (p : ServerProfile) : String :=
  (p.param "auth").getD ""

def hysteria2User (p : ServerProfile) : Option (List Char) :=
  if givenAuth p = "" then none else some (percentEncode (givenAuth p))

-- What is read from the link of a node of this protocol.
def hysteria2Back (p : ServerProfile) : ServerProfile where
  name := p.name
  protocol := .hysteria2
  address := p.address
  port := p.port
  params := if givenAuth p = "" then spelled p else (spelled p).insert "auth" (givenAuth p)
  tags := []

theorem nodeToHysteria2Link_eq (h : FromLink p) (hk : p.protocol = .hysteria2) :
    nodeToHysteria2Link p = some (linkText "hysteria2".toList (hysteria2User p) (hostportText p)
      (queryText (written p)) p.name) := by
  rw [nodeToHysteria2Link, if_neg (fun hn => hn hk)]
  simp only [writeRest_eq h.named, linkText, hysteria2User, givenAuth, written]
  by_cases ha : (p.param "auth").getD "" = "" <;> simp [ha, pct]

theorem not_mem_hysteria2User : ∀ u ∈ hysteria2User p, '#' ∉ u ∧ '?' ∉ u := by
  intro u hu
  cases Option.some.inj (Option.ite_none_left_eq_some.mp hu).2
  exact ⟨not_mem_percentEncode (by decide) _, not_mem_percentEncode (by decide) _⟩

theorem parse_hysteria2Link (h : FromLink p) (hk : p.protocol = .hysteria2)
    (hq : ∀ e ∈ written p, '#' ∉ e.1.toList) :
    Uri.parse (linkText "hysteria2".toList (hysteria2User p) (hostportText p) (queryText (written p)) p.name) =
      (Uri.splitHostPort (hostportText p)).map fun hp => {
        scheme := "hysteria2"
        userinfo := (hysteria2User p).map String.ofList
        host := hp.1
        port := hp.2
        query := (written p).flatMap apart
        fragment := some p.name
      } := by
  rw [parse_linkText (by decide) (linkParts_written h (by rw [hk]; decide) not_mem_hysteria2User hq),
    parseQuery_written]
  simp only [parseQuery_apart]
  rfl

theorem parseLink_hysteria2Link (h : FromLink p) (hk : p.protocol = .hysteria2) (ha : Bare p.address)
    (hq : ∀ e ∈ written p, '#' ∉ e.1.toList) :
    parseLink (linkText "hysteria2".toList (hysteria2User p) (hostportText p) (queryText (written p)) p.name) =
      .ok (hysteria2Back p) := by
  have hp := parse_hysteria2Link h hk hq
  rw [splitHostPort_written h ha] at hp
  have hscheme : ∀ s, byScheme (asciiLower (.ofList "hysteria2".toList)) s = parseHysteria2 s := fun _ => rfl
  rw [parseLink_linkText (by decide) (by decide) (by decide), hscheme, parseHysteria2, hp]
  refine congrArg Except.ok ((makeProfile_named h.named _ _).trans ?_)
  rw [hysteria2Back, hysteria2User]
  by_cases he : givenAuth p = ""
  case pos =>
    rw [if_pos he, if_pos he]
    rfl
  case neg =>
    have hne : String.ofList (percentEncode (givenAuth p)) ≠ "" := by
      have hs := @shareUser_ne [givenAuth p] (List.cons_ne_nil _ _) (by simpa using he)
      rwa [shareUser] at hs
    have hsome : ((some (percentEncode (givenAuth p))).map String.ofList).filter (· != "") =
        some (.ofList (percentEncode (givenAuth p))) := by simp [hne]
    rw [if_neg he, if_neg he]
    simp only [hsome, String.toList_ofList, percentDecode_percentEncode]
    rfl

theorem not_parseLink_hysteria2Link (h : FromLink p) (hk : p.protocol = .hysteria2) (ha : ¬Bare p.address)
    (hq : ∀ e ∈ written p, '#' ∉ e.1.toList) (p' : ServerProfile) :
    parseLink (linkText "hysteria2".toList (hysteria2User p) (hostportText p) (queryText (written p)) p.name) ≠
      .ok p' := by
  obtain ⟨e, he⟩ := splitHostPort_not_written h ha
  have hp := parse_hysteria2Link h hk hq
  rw [he] at hp
  have hscheme : ∀ s, byScheme (asciiLower (.ofList "hysteria2".toList)) s = parseHysteria2 s := fun _ => rfl
  rw [parseLink_linkText (by decide) (by decide) (by decide), hscheme, parseHysteria2, hp]
  exact fun h => by cases h

theorem name_of_parseHysteria2 {s : List Char} {p' : ServerProfile} (h : parseHysteria2 s = .ok p') :
    ∃ uri, Uri.parse s = .ok uri ∧ ∀ f, uri.fragment = some f → f ≠ "" → p'.name = f := by
  obtain ⟨uri, hu, h⟩ := bind_eq_ok h
  obtain ⟨port, _, h⟩ := bind_eq_ok h
  cases h
  refine ⟨uri, hu, fun f hf hne => ?_⟩
  rw [hf, makeProfile_named hne]

theorem exists_mark (hq : ¬∀ e ∈ written p, '#' ∉ e.1.toList) :
    ∃ x y, queryText (written p) = some (x ++ '#' :: y) ∧ '#' ∉ x := by
  simp only [not_forall, not_not] at hq
  obtain ⟨e, he, hm⟩ := hq
  have hne : (written p).isEmpty = false := List.isEmpty_eq_false_iff.mpr (List.ne_nil_of_mem he)
  have hpair : writePair e ∈ (written p).map writePair := List.mem_map_of_mem he
  obtain ⟨x, y, ht, hx⟩ := List.eq_append_cons_of_mem
    (mem_intercalate_of_mem '&' hpair (List.mem_append_left _ hm))
  exact ⟨x, y, by rw [queryText, hne, ht]; rfl, hx⟩

-- A mark in a key ends the query, and the rest is taken for the name.
theorem name_ne_of_mark (h : FromLink p) (hk : p.protocol = .hysteria2)
    (hq : ¬∀ e ∈ written p, '#' ∉ e.1.toList) {p' : ServerProfile}
    (hp : parseLink (linkText "hysteria2".toList (hysteria2User p) (hostportText p) (queryText (written p))
      p.name) = .ok p') : p'.name ≠ p.name := by
  have hscheme : ∀ s, byScheme (asciiLower (.ofList "hysteria2".toList)) s = parseHysteria2 s := fun _ => rfl
  rw [parseLink_linkText (by decide) (by decide) (by decide), hscheme] at hp
  obtain ⟨uri, hu, hname⟩ := name_of_parseHysteria2 hp
  obtain ⟨scheme, rest, _, hs, hfrag, _⟩ := hostOf_parse hu
  obtain ⟨x, y, ht, hx⟩ := exists_mark hq
  have hparts : LinkParts (hysteria2User p) (hostportText p) (some x) := by
    constructor
    case ofUser   => exact not_mem_hysteria2User
    case ofHost   => exact hostport_written h (by rw [hk]; decide)
    case ofQuery  => exact fun q hq => Option.some.inj hq ▸ hx
    case nonempty => exact List.append_ne_nil_of_right_ne_nil _ (List.cons_ne_nil _ _)
  have hcut := cut_name hparts (y ++ '#' :: percentEncode p.name)
  rw [splitOnceOn_linkText (by decide), ht] at hs
  cases hs
  have hf : uri.fragment = some (percentDecode (y ++ '#' :: percentEncode p.name)) := by
    rw [hfrag]
    simp only [Option.elim_some, List.cons_append, List.append_assoc] at hcut ⊢
    rw [hcut]
    rfl
  have hlt := count_percentDecode y p.name
  have hne : percentDecode (y ++ '#' :: percentEncode p.name) ≠ "" := by
    intro he
    rw [he] at hlt
    exact absurd hlt (Nat.not_lt_zero _)
  rw [hname _ hf hne]
  exact fun he => Nat.lt_irrefl _ (he ▸ hlt)

theorem param_hysteria2Back {k : String} (hk : k ≠ "auth") :
    (hysteria2Back p).param k = (spelled p).get k := by
  rw [ServerProfile.param, hysteria2Back]
  split
  case isTrue  => rfl
  case isFalse => rw [OrdMap.get_insert, if_neg hk]

def unchecked (o : Option String) : Bool :=
  o == some "1" || o == some "true"

theorem isInsecure_eq (p : ServerProfile) :
    p.isInsecure = unchecked ((p.param "insecure").orElse fun _ => p.param "allow_insecure") := by
  rw [ServerProfile.isInsecure]
  cases (p.param "insecure").orElse fun _ => p.param "allow_insecure"
  case none   => rfl
  case some v => simp [unchecked]

-- What the link says of the parameters that count is what the node has. An empty value is not written, and
-- a key is taken apart when it is read.
structure Hysteria2Kept (p : ServerProfile) : Prop where
  obfs     : ∀ v ∈ (spelled p).get "obfs", v = ""
  auth     : givenAuth p = "" →
    (((spelled p).get "auth").orElse fun _ => (spelled p).get "password") =
      (p.param "auth").orElse fun _ => p.param "password"
  sni      : (spelled p).get "sni" = p.param "sni"
  insecure : unchecked (((spelled p).get "insecure").orElse fun _ => (spelled p).get "allow_insecure") =
    unchecked ((p.param "insecure").orElse fun _ => p.param "allow_insecure")

theorem auth_hysteria2Back :
    (((hysteria2Back p).param "auth").orElse fun _ => (hysteria2Back p).param "password") =
        (p.param "auth").orElse (fun _ => p.param "password") ↔
      (givenAuth p = "" → (((spelled p).get "auth").orElse fun _ => (spelled p).get "password") =
        (p.param "auth").orElse fun _ => p.param "password") := by
  rw [param_hysteria2Back (k := "password") (by decide)]
  by_cases he : givenAuth p = ""
  case pos => simp [ServerProfile.param, hysteria2Back, he]
  case neg =>
    have ha : p.param "auth" = some (givenAuth p) := by
      rw [givenAuth] at he ⊢
      cases hp : p.param "auth"
      case none   => exact absurd (by rw [hp]; rfl) he
      case some a => rfl
    have hb : (hysteria2Back p).param "auth" = some (givenAuth p) := by
      rw [ServerProfile.param, hysteria2Back, if_neg he, OrdMap.get_insert, if_pos rfl]
    exact iff_of_true (by rw [ha, hb]; rfl) fun h => absurd h he

theorem hysteria2Outbound_hysteria2Back (ho : p.hysteria2Outbound = .ok ob) :
    (hysteria2Back p).hysteria2Outbound = .ok ob ↔ Hysteria2Kept p := by
  obtain ⟨_, a, ha, rfl⟩ := hysteria2Outbound_ok_iff.mp ho
  have hauth := @auth_hysteria2Back p
  rw [ha] at hauth
  rw [hysteria2Outbound_ok_iff, param_hysteria2Back (k := "obfs") (by decide),
    param_hysteria2Back (k := "sni") (by decide), isInsecure_eq (hysteria2Back p), isInsecure_eq p,
    param_hysteria2Back (k := "insecure") (by decide), param_hysteria2Back (k := "allow_insecure") (by decide)]
  simp only [Outbound.hysteria2.injEq, Hysteria2Params.mk.injEq]
  constructor
  case mp =>
    rintro ⟨hobfs, a', ha', _, rfl, hsni, hins⟩
    exact ⟨hobfs, fun he => (hauth.mp ha' he).trans ha.symm, hsni.symm, hins.symm⟩
  case mpr =>
    intro h
    exact ⟨h.obfs, a, hauth.mpr fun he => (h.auth he).trans ha, rfl, rfl, h.sni.symm, h.insecure.symm⟩

theorem hysteria2_exports_iff (h : FromLink p) (hk : p.protocol = .hysteria2)
    (ho : outboundFromProfile p = .ok ob) :
    Exports p ob ↔ (Addressable p.address ∧ ∀ e ∈ written p, '#' ∉ e.1.toList) ∧ Hysteria2Kept p := by
  have ho : p.hysteria2Outbound = .ok ob := by
    rw [outboundFromProfile, hk] at ho
    exact ho
  rw [addressable_iff h (by rw [hk]; decide)]
  refine @exports_iff_of p ob _ (hysteria2Back p) _ _ ?_ (fun ha => parseLink_hysteria2Link h hk ha.1 ha.2) ?_
    (hysteria2Outbound_hysteria2Back ho) rfl
  · rw [exportLink, hk]
    exact nodeToHysteria2Link_eq h hk
  · intro ha p' hp _
    by_cases hq : ∀ e ∈ written p, '#' ∉ e.1.toList
    case pos => exact absurd hp (not_parseLink_hysteria2Link h hk (fun hb => ha ⟨hb, hq⟩) hq p')
    case neg => exact name_ne_of_mark h hk hq hp

-- With keys that need no encoding, what is left is every parameter with a value.
theorem get_spelled_of_plain (h : ∀ e ∈ written p, PlainKey e.1) (k : String) :
    (spelled p).get k = if k = "auth" then none else (p.param k).filter (· != "") := by
  have happ : (written p).flatMap apart = written p := by
    generalize written p = q at h
    induction q
    case nil => rfl
    case cons e q hi =>
      obtain ⟨he, hq⟩ := List.forall_mem_cons.mp h
      rw [List.flatMap_cons, ← parseQuery_apart, parseQuery_writePair he, hi hq, List.singleton_append]
  have hkeys : (p.params.entries.map Prod.fst).Nodup :=
    (List.pairwise_map.mpr p.params.sorted).imp fun hlt => ne_of_lt hlt
  have hsub : ((written p).map Prod.fst).Nodup := hkeys.sublist (List.filter_sublist.map _)
  refine Option.ext fun v => ?_
  rw [spelled, happ, OrdMap.get_ofList_eq_some_iff hsub, written, List.mem_filter, Option.ite_none_left_eq_some,
    Option.filter_eq_some_iff, ServerProfile.param, OrdMap.get, OrdMap.lookup_eq_some_iff hkeys]
  simp [and_left_comm]

-- With such keys the link keeps the node as long as no value that counts is empty: an empty secret, an empty
-- name of the server, and an empty word on the check with another one behind it.
theorem hysteria2Kept_iff_of_plain (h : ∀ e ∈ written p, PlainKey e.1) (ho : p.hysteria2Outbound = .ok ob) :
    Hysteria2Kept p ↔ ((p.param "auth").orElse fun _ => p.param "password") ≠ some "" ∧ p.param "sni" ≠ some "" ∧
      (p.param "insecure" = some "" → unchecked (p.param "allow_insecure") = false) := by
  have hobfs := (hysteria2Outbound_ok_iff.mp ho).1
  have hget := get_spelled_of_plain h
  have hsecret : (givenAuth p = "" → (((spelled p).get "auth").orElse fun _ => (spelled p).get "password") =
      (p.param "auth").orElse fun _ => p.param "password") ↔
      ((p.param "auth").orElse fun _ => p.param "password") ≠ some "" := by
    rw [hget, hget, if_pos rfl, if_neg (by decide), givenAuth]
    cases p.param "auth"
    case none   => simpa using filter_eq_self_iff
    case some a => by_cases ha : a = "" <;> simp [ha, Option.filter_eq_some_iff]
  have hcheck : unchecked (((spelled p).get "insecure").orElse fun _ => (spelled p).get "allow_insecure") =
      unchecked ((p.param "insecure").orElse fun _ => p.param "allow_insecure") ↔
      (p.param "insecure" = some "" → unchecked (p.param "allow_insecure") = false) := by
    have hfilter : ∀ o : Option String, unchecked (o.filter (· != "")) = unchecked o := by
      intro o
      simp only [unchecked]
      congr 1 <;> exact Bool.eq_iff_iff.mpr (by simp only [beq_iff_eq]; exact filter_eq_some_iff (by decide))
    rw [hget, hget, if_neg (by decide), if_neg (by decide)]
    cases hi : p.param "insecure"
    case none => simpa using hfilter _
    case some v =>
      by_cases hv : v = ""
      case neg => simp [hv, Option.filter]
      case pos =>
        have hnone : ∀ o : Option String, ((some "").filter (· != "")).orElse (fun _ => o) = o := fun _ => rfl
        have hfalse : unchecked ((some "").orElse fun _ => p.param "allow_insecure") = false := rfl
        rw [hv, hnone, hfilter, hfalse]
        exact ⟨fun h _ => h, fun h => h rfl⟩
  constructor
  case mp =>
    intro hkept
    refine ⟨hsecret.mp hkept.auth, ?_, hcheck.mp hkept.insecure⟩
    have hsni := hkept.sni
    rwa [hget, if_neg (by decide), filter_eq_self_iff] at hsni
  case mpr =>
    rintro ⟨ha, hs, hi⟩
    constructor
    case auth     => exact hsecret.mpr ha
    case sni      => rw [hget, if_neg (by decide), filter_eq_self_iff.mpr hs]
    case insecure => exact hcheck.mpr hi
    case obfs =>
      intro v hv
      rw [hget, if_neg (by decide)] at hv
      exact hobfs v (Option.filter_eq_some_iff.mp hv).1

end JammVpn.Link
