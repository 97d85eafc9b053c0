import JammVpn.Cli.Theorems.Links.Written

namespace JammVpn.Link

open Text

variable {p : ServerProfile} {ob : Outbound}

section Uuid

def uuidByte (b : UInt8) : Bool :=
  b == 0x2d || (toDigit 16 (Char.ofNat b.toNat)).isSome

theorem isSome_of_hexPairs {bs out : List UInt8} (h : hexPairs bs = some out) (hl : bs.length = 2 * out.length) :
    ∀ b ∈ bs, (toDigit 16 (Char.ofNat b.toNat)).isSome = true := by
  fun_induction hexPairs bs generalizing out
  case case1 hi lo bs ih =>
    obtain ⟨x, hx, h⟩ := Option.bind_eq_some_iff.mp h
    obtain ⟨y, hy, h⟩ := Option.bind_eq_some_iff.mp h
    obtain ⟨tl, ht, h⟩ := Option.bind_eq_some_iff.mp h
    cases h
    have hrest := ih ht (by simp only [List.length_cons] at hl; omega)
    simp only [List.forall_mem_cons]
    exact ⟨by rw [hx]; rfl, by rw [hy]; rfl, hrest⟩
  case case2 =>
    cases h
    rw [List.eq_nil_of_length_eq_zero hl]
    exact fun _ hb => absurd hb List.not_mem_nil

-- A text that is a UUID has digits and hyphens only.
theorem uuidByte_of_parseUuid {s : String} {u : List.Vector UInt8 16} (h : parseUuid s = some u) :
    ∀ b ∈ Utf8.encode s.toList, uuidByte b = true := by
  intro b hb
  rw [parseUuid] at h
  by_cases hh : b = 0x2d
  case pos => simp [uuidByte, hh]
  case neg =>
    by_cases hlen : ((Utf8.encode s.toList).filter (· != 0x2d)).length ≠ 32
    case pos =>
      simp [hlen] at h
    case neg =>
      simp only [hlen, if_false] at h
      obtain ⟨out, ho, h⟩ := Option.bind_eq_some_iff.mp h
      have hout : out.length = 16 := by
        by_contra hne
        rw [dif_neg hne] at h
        cases h
      have hall := isSome_of_hexPairs ho (by omega)
      rw [uuidByte, hall b (List.mem_filter.mpr ⟨hb, bne_iff_ne.mpr hh⟩), Bool.or_true]

theorem not_mem_uuid {s : String} {u : List.Vector UInt8 16} (h : parseUuid s = some u) {c : Char}
    (hc : uuidByte (.ofNat c.toNat) = false) (he : String.utf8EncodeChar c = [.ofNat c.toNat]) :
    c ∉ s.toList := by
  intro hm
  have hb := uuidByte_of_parseUuid h (.ofNat c.toNat) (List.mem_flatMap.mpr ⟨c, hm, by rw [he]; exact .head _⟩)
  exact absurd hb (by rw [hc]; exact Bool.false_ne_true)

theorem percentDecode_uuid {s : String} {u : List.Vector UInt8 16} (h : parseUuid s = some u) :
    percentDecode s.toList = s := by
  refine (percentDecode_of_no_percent fun hb => ?_).trans String.ofList_toList
  exact absurd (uuidByte_of_parseUuid h _ hb) (by decide)

end Uuid

-- What is read from the link of a node of this protocol.
def vlessBack (p : ServerProfile) (uuid : String) : ServerProfile where
  name := p.name
  protocol := .vless
  address := p.address
  port := p.port
  params := (OrdMap.ofList (given p vlessKeys)).insert "uuid" uuid
  tags := []

variable {uuid : String} {u : List.Vector UInt8 16}

theorem nodeToVlessLink_eq (h : FromLink p) (hk : p.protocol = .vless) (hu : p.param "uuid" = some uuid) :
    nodeToVlessLink p = some (linkText "vless".toList (some uuid.toList) (hostportText p)
      (queryText (given p vlessKeys)) p.name) := by
  rw [nodeToVlessLink, if_neg (fun hn => hn hk), hu]
  simp only [writeRest_eq h.named, linkText]
  simp

theorem plainKey_vlessKeys : ∀ k ∈ vlessKeys, PlainKey k := by
  decide +kernel

theorem parse_vlessLink (h : FromLink p) (hk : p.protocol = .vless) (hu : parseUuid uuid = some u) :
    Uri.parse (linkText "vless".toList (some uuid.toList) (hostportText p)
        (queryText (given p vlessKeys)) p.name) =
      (Uri.splitHostPort (hostportText p)).map fun hp => {
        scheme := "vless"
        userinfo := some uuid
        host := hp.1
        port := hp.2
        query := given p vlessKeys
        fragment := some p.name
      } := by
  have hkeys : ∀ e ∈ given p vlessKeys, PlainKey e.1 :=
    fun e he => plainKey_vlessKeys _ (fst_mem_of_given he)
  have huser : ∀ t ∈ some uuid.toList, '#' ∉ t ∧ '?' ∉ t := by
    intro t ht
    cases ht
    exact ⟨not_mem_uuid hu (by decide) (by decide), not_mem_uuid hu (by decide) (by decide)⟩
  have hq : ∀ e ∈ given p vlessKeys, '#' ∉ e.1.toList := fun e he =>
    hkeys e he ▸ not_mem_percentEncode (by decide) _
  rw [parse_linkText (by decide) (linkParts_written h (by rw [hk]; decide) huser hq), parseQuery_plain hkeys]
  simp only [Option.map_some, String.ofList_toList]
  rfl

theorem parseLink_vlessLink (h : FromLink p) (hk : p.protocol = .vless) (hu : parseUuid uuid = some u)
    (ha : Bare p.address) :
    parseLink (linkText "vless".toList (some uuid.toList) (hostportText p)
      (queryText (given p vlessKeys)) p.name) = .ok (vlessBack p uuid) := by
  have hp := parse_vlessLink h hk hu
  rw [splitHostPort_written h ha] at hp
  rw [parseLink_linkText (by decide) (by decide) (by decide)]
  refine (parseWithUser_of hp rfl rfl .vless "uuid").trans ?_
  rw [makeProfile_named h.named, percentDecode_uuid hu]
  rfl

theorem not_parseLink_vlessLink (h : FromLink p) (hk : p.protocol = .vless) (hu : parseUuid uuid = some u)
    (ha : ¬Bare p.address) (p' : ServerProfile) :
    parseLink (linkText "vless".toList (some uuid.toList) (hostportText p)
      (queryText (given p vlessKeys)) p.name) ≠ .ok p' := by
  obtain ⟨e, he⟩ := splitHostPort_not_written h ha
  have hp := parse_vlessLink h hk hu
  rw [he] at hp
  rw [parseLink_linkText (by decide) (by decide) (by decide)]
  show parseWithUser .vless "uuid" _ ≠ _
  rw [parseWithUser, hp]
  exact fun h => by cases h

theorem param_vlessBack (k : String) :
    (vlessBack p uuid).param k =
      if k = "uuid" then some uuid
      else if k ∈ vlessKeys then (p.param k).filter (· != "") else none := by
  rw [ServerProfile.param, vlessBack, OrdMap.get_insert, get_given p (by decide)]

def vlessTransport (p : ServerProfile) : Transport :=
  if p.param "security" = some "reality" then .reality {
    publicKey := (p.param "pbk").getD ""
    shortId := (p.param "sid").getD ""
    serverName := ((p.param "sni").orElse fun _ => p.param "host").getD ""
  }
  else .tcp

theorem vlessOutbound_eq (hp : p.param "uuid" = some uuid) (hu : parseUuid uuid = some u) :
    p.vlessOutbound = .ok (.vless {
      server := p.server
      uuid := u
      flow := p.param "flow"
      transport := vlessTransport p
      encryption := (p.param "encryption").filter fun e => e != "" && e != "none"
    }) := by
  have hr : p.requireUuid = .ok u := by
    rw [ServerProfile.requireUuid, ServerProfile.require, hp]
    simp only [bind, Except.bind, hu]
  rw [ServerProfile.vlessOutbound, hr]
  rfl

-- An empty flow is not written, and neither is an empty name of the server, for which the host then counts.
structure VlessKept (p : ServerProfile) : Prop where
  flow : p.param "flow" ≠ some ""
  sni  : p.param "security" = some "reality" → p.param "sni" = some "" → ∀ v ∈ p.param "host", v = ""

-- What is left of the two names of the server when empty values are dropped.
theorem orElse_filter_iff (sni host : Option String) :
    ((sni.filter (· != "")).orElse fun _ => host.filter (· != "")).getD "" = (sni.orElse fun _ => host).getD "" ↔
      (sni = some "" → ∀ v ∈ host, v = "") := by
  cases sni
  case none => simp [getD_filter]
  case some s =>
    by_cases hs : s = ""
    case pos =>
      rw [hs]
      cases host
      case none   => simp [Option.filter]
      case some v => by_cases hv : v = "" <;> simp [Option.filter, hv]
    case neg => simp [Option.filter, hs]

theorem vlessTransport_vlessBack :
    vlessTransport (vlessBack p uuid) = vlessTransport p ↔
      (p.param "security" = some "reality" → p.param "sni" = some "" → ∀ v ∈ p.param "host", v = "") := by
  have hparam : ∀ k ∈ vlessKeys, (vlessBack p uuid).param k = (p.param k).filter (· != "") := by
    intro k hk
    have hne : k ≠ "uuid" := by
      rintro rfl
      exact absurd hk (by decide)
    rw [param_vlessBack, if_neg hne, if_pos hk]
  have hsec : (vlessBack p uuid).param "security" = some "reality" ↔ p.param "security" = some "reality" := by
    rw [hparam _ (by decide), filter_eq_some_iff (by decide)]
  rw [← orElse_filter_iff, vlessTransport, vlessTransport]
  by_cases hs : p.param "security" = some "reality"
  case pos =>
    rw [if_pos (hsec.mpr hs), if_pos hs, hparam "pbk" (by decide), hparam "sid" (by decide),
      hparam "sni" (by decide), hparam "host" (by decide), getD_filter, getD_filter]
    simp [hs]
  case neg =>
    rw [if_neg (mt hsec.mp hs), if_neg hs]
    simp [hs]

theorem vlessOutbound_vlessBack (hp : p.param "uuid" = some uuid) (hu : parseUuid uuid = some u) :
    (vlessBack p uuid).vlessOutbound = p.vlessOutbound ↔ VlessKept p := by
  have hback : (vlessBack p uuid).param "uuid" = some uuid := by rw [param_vlessBack, if_pos rfl]
  have hflow : (vlessBack p uuid).param "flow" = (p.param "flow").filter (· != "") := by
    rw [param_vlessBack, if_neg (by decide), if_pos (by decide)]
  have henc : ((vlessBack p uuid).param "encryption").filter (fun e => e != "" && e != "none") =
      (p.param "encryption").filter fun e => e != "" && e != "none" := by
    rw [param_vlessBack, if_neg (by decide), if_pos (by decide), Option.filter_filter]
    congr 1
    funext e
    rw [← Bool.and_assoc, Bool.and_self]
  rw [vlessOutbound_eq hback hu, vlessOutbound_eq hp hu, hflow, henc]
  simp only [Except.ok.injEq, Outbound.vless.injEq, VlessConfig.mk.injEq, and_true, true_and,
    filter_eq_self_iff, vlessTransport_vlessBack]
  constructor
  case mp  => exact fun ⟨_, hf, ht⟩ => ⟨hf, ht⟩
  case mpr => exact fun h => ⟨rfl, h.flow, h.sni⟩

theorem vless_exports_iff (h : FromLink p) (hk : p.protocol = .vless) (ho : outboundFromProfile p = .ok ob) :
    Exports p ob ↔ Addressable p.address ∧ VlessKept p := by
  have ho : p.vlessOutbound = .ok ob := by
    rw [outboundFromProfile, hk] at ho
    exact ho
  obtain ⟨u, hr, -⟩ := bind_eq_ok ho
  obtain ⟨uuid, u, hp, hu⟩ := requireUuid_ok_iff.mp ⟨u, hr⟩
  rw [addressable_iff h (by rw [hk]; decide)]
  refine @exports_iff_of p ob _ (vlessBack p uuid) _ _ ?_ (parseLink_vlessLink h hk hu)
    (fun ha p' hp' => absurd hp' (not_parseLink_vlessLink h hk hu ha p')) ?_ rfl
  · rw [exportLink, hk]
    exact nodeToVlessLink_eq h hk hp
  · show (vlessBack p uuid).vlessOutbound = .ok ob ↔ _
    rw [← ho, vlessOutbound_vlessBack hp hu]

end JammVpn.Link
