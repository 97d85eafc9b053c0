import JammVpn.Cli.Theorems.Links.Written
import JammVpn.Core.Theorems.ShadowsocksForms

namespace JammVpn.Link

open Text

variable {p : ServerProfile} {ob : Outbound}

-- The keys that the link of a node of this protocol keeps; the certificate check is not one of them.
def ssKeys : List String :=
  ["security", "sni", "alpn", "fp"]

-- What is read from the link of a node of this protocol.
def ssBack (p : ServerProfile) (method password : String) : ServerProfile where
  name := p.name
  protocol := .shadowsocks
  address := p.address
  port := p.port
  params := (given p ssKeys).foldl (fun m e => m.insert e.1 e.2)
    ((OrdMap.empty.insert "method" method).insert "password" password)
  tags := []

variable {method password : String}

def ssUser (method password : String) : List Char :=
  Base64.encodeChunks (Utf8.encode (method.toList ++ ':' :: password.toList))

theorem nodeToSsLink_eq (h : FromLink p) (hk : p.protocol = .shadowsocks)
    (hm : p.param "method" = some method) (hp : p.param "password" = some password) :
    nodeToSsLink p = some (linkText "ss".toList (some (ssUser method password)) (hostportText p)
      (queryText (given p (ssKeys ++ ["type"]))) p.name) := by
  rw [nodeToSsLink, if_neg (fun hn => hn hk), hm, hp]
  simp only [writeRest_eq h.named, linkText, ssUser, Base64.encodeStandard]
  simp [ssKeys]

theorem not_mem_ssUser {c : Char} (hc : c ∉ Base64.alphabet ∧ c ≠ '=') (method password : String) :
    c ∉ ssUser method password :=
  fun hm => (Base64.mem_encodeChunks hm).elim hc.1 hc.2

theorem decodeUserinfo_ssUser (method password : String) :
    decodeUserinfo (ssUser method password) = .ok (method.toList ++ ':' :: password.toList) :=
  decodeUserinfo_isText (Base64.isText_encodeChunks _)

theorem ssFromParts_eq (h : FromLink p) (hk : p.protocol = .shadowsocks) (hm : ':' ∉ method.toList) :
    ssFromParts (method.toList ++ ':' :: password.toList) (hostportText p) = do
      let hp ← Uri.splitHostPort (hostportText p)
      let port ← orError .missingPort hp.2
      return { method, password, host := hp.1, port } := by
  have hslash : '/' ∉ hostportText p := by
    simp [hostportText, h.noSlash hk, not_mem_decimal]
  rw [ssFromParts, splitOnce_append hm, split_of_not_mem hslash]
  simp only [orError, List.headD_cons, bind, Except.bind, String.ofList_toList]

theorem ssFromParts_written (h : FromLink p) (hk : p.protocol = .shadowsocks) (ha : Bare p.address)
    (hm : ':' ∉ method.toList) :
    ssFromParts (method.toList ++ ':' :: password.toList) (hostportText p) = .ok {
      method, password, host := p.address, port := p.port
    } := by
  rw [ssFromParts_eq h hk hm, splitHostPort_written h ha]
  rfl

def ssInsert (params : Params) (e : String × String) : Params :=
  match ssKey e.1 with
  | some key => params.insert key e.2
  | none     => params

theorem ssPair_writePair {e : String × String} (h : PlainKey e.1) (params : Params) :
    ssPair params (writePair e) = ssInsert params e := by
  have heq : '=' ∉ e.1.toList := h ▸ not_mem_percentEncode (by decide) e.1
  simp only [ssPair, writePair, splitOnce_append heq, pct, percentDecode_percentEncode, String.ofList_toList]
  rfl

theorem pieces_writePair {e : String × String} (h : PlainKey e.1) : pieces (writePair e) = [writePair e] := by
  have hr : writePair e = renderPair e := by
    rw [renderPair, h]
    rfl
  rw [pieces, hr, split_of_not_mem (not_mem_renderPair (by decide) (by decide) e)]
  simp [renderPair_ne_nil]

-- The pairs that are written are taken one by one.
theorem foldl_ssPair {q : List (String × String)} (hq : ∀ e ∈ q, PlainKey e.1) (params : Params) :
    (pieces ((queryText q).getD [])).foldl ssPair params = q.foldl ssInsert params := by
  rw [pieces_written]
  induction q generalizing params
  case nil => rfl
  case cons e q hi =>
    obtain ⟨he, hq⟩ := List.forall_mem_cons.mp hq
    rw [List.flatMap_cons, pieces_writePair he, List.singleton_append, List.foldl_cons, List.foldl_cons,
      ssPair_writePair he, hi hq]

theorem foldl_ssInsert {q : List (String × String)} (h : ∀ e ∈ q, ssKey e.1 = some e.1) (params : Params) :
    q.foldl ssInsert params = q.foldl (fun m e => m.insert e.1 e.2) params := by
  induction q generalizing params
  case nil => rfl
  case cons e q hi =>
    obtain ⟨he, hq⟩ := List.forall_mem_cons.mp h
    rw [List.foldl_cons, List.foldl_cons, ssInsert, he, hi hq]

theorem foldl_given (p : ServerProfile) (params : Params) :
    (given p (ssKeys ++ ["type"])).foldl ssInsert params =
      (given p ssKeys).foldl (fun m e => m.insert e.1 e.2) params := by
  have hkeys : ∀ k ∈ ssKeys, ssKey k = some k := by decide
  have htype : ∀ m, (given p ["type"]).foldl ssInsert m = m := by
    intro m
    rw [given, List.filterMap_cons]
    cases (p.param "type").filter (· != "") <;> rfl
  have happ : given p (ssKeys ++ ["type"]) = given p ssKeys ++ given p ["type"] := List.filterMap_append
  rw [happ, List.foldl_append, htype, foldl_ssInsert fun e he => hkeys _ (fst_mem_of_given he)]

theorem linkParts_ss (ha : '#' ∉ p.address.toList ∧ '?' ∉ p.address.toList) (h : FromLink p) :
    LinkParts (some (ssUser method password)) (hostportText p) (queryText (given p (ssKeys ++ ["type"]))) := by
  have hplain : ∀ k ∈ ssKeys ++ ["type"], PlainKey k := by decide +kernel
  constructor
  case ofUser =>
    intro t ht
    cases ht
    exact ⟨not_mem_ssUser (by decide) _ _, not_mem_ssUser (by decide) _ _⟩
  case ofHost => simp [hostportText, ha, h.noAt, not_mem_decimal]
  case ofQuery =>
    exact not_mem_queryText fun e he => hplain _ (fst_mem_of_given he) ▸ not_mem_percentEncode (by decide) _
  case nonempty => exact List.append_ne_nil_of_right_ne_nil _ (List.cons_ne_nil _ _)

theorem parseLink_ssLink_eq (h : FromLink p) (ha : '#' ∉ p.address.toList ∧ '?' ∉ p.address.toList) :
    parseLink (linkText "ss".toList (some (ssUser method password)) (hostportText p)
        (queryText (given p (ssKeys ++ ["type"]))) p.name) =
      (ssFromParts (method.toList ++ ':' :: password.toList) (hostportText p)).map fun parts =>
        makeProfile .shadowsocks parts.host parts.port
          ((given p ssKeys).foldl (fun m e => m.insert e.1 e.2)
            ((OrdMap.empty.insert "method" parts.method).insert "password" parts.password)) (some p.name) := by
  have hplain : ∀ k ∈ ssKeys ++ ["type"], PlainKey k := by decide +kernel
  have hparts := @linkParts_ss p method password ha h
  have hat : rsplitOnce '@' ((some (ssUser method password)).elim [] (· ++ ['@']) ++ hostportText p) =
      some (ssUser method password, hostportText p) := by
    rw [Option.elim_some, List.append_assoc]
    exact rsplitOnce_append hparts.ofHost.2.2 _
  have hparams : ∀ base, ((split '&' ((queryText (given p (ssKeys ++ ["type"]))).getD [])).filter
      fun t => !t.isEmpty).foldl ssPair base = (given p ssKeys).foldl (fun m e => m.insert e.1 e.2) base :=
    fun base => (foldl_ssPair (fun e he => hplain _ (fst_mem_of_given he)) base).trans (foldl_given p base)
  have hscheme : ∀ s, byScheme (asciiLower (.ofList "ss".toList)) s = parseShadowsocks s := fun _ => rfl
  rw [parseLink_linkText (by decide) (by decide) (by decide), hscheme, parseShadowsocks,
    splitOnceOn_linkText (by decide)]
  simp only [cut_name hparts, cut_query hparts, hat, decodeUserinfo_ssUser, Option.map_some,
    percentDecode_percentEncode, hparams, bind, Except.bind]
  cases ssFromParts (method.toList ++ ':' :: password.toList) (hostportText p) <;> rfl

theorem parseLink_ssLink (h : FromLink p) (hk : p.protocol = .shadowsocks) (ha : Addressable p.address)
    (hm : ':' ∉ method.toList) :
    parseLink (linkText "ss".toList (some (ssUser method password)) (hostportText p)
      (queryText (given p (ssKeys ++ ["type"]))) p.name) = .ok (ssBack p method password) := by
  rw [parseLink_ssLink_eq h ha.2, ssFromParts_written h hk ha.1 hm]
  exact congrArg Except.ok (makeProfile_named h.named _ _)

theorem not_parseLink_ssLink (h : FromLink p) (hk : p.protocol = .shadowsocks)
    (ha : '#' ∉ p.address.toList ∧ '?' ∉ p.address.toList) (hb : ¬Bare p.address) (hm : ':' ∉ method.toList)
    (p' : ServerProfile) :
    parseLink (linkText "ss".toList (some (ssUser method password)) (hostportText p)
      (queryText (given p (ssKeys ++ ["type"]))) p.name) ≠ .ok p' := by
  obtain ⟨e, he⟩ := splitHostPort_not_written h hb
  rw [parseLink_ssLink_eq h ha, ssFromParts_eq h hk hm, he]
  exact fun h => by cases h

theorem param_ssBack (k : String) :
    (ssBack p method password).param k =
      (if k ∈ ssKeys then (p.param k).filter (· != "") else none).or
        (if k = "password" then some password else if k = "method" then some method else none) := by
  rw [ServerProfile.param, ssBack, OrdMap.get_foldl_insert, ← OrdMap.get_ofList, get_given p (by decide),
    OrdMap.get_insert, OrdMap.get_insert, OrdMap.get_empty]

-- The check of the certificate is not written, and without a word on it there is none.
def SsKept (p : ServerProfile) : Prop :=
  p.param "security" = some "tls" →
    ∀ v ∈ (p.param "allow_insecure").orElse fun _ => p.param "insecure", v ≠ "0" ∧ v ≠ "false"

theorem alpn_filter (o : Option String) :
    ((o.filter (· != "")).map fun s => (parseAlpn s).map String.ofList).getD [] =
      (o.map fun s => (parseAlpn s).map String.ofList).getD [] := by
  cases o
  case none => rfl
  case some v =>
    by_cases h : v = ""
    case pos =>
      rw [h]
      rfl
    case neg => simp [Option.filter, h]

theorem ssTls_ssBack : (ssBack p method password).ssTls = p.ssTls ↔ SsKept p := by
  have hparam : ∀ k ∈ ssKeys, (ssBack p method password).param k = (p.param k).filter (· != "") := by
    intro k hk
    have hne : k ≠ "password" ∧ k ≠ "method" := by
      constructor <;> rintro rfl <;> exact absurd hk (by decide)
    rw [param_ssBack, if_pos hk, if_neg hne.1, if_neg hne.2, Option.or_none]
  have hallow : (ssBack p method password).param "allow_insecure" = none := by
    rw [param_ssBack, if_neg (by decide), if_neg (by decide), if_neg (by decide)]
    rfl
  have hins : (ssBack p method password).param "insecure" = none := by
    rw [param_ssBack, if_neg (by decide), if_neg (by decide), if_neg (by decide)]
    rfl
  have hsec : (ssBack p method password).param "security" = some "tls" ↔ p.param "security" = some "tls" := by
    rw [hparam _ (by decide), filter_eq_some_iff (by decide)]
  rw [ServerProfile.ssTls, ServerProfile.ssTls, SsKept]
  by_cases hs : p.param "security" = some "tls"
  case neg =>
    rw [if_neg (mt hsec.mp hs), if_neg hs]
    simp [hs]
  case pos =>
    rw [if_pos (hsec.mpr hs), if_pos hs, hparam "sni" (by decide), hparam "alpn" (by decide), hallow, hins,
      alpn_filter, Option.filter_filter]
    simp only [Bool.and_self, Option.some.injEq, SsTls.mk.injEq, true_and]
    cases (p.param "allow_insecure").orElse fun _ => p.param "insecure"
    case none   => simp [ssBack]
    case some v => simp [ssBack, hs]

theorem shadowsocksOutbound_eq {m : Method} (hm : p.param "method" = some method)
    (hp : p.param "password" = some password) (hn : Method.fromName method = some m) :
    p.shadowsocksOutbound = .ok (.shadowsocks { server := p.server, method := m, password, tls := p.ssTls }) := by
  rw [ServerProfile.shadowsocksOutbound, ServerProfile.require, ServerProfile.require, hm, hp]
  simp only [bind, Except.bind, hn]
  rfl

theorem shadowsocksOutbound_ssBack {m : Method} (hm : p.param "method" = some method)
    (hp : p.param "password" = some password) (hn : Method.fromName method = some m) :
    (ssBack p method password).shadowsocksOutbound = p.shadowsocksOutbound ↔ SsKept p := by
  have hm' : (ssBack p method password).param "method" = some method := by
    rw [param_ssBack, if_neg (by decide), if_neg (by decide), if_pos rfl]
    rfl
  have hp' : (ssBack p method password).param "password" = some password := by
    rw [param_ssBack, if_neg (by decide), if_pos rfl]
    rfl
  rw [shadowsocksOutbound_eq hm hp hn, shadowsocksOutbound_eq hm' hp' hn, ← @ssTls_ssBack p method password]
  simp only [Except.ok.injEq, Outbound.shadowsocks.injEq, ShadowsocksConfig.mk.injEq, true_and]
  exact and_iff_right rfl

-- The known methods have no colon in their names.
theorem not_mem_method {m : Method} (h : Method.fromName method = some m) : ':' ∉ method.toList := by
  intro hc
  have hlower : ':' ∈ (asciiLower method).toList := by
    rw [asciiLower, String.toList_ofList]
    exact List.mem_map.mpr ⟨':', hc, rfl⟩
  rw [Method.fromName] at h
  split at h
  case h_8 => cases h
  all_goals
    rename_i he
    rw [he] at hlower
    exact absurd hlower (by decide)

theorem exists_of_shadowsocksOutbound (h : p.shadowsocksOutbound = .ok ob) :
    ∃ method password m, p.param "method" = some method ∧ p.param "password" = some password ∧
      Method.fromName method = some m := by
  obtain ⟨method, hm, h⟩ := bind_eq_ok h
  cases hn : Method.fromName method
  case none =>
    rw [hn] at h
    cases h
  case some m =>
    rw [hn] at h
    obtain ⟨password, hp, _⟩ := bind_eq_ok h
    exact ⟨method, password, m, require_ok_iff.mp hm, require_ok_iff.mp hp, hn⟩

theorem server_of_shadowsocksOutbound {p' : ServerProfile} (h : p.shadowsocksOutbound = .ok ob)
    (h' : p'.shadowsocksOutbound = .ok ob) : p'.server = p.server := by
  obtain ⟨_, _, _, hm, hp, hn⟩ := exists_of_shadowsocksOutbound h
  obtain ⟨_, _, _, hm', hp', hn'⟩ := exists_of_shadowsocksOutbound h'
  rw [shadowsocksOutbound_eq hm hp hn] at h
  rw [shadowsocksOutbound_eq hm' hp' hn'] at h'
  cases h
  exact congrArg ShadowsocksConfig.server (Outbound.shadowsocks.inj (Except.ok.inj h'))

theorem mem_server_iff {c : Char} (hc : c ≠ ':') (hd : c.isDigit = false) :
    c ∈ p.server.toList ↔ c ∈ p.address.toList := by
  simp [ServerProfile.server, hc, not_mem_decimal hd]

-- A mark in the host ends it.
theorem no_mark_of_ssLink {p' : ServerProfile} {q : Option (List Char)}
    (hp : parseLink (linkText "ss".toList (some (ssUser method password)) (hostportText p) q p.name) = .ok p') :
    p'.protocol = .shadowsocks ∧ '#' ∉ p'.address.toList ∧ '?' ∉ p'.address.toList := by
  have hscheme : ∀ s, byScheme (asciiLower (.ofList "ss".toList)) s = parseShadowsocks s := fun _ => rfl
  rw [parseLink_linkText (by decide) (by decide) (by decide), hscheme] at hp
  obtain ⟨scheme, rest, creds, hostport, parts, params, fragment, hs, hparts, _, hmem, rfl⟩ :=
    exists_of_parseShadowsocks hp
  rw [splitOnceOn_linkText (by decide)] at hs
  cases hs
  obtain ⟨text, hhost, _, htext⟩ := hostOf_ssFromParts hparts
  have huser : '#' ∉ ssUser method password ++ ['@'] ∧ '?' ∉ ssUser method password ++ ['@'] := by
    have h1 := not_mem_ssUser (c := '#') (by decide) method password
    have h2 := not_mem_ssUser (c := '?') (by decide) method password
    simp [h1, h2]
  have hbody : '@' ∈ (Uri.cut '?' (Uri.cut '#' ((some (ssUser method password)).elim [] (· ++ ['@']) ++
      (hostportText p ++ (q.elim [] ('?' :: ·) ++ '#' :: percentEncode p.name)))).1).1 := by
    rw [Option.elim_some, cut_append_fst huser.1, cut_append_fst huser.2]
    simp
  have hin := fun c hc => hmem hbody c (htext c (hhost.mem c hc))
  refine ⟨rfl, fun hc => ?_, fun hc => (cut_fst '?' _).1 (hin _ hc)⟩
  exact (cut_fst '#' _).1 ((cut_fst '?' _).2 _ (hin _ hc))

theorem ss_exports_iff (h : FromLink p) (hk : p.protocol = .shadowsocks) (ho : outboundFromProfile p = .ok ob) :
    Exports p ob ↔ Addressable p.address ∧ SsKept p := by
  have ho : p.shadowsocksOutbound = .ok ob := by
    rw [outboundFromProfile, hk] at ho
    exact ho
  obtain ⟨method, password, m, hm, hp, hn⟩ := exists_of_shadowsocksOutbound ho
  refine @exports_iff_of p ob _ (ssBack p method password) _ _ ?_
    (fun ha => parseLink_ssLink h hk ha (not_mem_method hn)) ?_ ?_ rfl
  · rw [exportLink, hk]
    exact nodeToSsLink_eq h hk hm hp
  · intro ha p' hp' ho'
    by_cases hmark : '#' ∉ p.address.toList ∧ '?' ∉ p.address.toList
    case pos => exact absurd hp' (not_parseLink_ssLink h hk hmark (fun hb => ha ⟨hb, hmark⟩) (not_mem_method hn) p')
    case neg =>
      obtain ⟨hk', hnot⟩ := no_mark_of_ssLink hp'
      have ho' : p'.shadowsocksOutbound = .ok ob := by
        rw [outboundFromProfile, hk'] at ho'
        exact ho'
      have hserver := server_of_shadowsocksOutbound ho ho'
      have hiff : ∀ c : Char, c ≠ ':' → c.isDigit = false → (c ∈ p'.address.toList ↔ c ∈ p.address.toList) := by
        intro c hc hd
        rw [← mem_server_iff hc hd, ← mem_server_iff hc hd, hserver]
      rw [hiff '#' (by decide) rfl, hiff '?' (by decide) rfl] at hnot
      exact absurd hnot hmark
  · show (ssBack p method password).shadowsocksOutbound = .ok ob ↔ _
    rw [← ho, shadowsocksOutbound_ssBack hm hp hn]

end JammVpn.Link
