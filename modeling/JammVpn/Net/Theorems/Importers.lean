import JammVpn.Core.Parse.Singbox
import JammVpn.Core.Parse.Xray
import JammVpn.Core.Theorems.Uri
import JammVpn.Net.Outbound

namespace JammVpn

open Text

-- A VLESS server behind REALITY; an empty flow is none.
structure RealityServer where
  name       : String
  uuid       : String
  host       : String
  port       : Nat
  flow       : String
  publicKey  : String
  shortId    : String
  serverName : String
  port_lt    : port < 65536
  valid      : (parseUuid uuid).isSome

namespace RealityServer

variable (v : RealityServer)

-- An optional parameter of a link.
def flowPair : List (String × String) :=
  if v.flow = "" then [] else [("flow", v.flow)]

def query : List (String × String) :=
  [("encryption", "none"), ("type", "tcp"), ("security", "reality"), ("pbk", v.publicKey), ("sid", v.shortId),
    ("sni", v.serverName)] ++ v.flowPair

def link : List Char :=
  renderUri "vless".toList v.uuid v.host v.port v.query v.name

open JsonValue

def xrayUser : JsonValue :=
  object [("id", string v.uuid), ("flow", string v.flow), ("encryption", string "none")]

def xrayNode : JsonValue :=
  object [("address", string v.host), ("port", number (some v.port)), ("users", array [v.xrayUser])]

def xrayStream : JsonValue :=
  object [("network", string "tcp"), ("security", string "reality"),
    ("realitySettings", object [("serverName", string v.serverName), ("publicKey", string v.publicKey),
      ("shortId", string v.shortId)])]

def xray : JsonValue :=
  object [("protocol", string "vless"), ("tag", string v.name),
    ("settings", object [("vnext", array [v.xrayNode])]), ("streamSettings", v.xrayStream)]

def singboxTls : JsonValue :=
  object [("enabled", bool true), ("server_name", string v.serverName),
    ("reality", object [("enabled", bool true), ("public_key", string v.publicKey),
      ("short_id", string v.shortId)])]

def singbox : JsonValue :=
  object [("type", string "vless"), ("tag", string v.name), ("server", string v.host),
    ("server_port", number (some v.port)), ("uuid", string v.uuid), ("flow", string v.flow),
    ("tls", v.singboxTls)]

-- The outbound for the server.
def outbound : VlessConfig where
  server := v.host ++ ":" ++ .ofList (decimal v.port)
  uuid := (parseUuid v.uuid).get v.valid
  flow := if v.flow = "" then none else some v.flow
  transport := .reality { publicKey := v.publicKey, shortId := v.shortId, serverName := v.serverName }
  encryption := none

end RealityServer

-- An importer makes an outbound of a description.
def Imports (r : Except ParseError ServerProfile) (ob : Outbound) : Prop :=
  ∃ p, r = .ok p ∧ outboundFromProfile p = .ok ob

theorem Imports.unique {r : Except ParseError ServerProfile} {ob ob' : Outbound} (h : Imports r ob)
    (h' : Imports r ob') : ob = ob' := by
  obtain ⟨p, hp, ho⟩ := h
  obtain ⟨p', hp', ho'⟩ := h'
  cases hp.symm.trans hp'
  exact Except.ok.inj (ho.symm.trans ho')

section Params

variable {key k : String} {params : Link.Params}

theorem Xray.get_insertStr (key k s : String) (params : Link.Params) :
    (Xray.insertStr key (some (.string s)) params).get k =
      if k = key ∧ s ≠ "" then some s else params.get k := by
  by_cases hs : s = ""
  case pos => simp [Xray.insertStr, JsonValue.asText, JsonValue.asStr, Option.filter_some, hs]
  case neg =>
    simp [Xray.insertStr, JsonValue.asText, JsonValue.asStr, Option.filter_some, hs, OrdMap.get_insert]

theorem Singbox.get_insertStr (key k s : String) (params : Link.Params) :
    (Singbox.insertStr key (some (.string s)) params).get k = if k = key then some s else params.get k := by
  simp [Singbox.insertStr, JsonValue.asStr, OrdMap.get_insert]

end Params

section Vless

variable {p : ServerProfile} {v : RealityServer}

-- What a profile must have in order to be the server.
structure Describes (p : ServerProfile) (v : RealityServer) : Prop where
  protocol   : p.protocol = .vless
  address    : p.address = v.host
  port       : p.port = v.port
  uuid       : p.param "uuid" = some v.uuid
  flow       : p.param "flow" = if v.flow = "" then none else some v.flow
  encryption : (p.param "encryption").filter (fun e => e != "" && e != "none") = none
  publicKey  : (p.param "pbk").getD "" = v.publicKey
  shortId    : (p.param "sid").getD "" = v.shortId
  serverName : ((p.param "sni").orElse fun _ => p.param "host").getD "" = v.serverName

theorem Describes.outbound (h : Describes p v) :
    outboundFromProfile p = .ok (.vless { v.outbound with
      transport := if p.param "security" = some "reality" then v.outbound.transport else .tcp }) := by
  obtain ⟨u, hu⟩ := Option.isSome_iff_exists.mp v.valid
  have hr : p.requireUuid = .ok u := by
    simp only [ServerProfile.requireUuid, ServerProfile.require, h.uuid, bind, Except.bind, hu]
  rw [outboundFromProfile, h.protocol]
  show ServerProfile.vlessOutbound p = _
  rw [ServerProfile.vlessOutbound, hr]
  show Except.ok _ = _
  simp only [h.flow, h.encryption, h.publicKey, h.shortId, h.serverName, RealityServer.outbound, hu,
    Option.get_some, ServerProfile.server, h.address, h.port]

end Vless

section Importers

variable (v : RealityServer)

def linkProfile : ServerProfile :=
  Link.makeProfile .vless v.host v.port ((Link.queryToParams v.query).insert "uuid" v.uuid) (some v.name)

theorem linkProfile_describes : Describes (linkProfile v) v ∧ (linkProfile v).param "security" = some "reality" := by
  have hp : ∀ key, (linkProfile v).param key =
      ((Link.queryToParams v.query).insert "uuid" v.uuid).get key := fun _ => rfl
  by_cases hf : v.flow = ""
  case pos =>
    refine ⟨⟨rfl, rfl, rfl, ?_, ?_, ?_, ?_, ?_, ?_⟩, ?_⟩ <;>
      simp [hp, Link.queryToParams, OrdMap.ofList, RealityServer.query, RealityServer.flowPair, hf,
        OrdMap.get_insert]
  case neg =>
    refine ⟨⟨rfl, rfl, rfl, ?_, ?_, ?_, ?_, ?_, ?_⟩, ?_⟩ <;>
      simp [hp, Link.queryToParams, OrdMap.ofList, RealityServer.query, RealityServer.flowPair, hf,
        OrdMap.get_insert]

theorem asU16Port_port : (JsonValue.number (some v.port)).asU16Port = some v.port :=
  if_pos v.port_lt

def xrayParams : Link.Params :=
  Xray.extractStream v.xrayStream (Xray.insertStr "encryption" (some (.string "none"))
    (Xray.insertStr "flow" (some (.string v.flow)) (OrdMap.empty.insert "uuid" v.uuid)))

theorem xray_parse :
    ∃ p, Xray.parseOutbound v.xray = .ok p ∧ p.protocol = .vless ∧ p.address = v.host ∧ p.port = v.port ∧
      p.params = xrayParams v := by
  have hnode : Xray.extractVless v.xrayNode OrdMap.empty =
      .ok ((v.host, v.port), Xray.insertStr "encryption" (some (.string "none"))
        (Xray.insertStr "flow" (some (.string v.flow)) (OrdMap.empty.insert "uuid" v.uuid))) := by
    have ha : Xray.addressPort v.xrayNode = .ok (v.host, v.port) := by
      show (Link.orError _ (JsonValue.number (some v.port)).asU16Port >>= fun port => Except.ok (v.host, port)) = _
      rw [asU16Port_port]
      rfl
    rw [Xray.extractVless, ha]
    rfl
  have hparse : Xray.parseOutbound v.xray = (Xray.extractVless v.xrayNode OrdMap.empty >>= fun r =>
      Except.ok {
        name := ((JsonValue.string v.name).asText).getD (r.1.1 ++ ":" ++ .ofList (decimal r.1.2))
        protocol := .vless
        address := r.1.1
        port := r.1.2
        params := Xray.extractStream v.xrayStream r.2
        tags := []
      }) := rfl
  rw [hparse, hnode]
  exact ⟨_, rfl, rfl, rfl, rfl, rfl⟩

-- A text that is left out when it is empty reads as itself.
theorem getD_given (s : String) : (if s = "" then none else some s).getD "" = s := by
  split
  case isTrue h  => exact h.symm
  case isFalse _ => rfl

theorem xray_describes {p : ServerProfile} (hk : p.protocol = .vless) (ha : p.address = v.host)
    (hp : p.port = v.port) (hm : p.params = xrayParams v) :
    Describes p v ∧ p.param "security" = some "reality" := by
  have hx : xrayParams v = Xray.insertStr "sid" (some (.string v.shortId))
      (Xray.insertStr "pbk" (some (.string v.publicKey)) (Xray.insertStr "sni" (some (.string v.serverName))
        (Xray.insertStr "security" (some (.string "reality")) (Xray.insertStr "type" (some (.string "tcp"))
          (Xray.insertStr "encryption" (some (.string "none"))
            (Xray.insertStr "flow" (some (.string v.flow)) (OrdMap.empty.insert "uuid" v.uuid))))))) := rfl
  have hg : ∀ key, p.param key = (xrayParams v).get key := fun key => by rw [ServerProfile.param, hm]
  refine ⟨⟨hk, ha, hp, ?_, ?_, ?_, ?_, ?_, ?_⟩, ?_⟩ <;>
    simp [hg, hx, Xray.get_insertStr, OrdMap.get_insert, getD_given]

theorem import_xray : Imports (Xray.parseOutbound v.xray) (.vless v.outbound) := by
  obtain ⟨p, hp, hk, ha, hport, hm⟩ := xray_parse v
  obtain ⟨hd, hs⟩ := xray_describes v hk ha hport hm
  refine ⟨p, hp, ?_⟩
  rw [hd.outbound, if_pos hs]

theorem import_link (h : LinkHost v.host) : Imports (Link.parseLink v.link) (.vless v.outbound) := by
  obtain ⟨hd, hs⟩ := linkProfile_describes v
  refine ⟨linkProfile v, parseLink_vless h v.port_lt v.uuid v.name v.query, ?_⟩
  rw [hd.outbound, if_pos hs]

def singboxParams : Link.Params :=
  Singbox.parseTransport v.singbox (Singbox.parseTls v.singbox
    (Singbox.insertOpt v.singbox "flow" "flow" (OrdMap.empty.insert "uuid" v.uuid)))

theorem uuid_ne_empty : v.uuid ≠ "" := by
  intro h
  have := v.valid
  rw [h] at this
  exact absurd this (by decide)

theorem asText_string {s : String} (h : s ≠ "") : (JsonValue.string s).asText = some s :=
  Option.filter_some_pos (bne_iff_ne.mpr h)

theorem Singbox.insertField_eq {ob : JsonValue} {src value : String}
    (h : (ob.get src).bind JsonValue.asText = some value) (key : String) (params : Link.Params) :
    Singbox.insertField ob src key params = .ok (params.insert key value) := by
  rw [Singbox.insertField, h]

theorem singbox_parse :
    Singbox.parseOutbound v.singbox =
      if v.host = "" then .error .missingHost
      else .ok {
        name := ((JsonValue.string v.name).asText).getD (v.host ++ ":" ++ .ofList (decimal v.port))
        protocol := .vless
        address := v.host
        port := v.port
        params := singboxParams v
        tags := []
      } := by
  have hparse : Singbox.parseOutbound v.singbox =
      (Link.orError .missingHost (JsonValue.string v.host).asText >>= fun address =>
        Link.orError .missingPort (JsonValue.number (some v.port)).asU16Port >>= fun port =>
          Singbox.insertCredentials .vless v.singbox .empty >>= fun params =>
            Except.ok {
              name := ((JsonValue.string v.name).asText).getD (address ++ ":" ++ .ofList (decimal port))
              protocol := .vless
              address
              port
              params := Singbox.parseTransport v.singbox (Singbox.parseTls v.singbox params)
              tags := []
            }) := rfl
  have hcred : Singbox.insertCredentials .vless v.singbox .empty =
      .ok (Singbox.insertOpt v.singbox "flow" "flow" (OrdMap.empty.insert "uuid" v.uuid)) := by
    have hu : (v.singbox.get "uuid").bind JsonValue.asText = some v.uuid := asText_string (uuid_ne_empty v)
    rw [Singbox.insertCredentials, Singbox.insertField_eq hu]
    rfl
  rw [hparse, asU16Port_port, hcred]
  split
  case isTrue h =>
    rw [h]
    rfl
  case isFalse h =>
    rw [asText_string h]
    rfl

theorem singboxParams_eq :
    singboxParams v = Singbox.insertStr "sid" (some (.string v.shortId))
      (Singbox.insertStr "pbk" (some (.string v.publicKey)) (Singbox.insertStr "sni" (some (.string v.serverName))
        (Xray.insertStr "flow" (some (.string v.flow)) (OrdMap.empty.insert "uuid" v.uuid)))) :=
  rfl

-- The parser for sing-box knows the keys of REALITY, but says nowhere that they are to be used.
theorem singbox_security : (singboxParams v).get "security" = none := by
  simp [singboxParams_eq, Singbox.get_insertStr, Xray.get_insertStr, OrdMap.get_insert]

theorem singbox_describes {p : ServerProfile} (hk : p.protocol = .vless) (ha : p.address = v.host)
    (hp : p.port = v.port) (hm : p.params = singboxParams v) : Describes p v := by
  have hg : ∀ key, p.param key = (singboxParams v).get key := fun key => by rw [ServerProfile.param, hm]
  refine ⟨hk, ha, hp, ?_, ?_, ?_, ?_, ?_, ?_⟩ <;>
    simp [hg, singboxParams_eq, Singbox.get_insertStr, Xray.get_insertStr, OrdMap.get_insert]

theorem import_singbox (h : v.host ≠ "") :
    Imports (Singbox.parseOutbound v.singbox) (.vless { v.outbound with transport := .tcp }) := by
  rw [singbox_parse, if_neg h]
  refine ⟨_, rfl, ?_⟩
  rw [(singbox_describes v rfl rfl rfl rfl).outbound, if_neg]
  rw [ServerProfile.param, singbox_security]
  simp

theorem import_singbox_eq {ob : Outbound} (h : Imports (Singbox.parseOutbound v.singbox) ob) :
    ob = .vless { v.outbound with transport := .tcp } := by
  by_cases hh : v.host = ""
  case pos =>
    obtain ⟨p, hp, -⟩ := h
    rw [singbox_parse, if_pos hh] at hp
    cases hp
  case neg => exact h.unique (import_singbox v hh)

-- There is no server of which the three descriptions make the same outbound.
theorem importers_disagree :
    ¬∃ ob, Imports (Link.parseLink v.link) ob ∧ Imports (Xray.parseOutbound v.xray) ob ∧
      Imports (Singbox.parseOutbound v.singbox) ob := by
  rintro ⟨ob, -, hx, hs⟩
  have he := (import_xray v).unique hx
  rw [import_singbox_eq v hs] at he
  have ht := congrArg VlessConfig.transport (Outbound.vless.inj he)
  exact absurd ht (fun h => by cases h)

end Importers

section Example

def plainServer : RealityServer where
  name := "t"
  uuid := "00000000-0000-0000-0000-000000000001"
  host := "example.com"
  port := 443
  flow := ""
  publicKey := "k"
  shortId := "01"
  serverName := "www.example.com"
  port_lt := by decide
  valid := by decide

-- The link and Xray's outbound keep REALITY; sing-box's outbound goes in plain.
theorem singbox_reality_dropped :
    Imports (Link.parseLink plainServer.link) (.vless plainServer.outbound) ∧
    Imports (Xray.parseOutbound plainServer.xray) (.vless plainServer.outbound) ∧
    Imports (Singbox.parseOutbound plainServer.singbox) (.vless { plainServer.outbound with transport := .tcp }) ∧
    ¬∃ ob, Imports (Link.parseLink plainServer.link) ob ∧ Imports (Singbox.parseOutbound plainServer.singbox) ob := by
  have hh : LinkHost plainServer.host := ⟨by decide, by simp [plainServer]⟩
  have hl := import_link plainServer hh
  have hs := import_singbox plainServer (by decide)
  refine ⟨hl, import_xray _, hs, ?_⟩
  rintro ⟨ob, hl', hs'⟩
  have he := (hl.unique hl').trans (hs'.unique hs)
  have ht := congrArg VlessConfig.transport (Outbound.vless.inj he)
  exact absurd ht (fun h => by cases h)

end Example
end JammVpn
