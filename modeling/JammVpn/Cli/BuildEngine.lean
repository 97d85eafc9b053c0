import JammVpn.Net.FromConfig
import JammVpn.Net.Theorems.Route

namespace JammVpn

-- The source has texts for these.
inductive BuildError
  | nodeNotFound (name : String)
  | defaultNodeNotFound (name : String)
  | missingGeo (refs : List Engine.MissingGeo)
  deriving DecidableEq

namespace AppConfig

def hasServer (cfg : AppConfig) (name : String) : Bool :=
  cfg.servers.any (·.name == name)

-- The selected node, else the default of the settings, else the node of the proxy.
def defaultNode (cfg : AppConfig) (server : Option String) : Option String :=
  (server.or cfg.settings.defaultProxy).or cfg.settings.proxyNode

-- With a selected node all traffic that no rule covers goes to the node.
def effective (cfg : AppConfig) (server : Option String) : AppConfig :=
  { cfg with
    settings := { cfg.settings with
      defaultProxy := cfg.defaultNode server
      defaultToProxy := server.isSome || cfg.settings.defaultToProxy } }

-- A named node has to be among the servers.
def checkNode (cfg : AppConfig) (err : String → BuildError) : Option String → Except BuildError Unit
  | some name => if cfg.hasServer name then .ok () else .error (err name)
  | none      => .ok ()

end AppConfig

def buildEngine (geo : GeoLoader) (cfg : AppConfig) (server : Option String) :
    Except BuildError Engine := do
  cfg.checkNode .nodeNotFound server
  cfg.checkNode .defaultNodeNotFound (cfg.defaultNode server)
  let engine := Engine.fromConfig geo (cfg.effective server)
  if engine.missingGeoRefs.isEmpty then return engine
  else throw (.missingGeo engine.missingGeoRefs)

theorem buildEngine_eq_ok {geo : GeoLoader} {cfg : AppConfig} {n : String} {e : Engine}
    (h : buildEngine geo cfg (some n) = .ok e) :
    cfg.hasServer n = true ∧ e = .fromConfig geo (cfg.effective (some n)) := by
  have hd : cfg.defaultNode (some n) = some n := rfl
  cases hs : cfg.hasServer n <;> simp only [buildEngine, hd, AppConfig.checkNode, hs] at h
  case false => contradiction
  case true =>
    simp only [if_true, bind, Except.bind] at h
    split at h
    case isTrue  => exact ⟨rfl, (Except.ok.inj h).symm⟩
    case isFalse => contradiction

namespace AppConfig

-- Every rule with geo categories has its database.
def geoLoaded (geo : GeoLoader) (cfg : AppConfig) : Bool :=
  cfg.rules.all fun rule =>
    (rule.geosite.isEmpty || (cfg.geo.geositePath.bind fun p => (geo.geosite p).toOption).isSome) &&
    (rule.geoip.isEmpty || (cfg.geo.geoipPath.bind fun p => (geo.geoip p).toOption).isSome)

-- The node that the engine falls back to exists, and so do the databases. A selected node is that node.
def buildable (geo : GeoLoader) (cfg : AppConfig) (server : Option String) : Bool :=
  (cfg.defaultNode server).all cfg.hasServer && cfg.geoLoaded geo

variable {geo : GeoLoader} {cfg : AppConfig} {server : Option String}

theorem missingGeoRefs_isEmpty :
    (Engine.fromConfig geo (cfg.effective server)).missingGeoRefs.isEmpty = cfg.geoLoaded geo := by
  have hone (rule : Rule) (i : Nat) (ns ni : Bool) :
      ((if !rule.geosite.isEmpty && ns then [Engine.MissingGeo.mk (i + 1) .geosite rule.geosite] else []) ++
        (if !rule.geoip.isEmpty && ni then [Engine.MissingGeo.mk (i + 1) .geoip rule.geoip] else [])).isEmpty =
      ((rule.geosite.isEmpty || !ns) && (rule.geoip.isEmpty || !ni)) := by
    cases rule.geosite.isEmpty <;> cases rule.geoip.isEmpty <;> cases ns <;> cases ni <;> rfl
  rw [Bool.eq_iff_iff, List.isEmpty_iff, Engine.missingGeoRefs, List.flatMap_eq_nil_iff, geoLoaded,
    List.all_eq_true]
  constructor
  case mp =>
    intro h rule hr
    have ⟨i, hi, he⟩ := List.getElem_of_mem hr
    have hm : (rule, i) ∈ (Engine.fromConfig geo (cfg.effective server)).rules.zipIdx :=
      List.mk_mem_zipIdx_iff_getElem?.mpr (he ▸ List.getElem?_eq_getElem hi)
    have h := List.isEmpty_iff.mpr (h _ hm)
    rw [hone] at h
    simpa [Engine.fromConfig, effective, Option.isSome_iff_ne_none] using h
  case mpr =>
    rintro h ⟨rule, i⟩ hr
    have h := h rule (List.fst_mem_of_mem_zipIdx hr)
    rw [← List.isEmpty_iff, hone]
    simpa [Engine.fromConfig, effective, Option.isSome_iff_ne_none] using h

theorem checkNode_eq_ok {err : String → BuildError} {node : Option String} :
    cfg.checkNode err node = .ok () ↔ node.all cfg.hasServer = true := by
  cases node
  case none   => simp [checkNode]
  case some n => cases h : cfg.hasServer n <;> simp [checkNode, h]

theorem buildEngine_of_buildable (h : cfg.buildable geo server = true) :
    buildEngine geo cfg server = .ok (.fromConfig geo (cfg.effective server)) := by
  have ⟨hd, hg⟩ := (Bool.and_eq_true _ _).mp h
  have hs : cfg.checkNode .nodeNotFound server = .ok () := by
    cases server
    case none   => rfl
    case some n => exact if_pos hd
  have hn : cfg.checkNode .defaultNodeNotFound (cfg.defaultNode server) = .ok () := checkNode_eq_ok.mpr hd
  simp [buildEngine, hs, hn, missingGeoRefs_isEmpty, hg, bind, Except.bind, pure, Except.pure]

theorem buildable_of_buildEngine {e : Engine} (h : buildEngine geo cfg server = .ok e) :
    cfg.buildable geo server = true := by
  cases hs : cfg.checkNode .nodeNotFound server <;> simp only [buildEngine, hs] at h
  case error => contradiction
  cases hn : cfg.checkNode .defaultNodeNotFound (cfg.defaultNode server) <;> simp only [hn] at h
  case error => contradiction
  cases hg : cfg.geoLoaded geo <;> simp only [missingGeoRefs_isEmpty, hg] at h
  case false => contradiction
  case true  => simp [buildable, checkNode_eq_ok.mp hn, hg]

-- An engine is built exactly where it can be.
theorem exists_buildEngine_iff : (∃ e, buildEngine geo cfg server = .ok e) ↔ cfg.buildable geo server = true :=
  ⟨fun ⟨_, h⟩ => buildable_of_buildEngine h, fun h => ⟨_, buildEngine_of_buildable h⟩⟩

end AppConfig

section Selected

-- An engine whose default is a node, with a table made from servers.
variable {e : Engine} {servers : List ServerProfile} {n : String}
variable {resolve : String → DnsResolver.Answer} {target : Target}

structure Selected (e : Engine) (servers : List ServerProfile) (n : String) : Prop where
  outbounds     : e.outbounds = outboundTable servers
  defaultProxy  : e.defaultProxy = some n
  defaultAction : e.defaultAction = .proxy none

-- `ob` is the outbound of a configured server, in the second case of the one named `n`.
def IsOutbound (servers : List ServerProfile) (ob : Outbound) : Prop :=
  ∃ s ∈ servers, outboundFromProfile s = .ok ob

def IsOutboundOf (servers : List ServerProfile) (n : String) (ob : Outbound) : Prop :=
  ∃ s ∈ servers, s.name = n ∧ outboundFromProfile s = .ok ob

theorem IsOutboundOf.isOutbound {ob : Outbound} (h : IsOutboundOf servers n ob) :
    IsOutbound servers ob :=
  have ⟨s, hs, _, ho⟩ := h
  ⟨s, hs, ho⟩

theorem IsOutbound.ne_direct {ob : Outbound} (h : IsOutbound servers ob) : ob ≠ .direct := by
  obtain ⟨s, -, ho⟩ := h
  intro he
  exact outboundFromProfile_proxied s (he ▸ ho)

theorem Selected.decision_cases (h : Selected e servers n) (action : RouteAction) :
    action = .direct ∧ e.act action = .connect .direct ∨
    e.act action = .block ∨
    ∃ ob, IsOutbound servers ob ∧ e.act action = .connect ob := by
  cases action
  case direct => exact .inl ⟨rfl, rfl⟩
  case block  => exact .inr (.inl rfl)
  case proxy tag =>
    refine .inr ?_
    rw [e.act_proxy, Engine.proxyDecision]
    split
    case h_2 => exact .inl rfl
    case h_1 ob ho =>
      have ⟨t, _, ht⟩ := Option.bind_eq_some_iff.mp ho
      rw [h.outbounds] at ht
      have hm : IsOutboundOf servers t ob := mem_outboundTable ht
      exact .inr ⟨ob, hm.isOutbound, rfl⟩

theorem Selected.act_default (h : Selected e servers n) :
    e.act e.defaultAction =
      match (outboundTable servers).get n with
      | some ob => .connect ob
      | none    => .block := by
  rw [h.defaultAction, e.act_proxy, Engine.proxyDecision, h.defaultProxy, h.outbounds]
  rfl

theorem Selected.fallback (h : Selected e servers n) {action : RouteAction} {ob : Outbound}
    (hf : (e.actFull action).2.2.1 = some ob) : IsOutboundOf servers n ob := by
  simp only [Engine.actFull, h.defaultProxy, h.outbounds] at hf
  cases action <;> simp only [reduceCtorEq] at hf
  case proxy tag =>
    cases tag <;> simp only [reduceCtorEq] at hf
    case some t =>
      split at hf
      case isTrue  => exact mem_outboundTable hf
      case isFalse => simp at hf

-- Traffic that no rule covers goes to the node, and nowhere if the node cannot be used.
theorem Selected.decision_of_no_match (h : Selected e servers n)
    (hd : (servers.map (·.name)).Nodup) (hn : e.firstMatch resolve target = none) :
    (∃ ob, IsOutboundOf servers n ob ∧ (e.route resolve target).decision = .connect ob) ∨
    (e.route resolve target).decision = .block ∧
      ((¬∃ ob, IsOutboundOf servers n ob) ∨ e.FailsClosed resolve target) := by
  rw [e.route_decision]
  obtain ⟨hf, ha⟩ | ha := e.chosenAction_of_no_match resolve target hn
  case inl =>
    rw [ha]
    exact .inr ⟨rfl, .inr hf⟩
  case inr =>
    rw [ha, h.act_default]
    cases ho : (outboundTable servers).get n
    case some ob => exact .inl ⟨ob, mem_outboundTable ho, rfl⟩
    case none    =>
      refine .inr ⟨rfl, .inl fun ⟨ob, s, hm, hn, hok⟩ => ?_⟩
      simp [← hn, outboundTable_eq_some hd hm hok] at ho

theorem Selected.direct_by_rule (h : Selected e servers n) (hd : (servers.map (·.name)).Nodup)
    (hc : (e.route resolve target).decision = .connect .direct) :
    ∃ r, e.firstMatch resolve target = some r ∧ r.action = .direct := by
  cases hm : e.firstMatch resolve target
  case some r =>
    rw [e.route_decision, e.chosenAction_of_match resolve target hm] at hc
    refine ⟨r, rfl, ?_⟩
    obtain ⟨ha, -⟩ | hb | ⟨ob, ho, hb⟩ := h.decision_cases r.action
    case inl     => exact ha
    case inr.inl => simp [hb] at hc
    case inr.inr => exact absurd (by simpa [hb] using hc) ho.ne_direct
  case none =>
    obtain ⟨ob, ho, hb⟩ | ⟨hb, -⟩ := h.decision_of_no_match hd hm
    case inl => exact absurd (by simpa [hb] using hc) ho.isOutbound.ne_direct
    case inr => simp [hb] at hc

theorem Selected.allocated (h : Selected e servers n) (domains : List String) :
    Selected (e.allocated domains) servers n :=
  ⟨h.outbounds, h.defaultProxy, h.defaultAction⟩

end Selected

theorem selected_of_buildEngine {geo : GeoLoader} {cfg : AppConfig} {n : String} {e : Engine}
    (h : buildEngine geo cfg (some n) = .ok e) : Selected e cfg.servers n := by
  rw [(buildEngine_eq_ok h).right]
  exact ⟨rfl, rfl, rfl⟩

-- With a selected node, traffic leaves directly only through a rule that says so. Names can be given
-- fake addresses while the engine runs.
theorem selected_node_keeps_traffic {geo : GeoLoader} {cfg : AppConfig} {n : String} {e₀ : Engine}
    (hd : (cfg.servers.map (·.name)).Nodup) (hb : buildEngine geo cfg (some n) = .ok e₀)
    (domains : List String) (resolve : String → DnsResolver.Answer) (target : Target) :
    let e := e₀.allocated domains
    let routed := e.route resolve target
    (routed.decision = .connect .direct →
      ∃ r, e.firstMatch resolve target = some r ∧ r.action = .direct) ∧
    (routed.decision ≠ .connect .direct →
      routed.decision = .block ∨ ∃ ob, IsOutbound cfg.servers ob ∧ routed.decision = .connect ob) ∧
    (e.firstMatch resolve target = none →
      (∃ ob, IsOutboundOf cfg.servers n ob ∧ routed.decision = .connect ob) ∨
      routed.decision = .block ∧
        ((¬∃ ob, IsOutboundOf cfg.servers n ob) ∨ e.FailsClosed resolve target)) ∧
    (∀ ob, routed.fallback = some ob → IsOutboundOf cfg.servers n ob ∧ ob ≠ .direct) := by
  intro e routed
  have hs : Selected e cfg.servers n := (selected_of_buildEngine hb).allocated domains
  refine ⟨hs.direct_by_rule hd, fun hne => ?proxied, hs.decision_of_no_match hd, fun ob hf => ?fallback⟩
  case proxied =>
    have hr := e.route_decision resolve target
    obtain ⟨-, ha⟩ | hb := hs.decision_cases (e.chosenAction resolve target)
    case inl => exact absurd (hr.trans ha) hne
    case inr => rwa [← hr] at hb
  case fallback =>
    have ho : IsOutboundOf cfg.servers n ob := hs.fallback (e.route_fallback resolve target ▸ hf)
    exact ⟨ho, ho.isOutbound.ne_direct⟩

theorem selected_node_keeps_traffic_trojan :
    let cfg : AppConfig := {
      servers := [{
        name := "node-a", protocol := .trojan, address := "1.1.1.1", port := 443,
        params := .ofList [("password", "pa"), ("sni", "a")], tags := []
      }]
    }
    let geo : GeoLoader := ⟨fun _ => .error "", fun _ => .error ""⟩
    ∃ e, buildEngine geo cfg (some "node-a") = .ok e ∧
      ((e.allocated []).route (fun _ => .ok []) (.domain "example.com" 443)).decision ≠
        .connect .direct := by
  intro cfg geo
  have h : buildEngine geo cfg (some "node-a") = .ok (.fromConfig geo (cfg.effective (some "node-a"))) :=
    rfl
  have ht := selected_node_keeps_traffic (by decide) h [] (fun _ => .ok []) (.domain "example.com" 443)
  refine ⟨_, h, fun hc => ?_⟩
  have ⟨r, hr, _⟩ := ht.1 hc
  cases hr

end JammVpn
