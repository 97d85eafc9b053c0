import JammVpn.Cli.BuildEngine
import JammVpn.Cli.Operations

-- Whether there still is an engine after servers have been removed.
namespace JammVpn

namespace AppConfig

variable {geo : GeoLoader} {cfg : AppConfig} {name : String}

-- The node that is used unless another one is selected.
def activeNode (cfg : AppConfig) : Option String :=
  cfg.settings.defaultProxy.or cfg.settings.proxyNode

theorem buildable_none_iff :
    cfg.buildable geo none = true ↔
      (∀ d, cfg.activeNode = some d → ∃ s ∈ cfg.servers, s.name = d) ∧ cfg.geoLoaded geo = true := by
  have hd : cfg.defaultNode none = cfg.activeNode := by rw [defaultNode, Option.none_or, activeNode]
  rw [buildable, Bool.and_eq_true, hd, Option.all_eq_true]
  simp only [hasServer, List.any_eq_true, beq_iff_eq]

-- The databases are as before if only servers, subscriptions and settings differ.
theorem buildable_none_iff_of_eq {cfg' : AppConfig} (hr : cfg'.rules = cfg.rules) (hg : cfg'.geo = cfg.geo)
    (h : cfg.buildable geo none = true) :
    cfg'.buildable geo none = true ↔ ∀ d, cfg'.activeNode = some d → ∃ s ∈ cfg'.servers, s.name = d := by
  have hl : cfg'.geoLoaded geo = true := by
    rw [geoLoaded, hr, hg]
    exact (buildable_none_iff.mp h).2
  rw [buildable_none_iff, and_iff_left hl]

theorem applyRemove_eq_self (h : ∀ s ∈ cfg.servers, s.name ≠ name) : (cfg.applyRemove name).1 = cfg := by
  have hf : cfg.servers.filter (·.name != name) = cfg.servers :=
    List.filter_eq_self.mpr fun s hs => bne_iff_ne.mpr (h s hs)
  simp only [applyRemove, hf, bne_self_eq_false, Bool.false_and, Bool.false_eq_true, if_false]

-- The default is forgotten with its node, and then the node of the proxy is used.
theorem activeNode_applyRemove {s : ServerProfile} (hs : s ∈ cfg.servers) (hn : s.name = name) :
    (cfg.applyRemove name).1.activeNode =
      if cfg.settings.defaultProxy = some name then cfg.settings.proxyNode else cfg.activeNode := by
  have hl : ((cfg.servers.filter (·.name != name)).length != cfg.servers.length) = true := by
    rw [bne_iff_ne]
    intro he
    have := List.filter_eq_self.mp (List.filter_sublist.eq_of_length he) s hs
    rw [hn, bne_self_eq_false] at this
    cases this
  simp only [applyRemove, hl, Bool.true_and, beq_iff_eq, activeNode]
  split <;> rfl

theorem mem_applyRemove {d : String} :
    (∃ s ∈ (cfg.applyRemove name).1.servers, s.name = d) ↔ d ≠ name ∧ ∃ s ∈ cfg.servers, s.name = d := by
  show (∃ s ∈ cfg.servers.filter (·.name != name), s.name = d) ↔ _
  constructor
  case mp =>
    rintro ⟨s, hs, rfl⟩
    have ⟨hs, hn⟩ := List.mem_filter.mp hs
    exact ⟨bne_iff_ne.mp hn, s, hs, rfl⟩
  case mpr =>
    rintro ⟨hn, s, hs, rfl⟩
    exact ⟨s, List.mem_filter.mpr ⟨hs, bne_iff_ne.mpr hn⟩, rfl⟩

theorem buildable_applyRemove (h : cfg.buildable geo none = true) :
    (cfg.applyRemove name).1.buildable geo none = true ↔
      (∀ s ∈ cfg.servers, s.name ≠ name) ∨ (∃ d, cfg.settings.defaultProxy = some d ∧ d ≠ name) ∨
      ∀ p, cfg.settings.proxyNode = some p → p ≠ name ∧ ∃ s ∈ cfg.servers, s.name = p := by
  by_cases hall : ∀ s ∈ cfg.servers, s.name ≠ name
  case pos =>
    rw [applyRemove_eq_self hall]
    exact iff_of_true h (.inl hall)
  case neg =>
    rw [or_iff_right hall]
    simp only [not_forall, not_not] at hall
    obtain ⟨s, hs, hn⟩ := hall
    have ⟨hd, _⟩ := buildable_none_iff.mp h
    refine (buildable_none_iff_of_eq ?rules ?geo h).trans ?_
    case rules => rfl
    case geo   => rfl
    rw [activeNode_applyRemove hs hn]
    simp only [mem_applyRemove]
    cases hdef : cfg.settings.defaultProxy
    case none =>
      -- The node of the proxy was already in use.
      have ha : cfg.activeNode = cfg.settings.proxyNode := by rw [activeNode, hdef, Option.none_or]
      simp [ha]
    case some d =>
      have ha : cfg.activeNode = some d := by rw [activeNode, hdef, Option.some_or]
      by_cases he : d = name
      case pos => simp [he]
      case neg =>
        rw [if_neg fun hc => he (Option.some.inj hc), ha]
        refine iff_of_true (fun d' hd' => ?_) (.inl ⟨d, rfl, he⟩)
        cases hd'
        exact ⟨he, hd d ha⟩

theorem buildable_applyRemoveSubscription {url : String} (h : cfg.buildable geo none = true) :
    ((cfg.applyRemoveSubscription url).getD cfg).buildable geo none = true ↔
      ∀ sub, cfg.subscriptions.find? (·.url == url) = some sub → ∀ d, cfg.activeNode = some d →
        ∃ s ∈ cfg.servers, s.name = d ∧ subTag sub ∉ s.tags := by
  rw [applyRemoveSubscription]
  cases cfg.subscriptions.find? (·.url == url)
  case none =>
    refine iff_of_true h fun sub hs => ?_
    cases hs
  case some sub =>
    simp only [Option.map_some, Option.getD_some]
    refine (buildable_none_iff_of_eq ?rules ?geo h).trans ?_
    case rules => rfl
    case geo   => rfl
    simp only [activeNode, List.mem_filter, decide_eq_true_eq, Option.some.injEq, forall_eq', and_assoc, and_comm]

end AppConfig

-- After a node is removed there is an engine unless the node of the proxy comes into use, or is in use,
-- and is missing; after a subscription is removed, unless its servers were the only ones with the name
-- of the node in use.
theorem removal_startable_iff {geo : GeoLoader} {cfg : AppConfig}
    (h : ∃ e, buildEngine geo cfg none = .ok e) (name url : String) :
    ((∃ e, buildEngine geo (cfg.applyRemove name).1 none = .ok e) ↔
      (∀ s ∈ cfg.servers, s.name ≠ name) ∨ (∃ d, cfg.settings.defaultProxy = some d ∧ d ≠ name) ∨
      ∀ p, cfg.settings.proxyNode = some p → p ≠ name ∧ ∃ s ∈ cfg.servers, s.name = p) ∧
    ((∃ e, buildEngine geo ((cfg.applyRemoveSubscription url).getD cfg) none = .ok e) ↔
      ∀ sub, cfg.subscriptions.find? (·.url == url) = some sub →
        ∀ d, cfg.settings.defaultProxy.or cfg.settings.proxyNode = some d →
          ∃ s ∈ cfg.servers, s.name = d ∧ subTag sub ∉ s.tags) := by
  have hb := AppConfig.exists_buildEngine_iff.mp h
  exact ⟨AppConfig.exists_buildEngine_iff.trans (AppConfig.buildable_applyRemove hb),
    AppConfig.exists_buildEngine_iff.trans (AppConfig.buildable_applyRemoveSubscription hb)⟩

section Example

def startableNode : ServerProfile where
  name := "A"
  protocol := .trojan
  address := "h"
  port := 443
  params := .empty
  tags := ["t"]

-- The node of the proxy is the only server, and comes from the only subscription.
def startable : AppConfig where
  servers := [startableNode]
  subscriptions := [{ url := "https://s/", tag := some "t" }]
  settings := { proxyNode := some "A" }

def noDatabases : GeoLoader where
  geosite _ := .error ""
  geoip _ := .error ""

theorem exists_buildEngine_startable : ∃ e, buildEngine noDatabases startable none = .ok e :=
  AppConfig.exists_buildEngine_iff.mpr (by decide +kernel)

theorem removal_startable_iff_startable :
    ((∃ e, buildEngine noDatabases (startable.applyRemove "B").1 none = .ok e) ↔
      (∀ s ∈ startable.servers, s.name ≠ "B") ∨ (∃ d, startable.settings.defaultProxy = some d ∧ d ≠ "B") ∨
      ∀ p, startable.settings.proxyNode = some p → p ≠ "B" ∧ ∃ s ∈ startable.servers, s.name = p) ∧
    ((∃ e, buildEngine noDatabases ((startable.applyRemoveSubscription "https://s/").getD startable) none = .ok e) ↔
      ∀ sub, startable.subscriptions.find? (·.url == "https://s/") = some sub →
        ∀ d, startable.settings.defaultProxy.or startable.settings.proxyNode = some d →
          ∃ s ∈ startable.servers, s.name = d ∧ subTag sub ∉ s.tags) :=
  removal_startable_iff exists_buildEngine_startable "B" "https://s/"

-- Without it there is no engine.
theorem node_missing_after_removal :
    (¬∀ (geo : GeoLoader) (cfg : AppConfig) (name : String), (∃ e, buildEngine geo cfg none = .ok e) →
      ∃ e, buildEngine geo (cfg.applyRemove name).1 none = .ok e) ∧
    ¬∀ (geo : GeoLoader) (cfg : AppConfig) (url : String), (∃ e, buildEngine geo cfg none = .ok e) →
      ∃ e, buildEngine geo ((cfg.applyRemoveSubscription url).getD cfg) none = .ok e := by
  constructor
  case left =>
    intro h
    have h := AppConfig.exists_buildEngine_iff.mp (h noDatabases startable "A" exists_buildEngine_startable)
    exact absurd h (by decide +kernel)
  case right =>
    intro h
    have h := AppConfig.exists_buildEngine_iff.mp (h noDatabases startable "https://s/" exists_buildEngine_startable)
    exact absurd h (by decide +kernel)

end Example
end JammVpn
