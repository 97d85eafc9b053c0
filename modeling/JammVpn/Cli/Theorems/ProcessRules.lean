import JammVpn.Cli.BuildEngine
import JammVpn.Cli.RulesToSplit
import JammVpn.Core.Theorems.Ladder

namespace JammVpn

open Ladder Split

section Engine

variable {e : Engine} {resolve : String → DnsResolver.Answer}

-- The engine without the rules that name processes.
def Engine.unattributed (e : Engine) : Engine :=
  { e with rules := e.rules.filter (·.processes.isEmpty) }

theorem not_matchesApp_unknown (m : AppMatcher) : m.matchesApp {} = false := by
  cases m <;> rfl

theorem Engine.processes_of_nonIpOk {rule : Rule} {domain : Option String} {port : Nat}
    (h : e.nonIpOk rule domain port {} = true) : rule.processes.isEmpty = true := by
  simp only [nonIpOk, not_matchesApp_unknown, Bool.and_eq_true, Bool.or_eq_true] at h
  obtain h | h := h.2
  case inl => exact h
  case inr => simp at h

theorem Engine.find?_unattributed {domain : Option String} {port : Nat} {ips : List Ip.IpAddr} :
    e.unattributed.rules.find? (e.applies domain port ips) = e.rules.find? (e.applies domain port ips) := by
  rw [unattributed, List.find?_filter]
  congr 1
  funext rule
  cases h : e.applies domain port ips rule
  case false => simp
  case true =>
    rw [applies, Bool.and_eq_true] at h
    simp [processes_of_nonIpOk h.1]

theorem Engine.any_mayBlock_unattributed {domain : Option String} {port : Nat} :
    e.unattributed.rules.any (e.mayBlock domain port) = e.rules.any (e.mayBlock domain port) := by
  rw [unattributed, List.any_filter]
  congr 1
  funext rule
  cases h : e.mayBlock domain port rule
  case false => exact Bool.and_false _
  case true =>
    simp only [mayBlock, Bool.and_eq_true] at h
    rw [processes_of_nonIpOk h.1.1]
    rfl

-- The engine does not know the process of a connection.
theorem Engine.chosenAction_unattributed (target : Target) :
    e.unattributed.chosenAction resolve target = e.chosenAction resolve target := by
  have hf (domain : Option String) (ip : Option Ip.IpAddr) (port : Nat) :
      e.unattributed.referenceAction resolve domain ip port = e.referenceAction resolve domain ip port := by
    rw [referenceAction, referenceAction, ← find?_unattributed (e := e), ← any_mayBlock_unattributed (e := e)]
    rfl
  exact hf _ _ _

end Engine

section Capture

variable {cfg : SplitConfig} {req : ConnRequest}

theorem decide_tunnel_iff (hm : cfg.mode = .inclusive) (h : Undecided (directRungs cfg) req) :
    Split.decide req cfg true = .tunnel ↔
      req.dstIp ∈ networks cfg.forceTunnelCidrs ∨ req.app ∈ selected cfg := by
  rw [undecided_directRungs_iff] at h
  push Not at h
  obtain ⟨h₁, h₂, h₃⟩ := h
  rw [← hairpin_iff] at h₁
  rw [← cidrsContain_iff] at h₂ h₃ ⊢
  rw [← appSelected_iff]
  simp only [Split.decide, if_neg h₁, if_neg h₂, if_neg h₃, hm]
  cases cidrsContain cfg.forceTunnelCidrs req.dstIp <;> cases appSelected cfg req.app <;> simp

end Capture

-- A connection of an application that the first rule names, and the rule names nothing else. No address
-- sends it directly.
structure NamedFirst (geo : GeoLoader) (cfg : AppConfig) (server : Option String) (e : Engine)
    (processes : List AppMatcher) (action : RouteAction) (rules : List Rule) (req : ConnRequest) : Prop where
  built     : buildEngine geo cfg server = .ok e
  first     : cfg.rules = { processes, action } :: rules
  mode      : cfg.split.mode = .inclusive
  named     : ∃ m ∈ processes, m.matchesApp req.app = true
  undecided : Undecided (directRungs (rulesToSplit cfg)) req

-- The connection is captured, and then the engine decides about it like that.
def Honoured (cfg : AppConfig) (e : Engine) (resolve : String → DnsResolver.Answer) (req : ConnRequest)
    (target : Target) (d : Decision) : Prop :=
  Split.decide req (rulesToSplit cfg) true = .tunnel ∧ (e.route resolve target).decision = d

variable {geo : GeoLoader} {cfg : AppConfig} {server : Option String} {e : Engine}
variable {processes : List AppMatcher} {action : RouteAction} {rules : List Rule} {req : ConnRequest}

-- The connection is captured without the first rule.
def CapturedAnyway (cfg : AppConfig) (rules : List Rule) (req : ConnRequest) : Prop :=
  req.dstIp ∈ networks cfg.split.forceTunnelCidrs ∨ req.app ∈ selected (rulesToSplit { cfg with rules })

theorem NamedFirst.captured (h : NamedFirst geo cfg server e processes action rules req) (n : Option String)
    (ha : action = .proxy n) : Split.decide req (rulesToSplit cfg) true = .tunnel := by
  have ⟨m, hm, happ⟩ := h.named
  have hmode : (rulesToSplit cfg).mode = .inclusive := h.mode
  refine (decide_tunnel_iff hmode h.undecided).mpr (.inr ⟨m, ?_, (matchesApp_iff m req.app).mp happ⟩)
  refine mem_rulesToSplit_apps.mpr (.inr ⟨{ processes, action }, ?_, ⟨n, ha⟩, hm⟩)
  exact h.first ▸ List.mem_cons_self

theorem NamedFirst.captured_iff (h : NamedFirst geo cfg server e processes action rules req)
    (ha : action = .block) :
    Split.decide req (rulesToSplit cfg) true = .tunnel ↔ CapturedAnyway cfg rules req := by
  have hmode : (rulesToSplit cfg).mode = .inclusive := h.mode
  rw [decide_tunnel_iff hmode h.undecided, CapturedAnyway]
  have hs (m : AppMatcher) : m ∈ (rulesToSplit cfg).apps ↔ m ∈ (rulesToSplit { cfg with rules }).apps := by
    have hp : ¬Rule.IsProxying { processes, action } := fun ⟨tag, ht⟩ => by simp [ha] at ht
    rw [mem_rulesToSplit_apps, mem_rulesToSplit_apps, h.first, List.exists_mem_cons_iff]
    simp only [hp, false_and, false_or]
  simp only [selected, hs]
  rfl

-- One application is meant to go to one node, and all else goes directly.
def oneProcess : AppConfig where
  servers := [{
    name := "node-a", protocol := .trojan, address := "1.1.1.1", port := 443,
    params := .ofList [("password", "pa"), ("sni", "a")], tags := []
  }]
  rules := [{ processes := [.processName "app.exe"], action := .proxy (some "node-a") }]

def noGeo : GeoLoader where
  geosite _ := .error ""
  geoip _ := .error ""

def appRequest : ConnRequest where
  app := { processName := some "app.exe" }
  dstIp := .v4 0x08080808
  dstPort := 443

theorem namedFirst_oneProcess :
    NamedFirst noGeo oneProcess none (.fromConfig noGeo oneProcess) [.processName "app.exe"]
      (.proxy (some "node-a")) [] appRequest where
  built := rfl
  first := rfl
  mode := rfl
  named := ⟨_, List.mem_cons_self, by decide⟩
  undecided := by
    rw [undecided_directRungs_iff, ← hairpin_iff, ← cidrsContain_iff, ← cidrsContain_iff]
    decide +kernel

theorem process_rule_lost :
    ¬∀ (geo : GeoLoader) (cfg : AppConfig) (server : Option String) (e : Engine) (processes : List AppMatcher)
      (action : RouteAction) (rules : List Rule) (req : ConnRequest) (domains : List String)
      (resolve : String → DnsResolver.Answer) (target : Target),
      NamedFirst geo cfg server e processes action rules req →
      (∀ n ob, action = .proxy (some n) → (outboundTable cfg.servers).get n = some ob →
        Honoured cfg (e.allocated domains) resolve req target (.connect ob)) ∧
      (action = .block → Honoured cfg (e.allocated domains) resolve req target .block) := by
  intro h
  have hob : ((outboundTable oneProcess.servers).get "node-a").isSome = true := by decide
  obtain ⟨ob, hob⟩ := Option.isSome_iff_exists.mp hob
  have ht := ((h _ _ _ _ _ _ _ _ [] (fun _ => .ok []) (.socket (.v4 0x08080808 443))
    namedFirst_oneProcess).1 "node-a" ob rfl hob).2
  have hd : (((Engine.fromConfig noGeo oneProcess).allocated []).route (fun _ => .ok [])
      (.socket (.v4 0x08080808 443))).decision = .connect .direct := rfl
  rw [hd] at ht
  obtain ⟨s, _, _, ho⟩ := mem_outboundTable hob
  exact outboundFromProfile_proxied s ((Decision.connect.inj ht).symm ▸ ho)

theorem process_rule_honoured_iff (h : NamedFirst geo cfg server e processes action rules req)
    (domains : List String) (resolve : String → DnsResolver.Answer) (target : Target) :
    (∀ n ob, action = .proxy (some n) → (outboundTable cfg.servers).get n = some ob →
      (Honoured cfg (e.allocated domains) resolve req target (.connect ob) ↔
        e.act ((e.allocated domains).unattributed.chosenAction resolve target) = .connect ob)) ∧
    (action = .block →
      (Honoured cfg (e.allocated domains) resolve req target .block ↔
        CapturedAnyway cfg rules req ∧
          e.act ((e.allocated domains).unattributed.chosenAction resolve target) = .block)) := by
  rw [Engine.chosenAction_unattributed]
  constructor
  case left =>
    intro n ob ha hob
    rw [Honoured, Engine.route_decision]
    exact and_iff_right (h.captured (some n) ha)
  case right =>
    intro ha
    rw [Honoured, Engine.route_decision, h.captured_iff ha]
    rfl

theorem process_rule_honoured_iff_oneProcess :
    Honoured oneProcess ((Engine.fromConfig noGeo oneProcess).allocated []) (fun _ => .ok []) appRequest
        (.socket (.v4 0x08080808 443)) (.connect .direct) ∧
      ∀ ob, (outboundTable oneProcess.servers).get "node-a" = some ob →
        (Honoured oneProcess ((Engine.fromConfig noGeo oneProcess).allocated []) (fun _ => .ok []) appRequest
            (.socket (.v4 0x08080808 443)) (.connect ob) ↔
          Decision.connect .direct = .connect ob) := by
  refine ⟨⟨namedFirst_oneProcess.captured _ rfl, rfl⟩, fun ob hob => ?_⟩
  exact (process_rule_honoured_iff namedFirst_oneProcess [] (fun _ => .ok []) _).1 "node-a" ob rfl hob

-- In the other mode the applications of the rules are those that are not captured.
section Modes

variable {cfg : AppConfig} {rule : Rule} {req : ConnRequest}

theorem decides_app (hs : req.app ∈ selected (rulesToSplit cfg)) (hu : Undecided (addressRungs (rulesToSplit cfg)) req) :
    Decides (ladder (rulesToSplit cfg)) req (ofSelected cfg.split.mode) := by
  refine decides_append.mpr (.inr ⟨hu, decides_modeRungs_iff.mpr ?_⟩)
  rw [if_pos ((appSelected_iff _ _).mpr hs)]
  rfl

theorem proxied_app_captured_iff (hr : rule ∈ cfg.rules) (hp : rule.IsProxying)
    (ha : ∃ m ∈ rule.processes, m.matchesApp req.app = true)
    (hu : Undecided (addressRungs (rulesToSplit cfg)) req) :
    Split.decide req (rulesToSplit cfg) true = .tunnel ↔ cfg.split.mode = .inclusive := by
  have ⟨m, hm, happ⟩ := ha
  have hs : req.app ∈ selected (rulesToSplit cfg) :=
    ⟨m, mem_rulesToSplit_apps.mpr (.inr ⟨rule, hr, hp, hm⟩), (matchesApp_iff m req.app).mp happ⟩
  rw [decide_of_decides (decides_app hs hu)]
  cases cfg.split.mode <;> simp [ofSelected, killSwitched]

def oneProcessIn (mode : SplitMode) : AppConfig :=
  { oneProcess with split := { mode } }

theorem undecided_oneProcessIn (mode : SplitMode) :
    Undecided (addressRungs (rulesToSplit (oneProcessIn mode))) appRequest := by
  simp only [Undecided, addressRungs, directRungs, List.cons_append, List.nil_append, List.forall_mem_cons,
    Set.mem_ofPred_eq, ← hairpin_iff, ← cidrsContain_iff]
  cases mode
  case inclusive =>
    exact ⟨by decide +kernel, by decide +kernel, by decide, by decide, fun _ hr => absurd hr List.not_mem_nil⟩
  case exclusive =>
    exact ⟨by decide +kernel, by decide +kernel, by decide, by decide, fun _ hr => absurd hr List.not_mem_nil⟩

theorem proxied_app_captured_iff_oneProcess :
    Split.decide appRequest (rulesToSplit (oneProcessIn .inclusive)) true = .tunnel ↔
      (oneProcessIn .inclusive).split.mode = .inclusive :=
  proxied_app_captured_iff List.mem_cons_self ⟨_, rfl⟩ ⟨_, List.mem_cons_self, by decide⟩
    (undecided_oneProcessIn .inclusive)

theorem proxied_app_excluded :
    ¬∀ (cfg : AppConfig) (rule : Rule) (req : ConnRequest), rule ∈ cfg.rules → rule.IsProxying →
      (∃ m ∈ rule.processes, m.matchesApp req.app = true) → Undecided (addressRungs (rulesToSplit cfg)) req →
      Split.decide req (rulesToSplit cfg) true = .tunnel := by
  intro h
  have ht := h (oneProcessIn .exclusive) _ appRequest List.mem_cons_self ⟨_, rfl⟩
    ⟨_, List.mem_cons_self, by decide⟩ (undecided_oneProcessIn .exclusive)
  exact absurd ht (by decide +kernel)

end Modes
end JammVpn
