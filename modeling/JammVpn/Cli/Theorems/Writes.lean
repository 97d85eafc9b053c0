import JammVpn.Cli.Operations

-- What the operations save.
namespace JammVpn

theorem AppConfig.findSubscription_eq {cfg : AppConfig} {url : String} {index : Nat} {sub : Subscription}
    (h : cfg.findSubscription url = some (index, sub)) : cfg.subscriptions[index]? = some sub := by
  rw [findSubscription] at h
  obtain ⟨i, _, h⟩ := Option.bind_eq_some_iff.mp h
  obtain ⟨s, hs, h⟩ := Option.bind_eq_some_iff.mp h
  cases h
  exact hs

theorem AppConfig.findSubscription_url {cfg : AppConfig} {url : String} {index : Nat} {sub : Subscription}
    (h : cfg.findSubscription url = some (index, sub)) : sub.url = url := by
  have hs := findSubscription_eq h
  rw [findSubscription] at h
  obtain ⟨i, hi, h⟩ := Option.bind_eq_some_iff.mp h
  obtain ⟨s, _, h⟩ := Option.bind_eq_some_iff.mp h
  cases h
  obtain ⟨hl, hu, _⟩ := List.findIdx?_eq_some_iff_getElem.mp hi
  rw [List.getElem?_eq_getElem hl] at hs
  cases hs
  exact beq_iff_eq.mp hu

theorem AppConfig.swapRules_eq (cfg : AppConfig) (i j : Nat) :
    ∃ rules, cfg.swapRules i j = { cfg with rules } := by
  rw [swapRules]
  split <;> exact ⟨_, rfl⟩

namespace Op

-- The operations that are about neither servers, nor rules, nor subscriptions, nor the local tunnel.
def OfSettings : Op → Prop
  | setSettings _ _   => True
  | setConnection _ _ => True
  | setGeoPaths _ _   => True
  | setSplitOptions _ => True
  | setSplitDriver _  => True
  | setSocksProxies _ => True
  | _                 => False

inductive Writes (cfg : AppConfig) : Op → AppConfig → Prop
  | importLink {arg p fetched} : isHttpUrl arg = false →
    Writes cfg (importNode arg (.ok p) fetched) { cfg with servers := cfg.servers ++ [p] }
  | importUrl {arg parsed servers title} : isHttpUrl arg = true →
    Writes cfg (importNode arg parsed (.ok (servers, title)))
      (cfg.importSubscription { url := arg, tag := title, updateIntervalHours := 12 } servers)
  | importConfig {text format parsed} :
    Writes cfg (importConfig text format parsed) { cfg with servers := cfg.servers ++ importedProfiles parsed }
  | updateSubscriptions {fetch} : Writes cfg (updateSubscriptions fetch) (cfg.refresh fetch)
  | updateOneSubscription {url fetch index sub servers title} :
    cfg.findSubscription url = some (index, sub) → fetch sub = .ok (servers, title) →
    Writes cfg (updateOneSubscription url fetch) (cfg.refreshAt index sub servers title)
  | clearSubscriptionNodes :
    Writes cfg clearSubscriptionNodes { cfg with servers := cfg.servers.filter (!isSubscriptionNode cfg ·) }
  | removeNode {name} : Writes cfg (removeNode name) (cfg.applyRemove name).1
  | addSubscription {url tag hours sub} : ¬cfg.subscriptions.any (·.url == sub.url) →
    Writes cfg (addSubscription url tag hours)
      (ensureDistinctSubTags { cfg with subscriptions := cfg.subscriptions ++ [sub] })
  | removeSubscription {url sub} : cfg.subscriptions.find? (·.url == url) = some sub →
    Writes cfg (removeSubscription url) { cfg with
      subscriptions := cfg.subscriptions.filter (·.url != url)
      servers := cfg.servers.filter (subTag sub ∉ ·.tags) }
  | addRule {info rule} : Writes cfg (addRule info) { cfg with rules := cfg.rules ++ [rule] }
  | updateRule {index info rule} :
    Writes cfg (updateRule index info) { cfg with rules := cfg.rules.set index rule }
  | removeRule {index} : Writes cfg (removeRule index) { cfg with rules := cfg.rules.eraseIdx index }
  | moveRule {index up j} : Writes cfg (moveRule index up) (cfg.swapRules index j)
  | applyPreset {id preset rules} : Writes cfg (applyPreset id preset) { cfg with rules }
  | localWgEnsure {generated} : Writes cfg (localWgEnsure generated) { cfg with localWg := some generated }
  | localWgSet {port upstreamNode} :
    Writes cfg (localWgSet port upstreamNode)
      { cfg with localWg := cfg.localWg.map (changeLocalWg port upstreamNode) }
  | settings {op cfg'} : op.OfSettings → cfg'.servers = cfg.servers → cfg'.rules = cfg.rules →
    cfg'.subscriptions = cfg.subscriptions → cfg'.localWg = cfg.localWg → Writes cfg op cfg'

variable {cfg cfg' : AppConfig} {op : Op}

theorem write_eq_some (h : op.write cfg = some cfg') :
    ∃ edit reply, op.plan = .ok edit ∧ edit cfg = .ok (some cfg', reply) := by
  rw [write] at h
  split at h
  case h_1 => cases h
  case h_2 edit hp =>
    split at h
    case h_1 => cases h
    case h_2 out reply he =>
      cases h
      exact ⟨edit, reply, hp, he⟩

-- An operation that always saves, and one that saves if there is a change.
theorem eq_of_save {f : AppConfig → AppConfig} {reply : Reply} (hp : op.plan = .ok (.save f reply))
    (h : op.write cfg = some cfg') : cfg' = f cfg := by
  rw [write, hp] at h
  exact (Option.some.inj h).symm

theorem eq_of_saveIf {f : AppConfig → Option AppConfig} (hp : op.plan = .ok (.saveIf f))
    (h : op.write cfg = some cfg') : f cfg = some cfg' := by
  rw [write, hp] at h
  exact h

theorem plan_bind {α : Type} {x : Except String α} {f : α → Edit} {edit : Edit}
    (h : (x >>= fun a => pure (f a)) = .ok edit) : ∃ a, x = .ok a ∧ f a = edit := by
  cases x
  case error => cases h
  case ok a  => exact ⟨a, rfl, Except.ok.inj h⟩

theorem importNode_writes {arg : String} {parsed : Except ParseError ServerProfile} {fetched : Fetched}
    (h : (importNode arg parsed fetched).write cfg = some cfg') :
    Writes cfg (importNode arg parsed fetched) cfg' := by
  obtain ⟨edit, reply, hp, he⟩ := write_eq_some h
  cases hp
  simp only [importEdit] at he
  split at he
  case isTrue hu =>
    cases fetched
    case error => cases he
    case ok r =>
      obtain ⟨servers, title⟩ := r
      cases he
      exact .importUrl hu
  case isFalse hu =>
    cases parsed
    case error => cases he
    case ok p =>
      cases he
      exact .importLink (Bool.eq_false_iff.mpr hu)

theorem updateOneSubscription_writes {url : String} {fetch : Subscription → Fetched}
    (h : (updateOneSubscription url fetch).write cfg = some cfg') :
    Writes cfg (updateOneSubscription url fetch) cfg' := by
  obtain ⟨edit, reply, hp, he⟩ := write_eq_some h
  cases hp
  rw [updateOneEdit] at he
  split at he
  case h_1 => cases he
  case h_2 index sub hf =>
    cases hr : fetch sub
    case error =>
      rw [hr] at he
      cases he
    case ok r =>
      rw [hr] at he
      obtain ⟨servers, title⟩ := r
      cases he
      exact .updateOneSubscription hf hr

theorem addSubscription_writes {url : String} {tag : Option String} {intervalHours : Nat}
    (h : (addSubscription url tag intervalHours).write cfg = some cfg') :
    Writes cfg (addSubscription url tag intervalHours) cfg' := by
  obtain ⟨edit, reply, hp, he⟩ := write_eq_some h
  rw [plan] at hp
  split at hp
  case isFalse => cases hp
  case isTrue =>
    cases hp
    obtain ⟨hn, he⟩ := Option.ite_none_left_eq_some.mp (congrArg Prod.fst (Except.ok.inj he))
    cases he
    exact .addSubscription hn

theorem importConfig_writes {text format : String} {parsed : List (Except ParseError ServerProfile)}
    (h : (importConfig text format parsed).write cfg = some cfg') :
    Writes cfg (importConfig text format parsed) cfg' := by
  obtain ⟨edit, reply, hp, he⟩ := write_eq_some h
  rw [plan] at hp
  split at hp
  case isTrue => cases hp
  case isFalse =>
    split at hp
    case isTrue => cases hp
    case isFalse =>
      cases hp
      cases he
      exact .importConfig

theorem updateRule_writes {index : Nat} {info : RuleInfo}
    (h : (updateRule index info).write cfg = some cfg') : Writes cfg (updateRule index info) cfg' := by
  obtain ⟨edit, reply, hp, he⟩ := write_eq_some h
  obtain ⟨rule, -, rfl⟩ := plan_bind hp
  rw [updateRuleEdit] at he
  split at he
  case isTrue => cases he
  case isFalse =>
    cases he
    exact .updateRule

-- What an operation saves is what it is there for.
theorem writes (h : op.write cfg = some cfg') : Writes cfg op cfg' := by
  cases op
  case importNode             => exact importNode_writes h
  case importConfig           => exact importConfig_writes h
  case updateOneSubscription  => exact updateOneSubscription_writes h
  case addSubscription        => exact addSubscription_writes h
  case updateRule             => exact updateRule_writes h
  case updateSubscriptions fetch =>
    obtain rfl := Option.some.inj h
    exact .updateSubscriptions
  case clearSubscriptionNodes =>
    obtain rfl := Option.some.inj h
    exact .clearSubscriptionNodes
  case removeNode name =>
    obtain ⟨-, he⟩ := Option.ite_none_right_eq_some.mp (eq_of_saveIf rfl h)
    cases he
    exact .removeNode
  case removeSubscription url =>
    obtain ⟨sub, hf, rfl⟩ := Option.map_eq_some_iff.mp (eq_of_saveIf rfl h)
    exact .removeSubscription hf
  case addRule info =>
    obtain ⟨edit, reply, hp, he⟩ := write_eq_some h
    obtain ⟨rule, -, rfl⟩ := plan_bind hp
    cases he
    exact .addRule
  case removeRule index =>
    obtain ⟨-, he⟩ := Option.ite_none_right_eq_some.mp (eq_of_saveIf rfl h)
    cases he
    exact .removeRule
  case moveRule index up =>
    obtain ⟨j, -, rfl⟩ := Option.map_eq_some_iff.mp (eq_of_saveIf rfl h)
    exact .moveRule
  case applyPreset id rules =>
    cases rules
    case none => cases h
    case some rules =>
      obtain rfl := Option.some.inj h
      exact .applyPreset
  case setSplitDriver driver =>
    obtain ⟨edit, reply, hp, he⟩ := write_eq_some h
    obtain ⟨d, -, rfl⟩ := plan_bind hp
    cases he
    exact .settings trivial rfl rfl rfl rfl
  case localWgEnsure generated =>
    obtain ⟨edit, reply, hp, he⟩ := write_eq_some h
    cases hp
    rw [localWgEnsureEdit] at he
    split at he <;> cases he
    exact .localWgEnsure
  case localWgSet port upstreamNode =>
    obtain rfl := eq_of_save rfl h
    exact .localWgSet
  all_goals
    obtain rfl := eq_of_save rfl h
    exact .settings trivial rfl rfl rfl rfl

end Op
end JammVpn
