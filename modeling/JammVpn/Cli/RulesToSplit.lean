import JammVpn.Core.Split

namespace JammVpn

open Ip Split

def pushNew (apps : List AppMatcher) (a : AppMatcher) : List AppMatcher :=
  if apps.contains a then apps else apps ++ [a]

theorem mem_foldl_pushNew {m : AppMatcher} (new apps : List AppMatcher) :
    m ∈ new.foldl pushNew apps ↔ m ∈ apps ∨ m ∈ new := by
  induction new generalizing apps
  case nil => simp
  case cons a new hi =>
    rw [List.foldl_cons, hi, List.mem_cons, ← or_assoc]
    refine or_congr_left ?_
    rw [pushNew]
    split
    case isTrue h =>
      refine ⟨.inl, fun hm => hm.elim id fun he => ?_⟩
      exact he ▸ List.contains_iff_mem.mp h
    case isFalse => rw [List.mem_append, List.mem_singleton]

def pushProxied (apps : List AppMatcher) (rule : Rule) : List AppMatcher :=
  match rule.action with
  | .proxy _ => rule.processes.foldl pushNew apps
  | _        => apps

-- A rule that has its applications captured.
def Rule.IsProxying (rule : Rule) : Prop :=
  ∃ tag, rule.action = .proxy tag

theorem mem_pushProxied {m : AppMatcher} (apps : List AppMatcher) (rule : Rule) :
    m ∈ pushProxied apps rule ↔ m ∈ apps ∨ rule.IsProxying ∧ m ∈ rule.processes := by
  cases ha : rule.action
  case proxy tag =>
    have hp : rule.IsProxying := ⟨tag, ha⟩
    simp only [pushProxied, ha, mem_foldl_pushNew, hp, true_and]
  all_goals
    have hp : ¬rule.IsProxying := fun ⟨tag, h⟩ => by simp [ha] at h
    simp only [pushProxied, ha, hp, false_and, or_false]

theorem mem_foldl_pushProxied {m : AppMatcher} (rules : List Rule) (apps : List AppMatcher) :
    m ∈ rules.foldl pushProxied apps ↔ m ∈ apps ∨ ∃ r ∈ rules, r.IsProxying ∧ m ∈ r.processes := by
  induction rules generalizing apps
  case nil => simp
  case cons rule rules hi => rw [List.foldl_cons, hi, mem_pushProxied, or_assoc, List.exists_mem_cons_iff]

-- The applications of the split and those of the rules that proxy. Servers whose address is a name are
-- no endpoints.
def rulesToSplit (cfg : AppConfig) : SplitConfig :=
  { cfg.split with
    apps := cfg.rules.foldl pushProxied (cfg.split.apps.foldl pushNew [])
    serverEndpoints := (cfg.servers.filter fun s => (IpAddr.parse s.address.toList).isSome).map (·.address) }

theorem mem_rulesToSplit_apps {cfg : AppConfig} {m : AppMatcher} :
    m ∈ (rulesToSplit cfg).apps ↔
      m ∈ cfg.split.apps ∨ ∃ r ∈ cfg.rules, r.IsProxying ∧ m ∈ r.processes := by
  rw [rulesToSplit, mem_foldl_pushProxied, mem_foldl_pushNew]
  simp

end JammVpn
