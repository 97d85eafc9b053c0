import JammVpn.Net.Theorems.Route
import Mathlib.Data.List.Find

-- The router that resolves nothing, and the one that has no databases.
namespace JammVpn

open Ip

namespace Engine

section Unresolved

variable {e : Engine} {domain : Option String} {ip : Option IpAddr} {port : Nat}

theorem resolveRules_cons (rule : Rule) (rules : List Rule) :
    e.resolveRules domain ip port (rule :: rules) =
      if e.applies domain port ip.toList rule then rule.action else e.resolveRules domain ip port rules := by
  by_cases hn : e.nonIpOk rule domain port {} = true
  case neg => simp [resolveRules, applies, hn]
  case pos =>
    by_cases hc : hasIpCrit rule = true
    case neg => simp [resolveRules, applies, hn, hc]
    case pos =>
      cases ip
      case none   => simp [resolveRules, applies, hn, hc]
      case some i => simp [resolveRules, applies, hn, hc]

theorem resolveRules_eq (rules : List Rule) :
    e.resolveRules domain ip port rules =
      ((rules.find? (e.applies domain port ip.toList)).map (·.action)).getD e.defaultAction := by
  induction rules
  case nil => rfl
  case cons rule rules hi =>
    rw [resolveRules_cons, List.find?_cons]
    cases e.applies domain port ip.toList rule
    case false => exact hi
    case true  => rfl

-- No rule that looks at addresses is asked before the first one that applies without a resolver.
def AddressesUnused (e : Engine) (domain : Option String) (ip : Option IpAddr) (port : Nat) : Prop :=
  ∀ rule ∈ e.rules.takeWhile (fun rule => !e.applies domain port ip.toList rule),
    e.nonIpOk rule domain port {} = true → hasIpCrit rule = false

theorem first_of_takeWhile {rules : List Rule}
    (h : ∀ rule ∈ rules.takeWhile (fun rule => !e.applies domain port [] rule),
      e.nonIpOk rule domain port {} = true → hasIpCrit rule = false) :
    ∀ r ∈ rules.find? (e.nonIpOk · domain port {}), hasIpCrit r = false := by
  induction rules
  case nil => simp
  case cons rule rules hi =>
    -- A rule that looks at addresses does not apply.
    have ha (hc : hasIpCrit rule = true) : e.applies domain port [] rule = false := by simp [applies, hc]
    rw [List.find?_cons]
    cases hn : e.nonIpOk rule domain port {}
    case false =>
      have ha : e.applies domain port [] rule = false := by simp [applies, hn]
      simp only [List.takeWhile_cons, ha, Bool.not_false, if_true] at h
      exact hi fun r hr => h r (List.mem_cons_of_mem rule hr)
    case true =>
      intro r hr
      cases hr
      cases hc : hasIpCrit rule
      case false => rfl
      case true =>
        simp only [List.takeWhile_cons, ha hc, Bool.not_false, if_true] at h
        exact hc.symm.trans (h rule List.mem_cons_self hn)

theorem referenceAction_eq_resolveRules
    (h : e.resolver = none ∨ ip ≠ none ∨ e.AddressesUnused domain ip port)
    (resolve : String → DnsResolver.Answer) :
    e.referenceAction resolve domain ip port = e.resolveRules domain ip port e.rules := by
  -- With these addresses no block is held back, and the first rule that applies is the same.
  have hact {ips : List IpAddr} (ha : e.addresses resolve domain ip = ips)
      (hu : ¬(e.Unresolved resolve domain ip ∧ e.rules.any (e.mayBlock domain port) = true ∧
        e.rules.find? (e.applies domain port ips) = none))
      (hf : e.rules.find? (e.applies domain port ips) = e.rules.find? (e.applies domain port ip.toList)) :
      e.referenceAction resolve domain ip port = e.resolveRules domain ip port e.rules := by
    rw [referenceAction, resolveRules_eq, ha, ← hf]
    cases hr : e.rules.find? (e.applies domain port ips)
    case some r => rfl
    case none   => exact if_neg fun hb => hu ⟨hb.1, hb.2, hr⟩
  cases ip
  case some i =>
    exact hact rfl (fun hu => Option.some_ne_none i hu.1.2.1) rfl
  case none =>
    cases hr : e.resolver
    case none => exact @hact [] (by simp [addresses, hr]) (fun hu => hu.1.1 hr) rfl
    case some =>
      have hu : e.AddressesUnused domain none port := by
        obtain h | h | h := h
        case inl     => cases hr.symm.trans h
        case inr.inl => exact absurd rfl h
        case inr.inr => exact h
      have hfirst := first_of_takeWhile hu
      refine hact rfl (fun hb => ?_) ((find_applies_of_first hfirst).trans (find_applies_of_first hfirst).symm)
      rw [find_applies_of_first hfirst] at hb
      have := hb.2.1
      rw [not_mayBlock_of_find hb.2.2] at this
      cases this

end Unresolved

section NoGeo

variable {e : Engine}

-- What the rules see of a target.
def request (target : Target) : RouteRequest where
  domain := (targetHost target).1
  ip := (targetHost target).2
  port := target.port
  app := {}

theorem matchesRequest_eq_applies {rule : Rule} (h : rule.geosite = [] ∧ rule.geoip = []) (target : Target) :
    rule.matchesRequest (request target) =
      e.applies (targetHost target).1 target.port (targetHost target).2.toList rule := by
  have hd (host : String) : e.domainInRule rule host = rule.domains.any (·.matchesHost host) := by
    rw [domainInRule, h.1, List.any_nil, Bool.or_false]
  have hi (i : IpAddr) : e.ipInRule rule i = rule.ipCidrs.any (·.contains i) := by
    rw [ipInRule, h.2, List.any_nil, Bool.or_false]
  have hc : hasIpCrit rule = !rule.ipCidrs.isEmpty := by simp [hasIpCrit, h.2]
  have hips : (targetHost target).2.toList.any (e.ipInRule rule) =
      (targetHost target).2.any fun ip => rule.ipCidrs.any (·.contains ip) := by
    cases (targetHost target).2 <;> simp [hi]
  have hdom : (targetHost target).1.any (e.domainInRule rule) =
      (targetHost target).1.any fun host => rule.domains.any (·.matchesHost host) := by
    cases (targetHost target).1 <;> simp [hd]
  rw [applies, nonIpOk, hc, hips, hdom, Rule.matchesRequest, h.1, h.2]
  simp only [request, List.isEmpty_nil, Bool.and_true, Bool.true_and, Bool.not_not, Bool.and_assoc]
  ac_rfl

theorem resolveRules_eq_evaluate (h : ∀ rule ∈ e.rules, rule.geosite = [] ∧ rule.geoip = []) (target : Target) :
    e.resolveRules (targetHost target).1 (targetHost target).2 target.port e.rules =
      evaluate e.rules (request target) e.defaultAction := by
  have hf : e.rules.find? (·.matchesRequest (request target)) =
      e.rules.find? (e.applies (targetHost target).1 target.port (targetHost target).2.toList) := by
    refine List.find?_congr fun rule hr => ?_
    exact matchesRequest_eq_applies (h rule hr) target
  rw [resolveRules_eq, evaluate, hf]
  cases e.rules.find? (e.applies (targetHost target).1 target.port (targetHost target).2.toList) <;> rfl

end NoGeo

-- The routers agree for a target whose addresses are not asked for, whatever the resolver would say;
-- the one without databases does so if no rule needs them.
theorem routers_agree {e : Engine} {target : Target} (hf : e.fakeip = none)
    (h : e.resolver = none ∨ (targetHost target).2 ≠ none ∨
      e.AddressesUnused (targetHost target).1 (targetHost target).2 target.port) :
    (∀ resolve, (e.route resolve target).decision = e.resolveTarget target) ∧
    ((∀ rule ∈ e.rules, rule.geosite = [] ∧ rule.geoip = []) → ∀ resolve,
      (e.route resolve target).decision = e.act (evaluate e.rules (request target) e.defaultAction) ∧
      e.resolveTarget target = e.act (evaluate e.rules (request target) e.defaultAction)) := by
  have hr : e.reverse (targetHost target).2 = none := by
    rw [reverse, hf]
    rfl
  have hroute (resolve : String → DnsResolver.Answer) : (e.route resolve target).decision = e.resolveTarget target := by
    rw [(e.route_eq_reference resolve target hr).1]
    exact congrArg e.act (referenceAction_eq_resolveRules h resolve)
  refine ⟨hroute, fun hg resolve => ?_⟩
  have heval : e.resolveTarget target = e.act (evaluate e.rules (request target) e.defaultAction) :=
    congrArg e.act (resolveRules_eq_evaluate hg target)
  exact ⟨(hroute resolve).trans heval, heval⟩

theorem routers_agree_blocked :
    let e := blocking (.host (.v4 0x01020304)) (some (.doh "https://dns.example/dns-query"))
    let target := Target.socket (.v4 0x01020304 443)
    (e.route (fun _ => .error "timeout") target).decision = e.act (evaluate e.rules (request target) e.defaultAction) ∧
    e.resolveTarget target = .block := by
  intro e target
  have h := @routers_agree e target rfl (.inr (.inl (Option.some_ne_none _)))
  have hg : ∀ rule ∈ e.rules, rule.geosite = [] ∧ rule.geoip = [] := by
    intro rule hr
    cases List.mem_singleton.mp hr
    exact ⟨rfl, rfl⟩
  exact ⟨(h.2 hg _).1, rfl⟩

end Engine
end JammVpn
