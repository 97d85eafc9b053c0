import JammVpn.Core.Routing
import JammVpn.Net.FakeIp
import JammVpn.Net.Outbound
import JammVpn.Net.Resolver

namespace JammVpn

open Ip Text

inductive Decision
  | connect (ob : Outbound)
  | block
  deriving DecidableEq

-- A decision with the target to connect to. If a rule has chosen a node other than the default one,
-- the outbound of the default node stands in when that node is unreachable.
structure Routed where
  decision     : Decision
  target       : Target
  chosenNode   : Option String
  fallback     : Option Outbound
  fallbackName : Option String
  deriving DecidableEq

structure Engine where
  outbounds     : PartialMap String Outbound
  defaultProxy  : Option String
  rules         : List Rule
  defaultAction : RouteAction
  resolver      : Option DnsServer := none
  fakeip        : Option FakeIp := none
  geosite       : Option GeoSiteDb := none
  geoip         : Option GeoIpDb := none

def hasIpCrit (rule : Rule) : Bool :=
  !rule.ipCidrs.isEmpty || !rule.geoip.isEmpty

-- Addresses can come as domain names, with a trailing dot or in brackets.
def literalIp (host : String) : Option IpAddr :=
  let h := (stripSuffix ['.'] host.toList).getD host.toList
  let h := ((stripPrefix ['['] h).bind (stripSuffix [']'])).getD h
  IpAddr.parse h

namespace Engine

def domainInRule (e : Engine) (rule : Rule) (host : String) : Bool :=
  rule.domains.any (·.matchesHost host) ||
  rule.geosite.any fun cat => e.geosite.any (·.matchesHost cat host)

def ipInRule (e : Engine) (rule : Rule) (ip : IpAddr) : Bool :=
  rule.ipCidrs.any (·.contains ip) ||
  rule.geoip.any fun cc => e.geoip.any (·.matchesIp cc ip)

def nonIpOk (e : Engine) (rule : Rule) (domain : Option String) (port : Nat) (app : ConnApp) : Bool :=
  (rule.domains.isEmpty && rule.geosite.isEmpty || domain.any (e.domainInRule rule)) &&
  (rule.ports.isEmpty || rule.ports.contains port) &&
  (rule.processes.isEmpty || rule.processes.any (·.matchesApp app))

-- The outbound of a tag, or of the default proxy if there is no tag.
def proxyDecision (e : Engine) (tag : Option String) : Decision :=
  match (tag.or e.defaultProxy).bind e.outbounds.get with
  | some ob => .connect ob
  | none    => .block

def actFull (e : Engine) (action : RouteAction) :
    Decision × Option String × Option Outbound × Option String :=
  match action with
  | .direct    => (.connect .direct, none, none, none)
  | .block     => (.block, none, none, none)
  | .proxy tag =>
    match tag, e.defaultProxy with
    | some t, some d =>
      if t ≠ d then (e.proxyDecision tag, some t, e.outbounds.get d, some d)
      else (e.proxyDecision tag, none, none, none)
    | _, _           => (e.proxyDecision tag, none, none, none)

def act (e : Engine) (action : RouteAction) : Decision :=
  (e.actFull action).1

theorem act_proxy (e : Engine) (tag : Option String) : e.act (.proxy tag) = e.proxyDecision tag := by
  simp only [act, actFull]
  split
  case h_1 => split <;> rfl
  case h_2 => rfl

-- The variables of the loop over the rules.
structure Scan where
  resolved     : Option (Except Unit (List IpAddr)) := none
  action       : RouteAction
  matched      : Bool := false
  pendingBlock : Bool := false

def Scan.choose (s : Scan) (rule : Rule) : Scan :=
  { s with action := rule.action, matched := true }

section Route

-- What the resolver answers for a name. The engine asks at most once for each connection.
variable (e : Engine) (resolve : String → DnsResolver.Answer)

def resolveOnce (s : Scan) (domain : Option String) : Except Unit (List IpAddr) :=
  match s.resolved with
  | some r => r
  | none   => (resolve (domain.getD "")).mapError fun _ => ()

-- Criteria on addresses use the address of the target. A target without one is resolved when the
-- first rule needs its addresses, and only if there is a resolver.
def scan (domain : Option String) (ip : Option IpAddr) (port : Nat) : List Rule → Scan → Scan
  | [], s            => s
  | rule :: rules, s =>
    if !e.nonIpOk rule domain port {} then scan domain ip port rules s
    else if !hasIpCrit rule then s.choose rule
    else match ip, e.resolver with
    | some i, _      =>
      if e.ipInRule rule i then s.choose rule else scan domain ip port rules s
    | none, none     => scan domain ip port rules s
    | none, some _   =>
      let r := resolveOnce resolve s domain
      let s := { s with resolved := some r }
      match r with
      | .ok ips   =>
        if ips.any (e.ipInRule rule) then s.choose rule else scan domain ip port rules s
      | .error () =>
        scan domain ip port rules
          (if rule.action = .block then { s with pendingBlock := true } else s)

def targetHost : Target → Option String × Option IpAddr
  | .domain host _ => (some host, literalIp host)
  | .socket addr   => (none, some addr.ip)

-- The loop without a resolver: criteria on addresses are skipped if the target has no address.
def resolveRules (domain : Option String) (ip : Option IpAddr) (port : Nat) : List Rule → RouteAction
  | []            => e.defaultAction
  | rule :: rules =>
    if !e.nonIpOk rule domain port {} then resolveRules domain ip port rules
    else if !hasIpCrit rule then rule.action
    else match ip with
    | some i => if e.ipInRule rule i then rule.action else resolveRules domain ip port rules
    | none   => resolveRules domain ip port rules

def resolveTarget (target : Target) : Decision :=
  let (domain, ip) := targetHost target
  e.act (e.resolveRules domain ip target.port e.rules)

-- The domain that the address of a target stands for.
def reverse (ip : Option IpAddr) : Option String := do
  let fi ← e.fakeip
  let i ← ip
  fi.domainOf i

def routeHost (domain : Option String) (ip : Option IpAddr) (effective : Target) : Routed :=
  let s := e.scan resolve domain ip effective.port e.rules { action := e.defaultAction }
  let action := if !s.matched && s.pendingBlock then .block else s.action
  let (decision, chosenNode, fallback, fallbackName) := e.actFull action
  { decision, target := effective, chosenNode, fallback, fallbackName }

def route (target : Target) : Routed :=
  let (domain, ip) := targetHost target
  match e.reverse ip with
  | some d => e.routeHost resolve (some d) none (.domain d target.port)
  | none   => e.routeHost resolve domain ip target

end Route

-- The engine after names have been given fake addresses.
def allocated (e : Engine) (domains : List String) : Engine :=
  { e with fakeip := e.fakeip.map (FakeIp.run · domains) }

end Engine
end JammVpn
