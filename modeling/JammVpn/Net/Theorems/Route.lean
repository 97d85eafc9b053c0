import JammVpn.Net.Engine

namespace JammVpn.Engine

open Ip

-- Routing as it is meant: every name is resolved up front, and the first rule that applies decides.
section Reference

variable (e : Engine) (resolve : String → DnsResolver.Answer)
variable (domain : Option String) (ip : Option IpAddr) (port : Nat)

-- The addresses that the rules can look at.
def addresses : List IpAddr :=
  match ip, e.resolver with
  | some i, _    => [i]
  | none, none   => []
  | none, some _ => (resolve (domain.getD "")).toOption.getD []

def Unresolved : Prop :=
  e.resolver ≠ none ∧ ip = none ∧ (resolve (domain.getD "")).toOption = none

instance : Decidable (e.Unresolved resolve domain ip) :=
  inferInstanceAs (Decidable (_ ∧ _ ∧ _))

def applies (ips : List IpAddr) (rule : Rule) : Bool :=
  e.nonIpOk rule domain port {} && (!hasIpCrit rule || ips.any (e.ipInRule rule))

-- A rule that would block some addresses of the target.
def mayBlock (rule : Rule) : Bool :=
  e.nonIpOk rule domain port {} && hasIpCrit rule && rule.action == .block

def referenceAction : RouteAction :=
  match e.rules.find? (e.applies domain port (e.addresses resolve domain ip)) with
  | some rule => rule.action
  | none      =>
    if e.Unresolved resolve domain ip ∧ e.rules.any (e.mayBlock domain port) then .block
    else e.defaultAction

def routedBy (effective : Target) (action : RouteAction) : Routed where
  decision := (e.actFull action).1
  target := effective
  chosenNode := (e.actFull action).2.1
  fallback := (e.actFull action).2.2.1
  fallbackName := (e.actFull action).2.2.2

def reference (target : Target) : Routed :=
  let (domain, ip) := targetHost target
  e.routedBy target (e.referenceAction resolve domain ip target.port)

end Reference

section Scan

variable {e : Engine} {resolve : String → DnsResolver.Answer}
variable {domain : Option String} {ip : Option IpAddr} {port : Nat}

-- Nothing is resolved yet, or the answer is the one that the reference uses.
def Scan.Fresh (resolve : String → DnsResolver.Answer) (domain : Option String) (s : Scan) : Prop :=
  s.matched = false ∧ ∀ r, s.resolved = some r → r = (resolve (domain.getD "")).mapError fun _ => ()

theorem Scan.Fresh.resolveOnce {s : Scan} (h : s.Fresh resolve domain) :
    resolveOnce resolve s domain = (resolve (domain.getD "")).mapError fun _ => () := by
  unfold Engine.resolveOnce
  split
  case h_1 r hr => exact h.right r hr
  case h_2      => rfl

-- What the loop over `rules` leaves behind when it starts in `s`.
structure ScanSpec (e : Engine) (resolve : String → DnsResolver.Answer) (domain : Option String)
    (ip : Option IpAddr) (port : Nat) (rules : List Rule) (s s' : Scan) : Prop where
  found : ∀ r, rules.find? (e.applies domain port (e.addresses resolve domain ip)) = some r →
    s'.matched = true ∧ s'.action = r.action
  none  : rules.find? (e.applies domain port (e.addresses resolve domain ip)) = none →
    s'.matched = false ∧ s'.action = s.action ∧
    s'.pendingBlock =
      (s.pendingBlock || decide (e.Unresolved resolve domain ip) && rules.any (e.mayBlock domain port))

namespace ScanSpec

variable {rule : Rule} {rules : List Rule} {s s' : Scan}

theorem choose {t : Scan} (h : e.applies domain port (e.addresses resolve domain ip) rule = true) :
    ScanSpec e resolve domain ip port (rule :: rules) s (t.choose rule) where
  found r hr := by
    rw [List.find?_cons_of_pos h] at hr
    cases hr
    exact ⟨rfl, rfl⟩
  none hn := by simp [h] at hn

-- The loop goes on behind a rule that does not apply.
theorem skip {t : Scan} (hs : ScanSpec e resolve domain ip port rules t s')
    (h : e.applies domain port (e.addresses resolve domain ip) rule = false)
    (ha : t.action = s.action)
    (hp : t.pendingBlock =
      (s.pendingBlock || decide (e.Unresolved resolve domain ip) && e.mayBlock domain port rule)) :
    ScanSpec e resolve domain ip port (rule :: rules) s s' where
  found r hr := by
    rw [List.find?_cons_of_neg (by simp [h])] at hr
    exact hs.found r hr
  none hn := by
    rw [List.find?_cons_of_neg (by simp [h])] at hn
    have ⟨hm, hc, hb⟩ := hs.none hn
    refine ⟨hm, hc.trans ha, ?_⟩
    rw [hb, hp, List.any_cons, Bool.and_or_distrib_left, Bool.or_assoc]

end ScanSpec

theorem scan_spec (rules : List Rule) {s : Scan} (hf : s.Fresh resolve domain) :
    ScanSpec e resolve domain ip port rules s (e.scan resolve domain ip port rules s) := by
  induction rules generalizing s
  case nil =>
    exact { found := by simp, none := by simp [scan, hf.left] }
  case cons rule rules hi =>
    unfold scan
    split
    case isTrue h =>
      refine (hi hf).skip ?_ rfl ?_ <;> simp_all [applies, mayBlock]
    case isFalse h =>
      split
      case isTrue hc =>
        exact .choose (by simp_all [applies])
      case isFalse hc =>
        split
        case h_1 i =>
          have hu : ¬e.Unresolved resolve domain (some i) := fun hu => nomatch hu.right.left
          split
          case isTrue hi => exact .choose (by simp_all [applies, addresses])
          case isFalse   =>
            refine (hi hf).skip ?_ rfl ?_ <;> simp_all [applies, addresses]
        case h_2 hr =>
          have hu : ¬e.Unresolved resolve domain none := fun hu => hu.left hr
          refine (hi hf).skip ?_ rfl ?_ <;> simp_all [applies, addresses]
        case h_3 hr =>
          have ho := hf.resolveOnce
          have hf' {b : Bool} : Scan.Fresh resolve domain
              { s with resolved := some (resolveOnce resolve s domain), pendingBlock := b } :=
            ⟨hf.left, by simp [ho]⟩
          cases hr' : resolve (domain.getD "") <;>
            simp only [hr', Except.mapError] at ho <;> simp only [ho] at hf' ⊢
          case error =>
            have hu : e.Unresolved resolve domain none :=
              ⟨by simp [hr], rfl, by simp [hr', Except.toOption]⟩
            split
            case isTrue hb =>
              refine (hi hf').skip ?_ rfl ?_ <;>
                simp_all [applies, addresses, mayBlock, Except.toOption]
            case isFalse hb =>
              refine (hi hf').skip ?_ rfl ?_ <;>
                simp_all [applies, addresses, mayBlock, Except.toOption]
          case ok ips =>
            have hu : ¬e.Unresolved resolve domain none := fun hu => by
              simpa [hr', Except.toOption] using hu.right.right
            split
            case isTrue  => exact .choose (by simp_all [applies, addresses, Except.toOption])
            case isFalse =>
              refine (hi hf').skip ?_ rfl ?_ <;> simp_all [applies, addresses, Except.toOption]

theorem routeHost_eq (effective : Target) :
    e.routeHost resolve domain ip effective =
      e.routedBy effective (e.referenceAction resolve domain ip effective.port) := by
  have h : ScanSpec e resolve domain ip effective.port e.rules { action := e.defaultAction } _ :=
    scan_spec e.rules ⟨rfl, by simp⟩
  have ha : (fun s : Scan => if !s.matched && s.pendingBlock then .block else s.action)
      (e.scan resolve domain ip effective.port e.rules { action := e.defaultAction }) =
      e.referenceAction resolve domain ip effective.port := by
    unfold referenceAction
    split
    case h_1 r hr =>
      have ⟨hm, hc⟩ := h.found r hr
      simp [hm, hc]
    case h_2 hn =>
      have ⟨hm, hc, hp⟩ := h.none hn
      simp [hm, hc, hp]
  simp only [routeHost, routedBy]
  rw [← ha]

end Scan

-- The answer of the resolver matters only if the first rule whose other criteria hold asks for it.
section Irrelevance

variable {e : Engine} {domain : Option String} {ip : Option IpAddr} {port : Nat}

def ResolverUnused (e : Engine) (domain : Option String) (ip : Option IpAddr) (port : Nat) : Prop :=
  e.resolver = none ∨ ip ≠ none ∨
    ∀ r ∈ e.rules.find? (e.nonIpOk · domain port {}), hasIpCrit r = false

theorem find_applies_of_first {ips : List IpAddr} {rules : List Rule}
    (h : ∀ r ∈ rules.find? (e.nonIpOk · domain port {}), hasIpCrit r = false) :
    rules.find? (e.applies domain port ips) = rules.find? (e.nonIpOk · domain port {}) := by
  induction rules
  case nil => rfl
  case cons rule rules hi =>
    cases hn : e.nonIpOk rule domain port {} <;> simp only [List.find?_cons, hn] at h
    case false => simp [applies, hn, hi h]
    case true  => simp [applies, hn, h rule rfl]

theorem not_mayBlock_of_find {rules : List Rule}
    (h : rules.find? (e.nonIpOk · domain port {}) = none) :
    rules.any (e.mayBlock domain port) = false := by
  rw [List.find?_eq_none] at h
  rw [List.any_eq_false]
  intro r hr
  simp [mayBlock, h r hr]

theorem referenceAction_congr (h : e.ResolverUnused domain ip port)
    (resolve resolve' : String → DnsResolver.Answer) :
    e.referenceAction resolve domain ip port = e.referenceAction resolve' domain ip port := by
  obtain hr | hi | hf := h
  case inl => cases ip <;> simp [referenceAction, addresses, Unresolved, hr]
  case inr.inl =>
    obtain ⟨i, rfl⟩ := Option.ne_none_iff_exists'.mp hi
    simp [referenceAction, addresses, Unresolved]
  case inr.inr =>
    simp only [referenceAction, find_applies_of_first hf]
    split
    case h_1 => rfl
    case h_2 hn => simp [not_mayBlock_of_find hn]

end Irrelevance

section Route

variable (e : Engine) (resolve : String → DnsResolver.Answer) (target : Target)

-- The domain and the address that the rules see, and the target to connect to.
def effectiveHost : Option String × Option IpAddr :=
  match e.reverse (targetHost target).2 with
  | some d => (some d, none)
  | none   => targetHost target

def effectiveTarget : Target :=
  match e.reverse (targetHost target).2 with
  | some d => .domain d target.port
  | none   => target

-- The first rule that applies to a target.
def firstMatch : Option Rule :=
  let (domain, ip) := e.effectiveHost target
  e.rules.find? (e.applies domain target.port (e.addresses resolve domain ip))

-- The target could not be resolved, and a rule might block it.
def FailsClosed : Prop :=
  let (domain, ip) := e.effectiveHost target
  e.Unresolved resolve domain ip ∧ e.rules.any (e.mayBlock domain target.port) = true

def chosenAction : RouteAction :=
  e.referenceAction resolve (e.effectiveHost target).1 (e.effectiveHost target).2 target.port

theorem route_eq :
    e.route resolve target = e.routedBy (e.effectiveTarget target) (e.chosenAction resolve target) := by
  simp only [route, effectiveTarget, chosenAction, effectiveHost]
  cases e.reverse (targetHost target).2 <;> exact routeHost_eq _

theorem route_decision :
    (e.route resolve target).decision = e.act (e.chosenAction resolve target) := by
  rw [route_eq]
  rfl

theorem route_fallback :
    (e.route resolve target).fallback = (e.actFull (e.chosenAction resolve target)).2.2.1 := by
  rw [route_eq]
  rfl

theorem chosenAction_of_match {r : Rule} (h : e.firstMatch resolve target = some r) :
    e.chosenAction resolve target = r.action := by
  simp only [firstMatch] at h
  simp [chosenAction, referenceAction, h]

theorem chosenAction_of_no_match (h : e.firstMatch resolve target = none) :
    e.FailsClosed resolve target ∧ e.chosenAction resolve target = .block ∨
    e.chosenAction resolve target = e.defaultAction := by
  simp only [firstMatch] at h
  simp only [chosenAction, referenceAction, h, FailsClosed]
  split
  case isTrue hf => exact .inl ⟨hf, rfl⟩
  case isFalse   => exact .inr rfl

-- Lazy resolution and the deferred block change nothing, and without a need for the addresses of the
-- target the answer of the resolver is irrelevant.
theorem route_eq_reference (h : e.reverse (targetHost target).2 = none) :
    e.route resolve target = e.reference resolve target ∧
    (e.ResolverUnused (targetHost target).1 (targetHost target).2 target.port →
      ∀ resolve', e.route resolve' target = e.route resolve target) := by
  have hr resolve : e.route resolve target = e.reference resolve target := by
    simp only [route_eq, effectiveTarget, chosenAction, effectiveHost, h, reference]
  refine ⟨hr resolve, fun hu resolve' => ?_⟩
  rw [hr resolve', hr resolve]
  simp only [reference, referenceAction_congr hu resolve' resolve]

end Route

-- An engine that blocks a subnet and connects to everything else directly.
def blocking (cidr : IpCidr) (resolver : Option DnsServer) : Engine where
  outbounds := .empty
  defaultProxy := none
  rules := [{ ipCidrs := [cidr], action := .block }]
  defaultAction := .direct
  resolver := resolver

theorem route_eq_reference_unresolved :
    let e := blocking (.host (.v4 0x01020304)) (some (.doh "https://dns.example/dns-query"))
    let target := Target.domain "a.example" 443
    e.route (fun _ => .error "timeout") target = e.reference (fun _ => .error "timeout") target ∧
    (e.route (fun _ => .error "timeout") target).decision = .block :=
  ⟨(route_eq_reference _ _ _ rfl).1, rfl⟩

end JammVpn.Engine
