import JammVpn.Net.Theorems.Route

namespace JammVpn.Engine

open Ip

-- Engines that only block: connections are direct unless a rule applies.
structure OnlyBlocks (e : Engine) : Prop where
  rules   : ∀ r ∈ e.rules, r.action = .block
  default : e.defaultAction = .direct

section

variable {e : Engine} {resolve : String → DnsResolver.Answer}
variable {domain : Option String} {ip : Option IpAddr} {port : Nat}

-- Some rule applies to one of the addresses.
def Hits (e : Engine) (domain : Option String) (port : Nat) (ips : List IpAddr) : Prop :=
  ∃ r ∈ e.rules, e.nonIpOk r domain port {} = true ∧ ∃ i ∈ ips, e.ipInRule r i = true

-- Some rule applies whatever the addresses are.
def HitsAlways (e : Engine) (domain : Option String) (port : Nat) : Prop :=
  ∃ r ∈ e.rules, e.nonIpOk r domain port {} = true ∧ hasIpCrit r = false

-- Some rule could apply, depending on the addresses.
def Guards (e : Engine) (domain : Option String) (port : Nat) : Prop :=
  ∃ r ∈ e.rules, e.nonIpOk r domain port {} = true ∧ hasIpCrit r = true

theorem hasIpCrit_of_ipInRule {r : Rule} {i : IpAddr} (h : e.ipInRule r i = true) :
    hasIpCrit r = true := by
  simp only [ipInRule, Bool.or_eq_true, List.any_eq_true] at h
  obtain ⟨c, hc, _⟩ | ⟨c, hc, _⟩ := h
  case inl => simp [hasIpCrit, List.ne_nil_of_mem hc]
  case inr => simp [hasIpCrit, List.ne_nil_of_mem hc]

theorem Hits.guards {ips : List IpAddr} (h : e.Hits domain port ips) : e.Guards domain port := by
  obtain ⟨r, hr, hn, i, _, hi⟩ := h
  exact ⟨r, hr, hn, hasIpCrit_of_ipInRule hi⟩

@[simp]
theorem hits_nil : ¬e.Hits domain port [] := by
  simp [Hits]

theorem hits_append {ips ips' : List IpAddr} :
    e.Hits domain port (ips ++ ips') ↔ e.Hits domain port ips ∨ e.Hits domain port ips' := by
  simp only [Hits, List.mem_append]
  grind

theorem find_applies_isSome_iff {ips : List IpAddr} :
    (e.rules.find? (e.applies domain port ips)).isSome ↔
      e.HitsAlways domain port ∨ e.Hits domain port ips := by
  simp only [List.find?_isSome, applies, HitsAlways, Hits, Bool.and_eq_true, Bool.or_eq_true,
    Bool.not_eq_true', List.any_eq_true]
  constructor
  case mp =>
    rintro ⟨r, hr, hn, ha⟩
    exact ha.imp (⟨r, hr, hn, ·⟩) (⟨r, hr, hn, ·⟩)
  case mpr =>
    rintro (⟨r, hr, hn, hc⟩ | ⟨r, hr, hn, hi⟩)
    · exact ⟨r, hr, hn, .inl hc⟩
    · exact ⟨r, hr, hn, .inr hi⟩

theorem OnlyBlocks.any_mayBlock_iff (h : e.OnlyBlocks) :
    e.rules.any (e.mayBlock domain port) = true ↔ e.Guards domain port := by
  simp only [List.any_eq_true, mayBlock, Bool.and_eq_true, beq_iff_eq, Guards]
  exact exists_congr fun r => and_congr_right fun hr => by simp [h.rules r hr]

theorem OnlyBlocks.decision_block_iff (h : e.OnlyBlocks) (effective : Target) :
    (e.routedBy effective (e.referenceAction resolve domain ip port)).decision = .block ↔
      (e.HitsAlways domain port ∨ e.Hits domain port (e.addresses resolve domain ip)) ∨
      e.Unresolved resolve domain ip ∧ e.Guards domain port := by
  rw [← find_applies_isSome_iff, ← h.any_mayBlock_iff]
  simp only [routedBy, referenceAction]
  split
  case h_1 r hr => simp [hr, h.rules r (List.mem_of_find?_eq_some hr), actFull]
  case h_2 hn =>
    simp only [hn, Option.isSome_none, Bool.false_eq_true, false_or, h.default]
    split
    case isTrue hu  => simp [actFull, hu]
    case isFalse hu => simpa [actFull] using hu

end

-- The queries for the addresses of a name, each answered or failed.
section Suppression

variable (e : Engine) (host : String) (port : Nat)

def queries (a aaaa : DnsResolver.Answer) (_ : String) : QueryType → DnsResolver.Answer
  | .a    => a
  | .aaaa => aaaa

-- The decision of an engine without an earlier answer in its cache.
def decisionWith (now : Nat) (a aaaa : DnsResolver.Answer) : Decision :=
  let resolve name := (DnsResolver.resolveLeader (queries a aaaa) name now .empty).1
  (e.route resolve (.domain host port)).decision

-- Failures of queries do not turn a blocked connection into an open one.
def SuppressionSafe (now : Nat) (a aaaa : List IpAddr) : Prop :=
  e.decisionWith host port now (.ok a) (.ok aaaa) = .block →
    ∀ qa qaaaa, (qa = .ok a ∨ ∃ err, qa = .error err) → (qaaaa = .ok aaaa ∨ ∃ err, qaaaa = .error err) →
      e.decisionWith host port now qa qaaaa = .block

variable {e host port} {now : Nat} {d : Option String} {ip : Option IpAddr}

theorem decisionWith_eq (qa qaaaa : DnsResolver.Answer) :
    e.decisionWith host port now qa qaaaa =
      (e.routedBy (e.effectiveTarget (.domain host port)) (e.chosenAction
        (DnsResolver.resolveUncached (queries qa qaaaa)) (.domain host port))).decision := by
  simp only [decisionWith, route_eq, DnsResolver.resolveLeader]

-- Every decision is the same if nobody looks at the answers.
theorem decisionWith_congr (he : e.effectiveHost (.domain host port) = (d, ip))
    (h : e.resolver = none ∨ ip ≠ none) (qa qaaaa qa' qaaaa' : DnsResolver.Answer) :
    e.decisionWith host port now qa qaaaa = e.decisionWith host port now qa' qaaaa' := by
  have hu : e.ResolverUnused d ip port := h.imp id .inl
  simp only [decisionWith_eq, chosenAction, he, Target.port]
  rw [referenceAction_congr hu (DnsResolver.resolveUncached (queries qa' qaaaa'))]

theorem decisionWith_block_iff (h : e.OnlyBlocks)
    (he : e.effectiveHost (.domain host port) = (d, none)) (hr : e.resolver ≠ none)
    (qa qaaaa : DnsResolver.Answer) :
    e.decisionWith host port now qa qaaaa = .block ↔
      e.HitsAlways d port ∨ (e.Hits d port qa.records ∨ e.Hits d port qaaaa.records) ∨
      (qa.records = [] ∧ qaaaa.records = []) ∧ e.Guards d port := by
  obtain ⟨server, hs⟩ := Option.ne_none_iff_exists'.mp hr
  have hu := DnsResolver.resolveUncached_toOption (queries qa qaaaa) (d.getD "")
  rw [decisionWith_eq, chosenAction, he, h.decision_block_iff, ← hits_append, or_assoc,
    ← List.append_eq_nil_iff]
  simp only [addresses, Unresolved, hs, hu, queries, Target.port]
  by_cases hn : qa.records ++ qaaaa.records = [] <;> simp [hn]

-- Suppressed queries are harmless exactly if nobody looks at the answers, some rule blocks without
-- them, or both answers agree on whether the target is blocked.
theorem suppressionSafe_iff (h : e.OnlyBlocks) (a aaaa : List IpAddr) :
    e.SuppressionSafe host port now a aaaa ↔
      e.resolver = none ∨
      (e.effectiveHost (.domain host port)).2 ≠ none ∨
      e.HitsAlways (e.effectiveHost (.domain host port)).1 port ∨
      (a ≠ [] → aaaa ≠ [] →
        (e.Hits (e.effectiveHost (.domain host port)).1 port a ↔
          e.Hits (e.effectiveHost (.domain host port)).1 port aaaa)) := by
  rcases he : e.effectiveHost (.domain host port) with ⟨d, ip⟩
  by_cases hu : e.resolver = none ∨ ip ≠ none
  case pos =>
    refine iff_of_true ?_ (by tauto)
    intro hb qa qaaaa _ _
    rw [← hb]
    exact decisionWith_congr he hu ..
  case neg =>
    obtain ⟨hr, rfl⟩ : e.resolver ≠ none ∧ ip = none := by tauto
    have hga : e.Hits d port a → e.Guards d port := Hits.guards
    have hgb : e.Hits d port aaaa → e.Guards d port := Hits.guards
    have hna : a = [] → ¬e.Hits d port a := fun hn => hn ▸ hits_nil
    have hnb : aaaa = [] → ¬e.Hits d port aaaa := fun hn => hn ▸ hits_nil
    simp only [SuppressionSafe, decisionWith_block_iff h he hr, DnsResolver.Answer.records_ok]
    simp only [hr, ne_eq, not_true_eq_false, false_or]
    constructor
    case mp =>
      intro hs
      apply or_iff_not_imp_left.mpr
      intro hn ha hb
      have hfa hh := hs hh (.error "") (.ok aaaa) (.inr ⟨_, rfl⟩) (.inl rfl)
      have hfb hh := hs hh (.ok a) (.error "") (.inl rfl) (.inr ⟨_, rfl⟩)
      simp only [DnsResolver.Answer.records_ok, DnsResolver.Answer.records_error, hits_nil] at hfa hfb
      clear hs
      grind
    case mpr =>
      rintro hc hh qa qaaaa (rfl | ⟨_, rfl⟩) (rfl | ⟨_, rfl⟩) <;>
        simp only [DnsResolver.Answer.records_ok, DnsResolver.Answer.records_error, hits_nil] <;>
        grind

end Suppression

theorem blocking_onlyBlocks (cidr : IpCidr) (resolver : Option DnsServer) :
    (blocking cidr resolver).OnlyBlocks where
  rules := by simp [blocking]
  default := rfl

-- The blocked address is behind the suppressed query, and the other query has an answer.
theorem suppressed_aaaa_opens_block :
    let e := blocking (.host (.v6 0x20010db8000000000000000000000001))
      (some (.doh "https://dns.example/dns-query"))
    e.OnlyBlocks ∧ ¬e.SuppressionSafe "a.example" 443 0 [.v4 0x05060708]
      [.v6 0x20010db8000000000000000000000001] := by
  refine ⟨blocking_onlyBlocks .., fun h => ?_⟩
  have := h (by decide) (.ok [.v4 0x05060708]) (.error "timeout") (.inl rfl) (.inr ⟨_, rfl⟩)
  exact absurd this (by decide)

theorem suppressionSafe_iff_without_aaaa :
    let e := blocking (.host (.v4 0x05060708)) (some (.doh "https://dns.example/dns-query"))
    e.OnlyBlocks ∧ e.SuppressionSafe "a.example" 443 0 [.v4 0x05060708] [] :=
  ⟨blocking_onlyBlocks .., (suppressionSafe_iff (blocking_onlyBlocks ..) _ _).mpr <|
    .inr <| .inr <| .inr fun _ h => absurd rfl h⟩

end JammVpn.Engine
