import Mathlib.Data.List.Find
import JammVpn.Net.Theorems.Route

namespace JammVpn

open Ip Text

def bracketed (ip : IpAddr) : List Char :=
  '[' :: (ip.display ++ [']'])

-- The ways to write an address as a host: with or without brackets, with or without a trailing dot.
def spellings (ip : IpAddr) : List String :=
  [ip.display, ip.display ++ ['.'], bracketed ip, bracketed ip ++ ['.']].map String.ofList

theorem stripBrackets_bracketed (ip : IpAddr) :
    (stripPrefix ['['] (bracketed ip)).bind (stripSuffix [']']) = some ip.display := by
  have : stripPrefix ['['] (bracketed ip) = some (ip.display ++ [']']) :=
    stripPrefix_append ['['] _
  rw [this, Option.bind_some, stripSuffix_append]

theorem literalIp_spellings {ip : IpAddr} (hh : ip.display.head? ≠ some '[')
    (hl : ip.display.getLast? ≠ some '.') {host : String} (h : host ∈ spellings ip) :
    literalIp host = IpAddr.parse ip.display := by
  have hb : stripSuffix ['.'] (bracketed ip) = none :=
    stripSuffix_single_eq_none (by simp [bracketed, List.getLast?_cons])
  simp only [spellings, List.map_cons, List.map_nil, List.mem_cons, List.not_mem_nil, or_false] at h
  obtain rfl | rfl | rfl | rfl := h <;> simp only [literalIp, String.toList_ofList]
  case inl => simp [stripSuffix_single_eq_none hl, stripPrefix_single_eq_none hh]
  case inr.inl => simp [stripPrefix_single_eq_none hh]
  case inr.inr.inl => simp only [hb, Option.getD_none, stripBrackets_bracketed, Option.getD_some]
  case inr.inr.inr =>
    simp only [stripSuffix_append, Option.getD_some, stripBrackets_bracketed]

-- An address and the IPv6 address that stands for it.
def forms (a : BitVec 32) : List IpAddr :=
  [.v4 a, .v6 (toIpv6Mapped a)]

theorem literalIp_forms {a : BitVec 32} {ip : IpAddr} {host : String} (hi : ip ∈ forms a)
    (h : host ∈ spellings ip) : literalIp host = some ip := by
  simp only [forms, List.mem_cons, List.not_mem_nil, or_false] at hi
  obtain rfl | rfl := hi
  case inl =>
    have hh : (IpAddr.v4 a).display.head? ≠ some '[' := head?_displayV4 (by decide) a
    have hl : (IpAddr.v4 a).display.getLast? ≠ some '.' :=
      getLast?_append_displayV4 (by decide) [] a
    exact (literalIp_spellings hh hl h).trans (IpAddr.parse_display_v4 a)
  case inr =>
    have hd : (IpAddr.v6 (toIpv6Mapped a)).display = "::ffff:".toList ++ displayV4 a := by
      simp [IpAddr.display, displayV6, toIpv4Mapped_toIpv6Mapped]
    have hh : (IpAddr.v6 (toIpv6Mapped a)).display.head? ≠ some '[' := by simp [hd]
    have hl : (IpAddr.v6 (toIpv6Mapped a)).display.getLast? ≠ some '.' :=
      hd ▸ getLast?_append_displayV4 (by decide) _ a
    exact (literalIp_spellings hh hl h).trans (IpAddr.parse_display_mapped a)

-- The targets that lead to an address at a port.
inductive Denotes (ip : IpAddr) (port : Nat) : Target → Prop
  | socket (addr : SocketAddr) : addr.ip = ip → addr.port = port → Denotes ip port (.socket addr)
  | domain (host : String) : host ∈ spellings ip → Denotes ip port (.domain host port)

namespace Engine

variable {e : Engine} {resolve : String → DnsResolver.Answer} {a : BitVec 32} {port : Nat}

-- Rules that do not look at names see the same in every target for an address.
def Nameless (e : Engine) : Prop :=
  ∀ r ∈ e.rules, r.domains = [] ∧ r.geosite = []

def admits (e : Engine) (port : Nat) (ip : IpAddr) (rule : Rule) : Bool :=
  e.applies none port [ip] rule

-- The action of the first rule for an address.
def actionOf (e : Engine) (port : Nat) (ip : IpAddr) : RouteAction :=
  ((e.rules.find? (e.admits port ip)).map (·.action)).getD e.defaultAction

theorem targetHost_of_denotes {ip : IpAddr} {t : Target} (hi : ip ∈ forms a)
    (h : Denotes ip port t) : (targetHost t).2 = some ip ∧ t.port = port := by
  cases h
  case socket addr ha hp => exact ⟨congrArg some ha, hp⟩
  case domain host hs    => exact ⟨literalIp_forms hi hs, rfl⟩

theorem reverse_forms {ip : IpAddr} (hi : ip ∈ forms a) (h : e.reverse (some (.v4 a)) = none) :
    e.reverse (some ip) = none := by
  simp only [forms, List.mem_cons, List.not_mem_nil, or_false] at hi
  obtain rfl | rfl := hi
  case inl => exact h
  case inr => cases hf : e.fakeip <;> simp [reverse, hf, FakeIp.domainOf]

theorem Nameless.nonIpOk (h : e.Nameless) {r : Rule} (hr : r ∈ e.rules) (domain : Option String) :
    e.nonIpOk r domain port {} = e.nonIpOk r none port {} := by
  simp [Engine.nonIpOk, h r hr]

theorem Nameless.decision (hn : e.Nameless) (hf : e.reverse (some (.v4 a)) = none) {ip : IpAddr}
    (hi : ip ∈ forms a) {t : Target} (ht : Denotes ip port t) :
    (e.route resolve t).decision = e.act (e.actionOf port ip) := by
  have ⟨hip, hp⟩ := targetHost_of_denotes hi ht
  have hr : e.reverse (targetHost t).2 = none := hip ▸ reverse_forms hi hf
  have he : e.effectiveHost t = ((targetHost t).1, some ip) := by
    simp [effectiveHost, hr, ← hip]
  have hfind : e.rules.find? (e.applies (targetHost t).1 port [ip]) =
      e.rules.find? (e.admits port ip) :=
    List.find?_congr fun r hr => by simp [admits, applies, hn.nonIpOk hr (targetHost t).1]
  simp only [route_eq, routedBy, chosenAction, he, hp, referenceAction, addresses, hfind, act, actionOf]
  split
  case h_1 r hr => simp [hr]
  case h_2 hr   => simp [hr, Unresolved]

-- One decision for all targets that lead to `a`.
def SameDecision (e : Engine) (resolve : String → DnsResolver.Answer) (a : BitVec 32) (port : Nat) :
    Prop :=
  ∀ ip ∈ forms a, ∀ ip' ∈ forms a, ∀ t t', Denotes ip port t → Denotes ip' port t' →
    (e.route resolve t).decision = (e.route resolve t').decision

-- The first rule for either form is a rule for both, or the other form meets the same decision at a
-- later rule or by default.
def TreatsAlike (e : Engine) (a : BitVec 32) (port : Nat) : Prop :=
  let v4 := IpAddr.v4 a
  let v6 := IpAddr.v6 (toIpv6Mapped a)
  ∀ r ∈ e.rules.find? (fun r => e.admits port v4 r || e.admits port v6 r),
    e.admits port v4 r = true ∧ e.admits port v6 r = true ∨
    e.admits port v6 r = false ∧ e.act r.action = e.act (e.actionOf port v6) ∨
    e.admits port v4 r = false ∧ e.act r.action = e.act (e.actionOf port v4)

theorem find?_of_find?_or {α : Type} {p q : α → Bool} {l : List α} {x : α}
    (h : l.find? (fun x => p x || q x) = some x) (hp : p x = true) : l.find? p = some x := by
  rw [List.find?_eq_some_iff_append] at h ⊢
  obtain ⟨-, as, bs, hl, hn⟩ := h
  exact ⟨hp, as, bs, hl, fun y hy => by have := hn y hy; simp_all⟩

theorem find?_of_find?_or_eq_none {α : Type} {p q : α → Bool} {l : List α}
    (h : l.find? (fun x => p x || q x) = none) : l.find? p = none ∧ l.find? q = none := by
  simp only [List.find?_eq_none, Bool.or_eq_true, not_or] at h ⊢
  exact ⟨fun x hx => (h x hx).left, fun x hx => (h x hx).right⟩

-- The first element that either of two searches finds is found by both, or it leads to what the other search leads to.
theorem find?_alike_iff {α β : Type} {p q : α → Bool} {l : List α} {x : α} (g : α → β) (a b : β)
    (h : l.find? (fun x => p x || q x) = some x) :
    ((l.find? p).map g).getD a = ((l.find? q).map g).getD b ↔
      p x = true ∧ q x = true ∨ q x = false ∧ g x = ((l.find? q).map g).getD b ∨
      p x = false ∧ g x = ((l.find? p).map g).getD a := by
  have hx := List.find?_some h
  have hp (hp : p x = true) : l.find? p = some x := find?_of_find?_or h hp
  have hq (hq : q x = true) : l.find? q = some x := by
    simp only [Bool.or_comm (p _)] at h
    exact find?_of_find?_or h hq
  cases hpx : p x <;> cases hqx : q x
  case false.false => simp [hpx, hqx] at hx
  case false.true  => simpa [hpx, hqx, hq hqx] using eq_comm
  case true.false  => simp [hp hpx]
  case true.true   => simp [hp hpx, hq hqx]

theorem treatsAlike_iff :
    e.TreatsAlike a port ↔
      e.act (e.actionOf port (.v4 a)) = e.act (e.actionOf port (.v6 (toIpv6Mapped a))) := by
  have hact (ip : IpAddr) : e.act (e.actionOf port ip) =
      ((e.rules.find? (e.admits port ip)).map fun r => e.act r.action).getD (e.act e.defaultAction) := by
    rw [actionOf]
    cases e.rules.find? (e.admits port ip) <;> rfl
  simp only [TreatsAlike, hact]
  cases hf : e.rules.find? (fun r => e.admits port (.v4 a) r || e.admits port (.v6 (toIpv6Mapped a)) r)
  case none =>
    obtain ⟨h4, h6⟩ := find?_of_find?_or_eq_none hf
    simp [h4, h6]
  case some r =>
    rw [find?_alike_iff _ _ _ hf]
    simp

theorem sameDecision_iff (hn : e.Nameless) (hf : e.reverse (some (.v4 a)) = none) :
    e.SameDecision resolve a port ↔ e.TreatsAlike a port := by
  have h4 : IpAddr.v4 a ∈ forms a := by simp [forms]
  have h6 : IpAddr.v6 (toIpv6Mapped a) ∈ forms a := by simp [forms]
  rw [treatsAlike_iff]
  constructor
  case mp =>
    intro h
    have ht4 : Denotes (.v4 a) port (.socket (.v4 a port)) := .socket _ rfl rfl
    have ht6 : Denotes (.v6 (toIpv6Mapped a)) port (.socket (.v6 (toIpv6Mapped a) port 0 0)) :=
      .socket _ rfl rfl
    rw [← hn.decision hf h4 ht4, ← hn.decision hf h6 ht6]
    exact h _ h4 _ h6 _ _ ht4 ht6
  case mpr =>
    intro h ip hi ip' hi' t t' ht ht'
    rw [hn.decision hf hi ht, hn.decision hf hi' ht']
    simp only [forms, List.mem_cons, List.not_mem_nil, or_false] at hi hi'
    obtain rfl | rfl := hi <;> obtain rfl | rfl := hi' <;> simp [h]

-- A subnet of IPv4 addresses does not contain their IPv6 forms.
theorem mapped_address_opens_block :
    let e := blocking ⟨.v4 0x01020300, 24, by decide⟩ none
    e.Nameless ∧ e.reverse (some (.v4 0x01020304)) = none ∧
    (e.route (fun _ => .ok []) (.socket (.v4 0x01020304 443))).decision = .block ∧
    (e.route (fun _ => .ok []) (.domain "[::ffff:1.2.3.4]" 443)).decision = .connect .direct ∧
    ¬e.SameDecision (fun _ => .ok []) 0x01020304 443 := by
  have h4 : IpAddr.v4 0x01020304 ∈ forms 0x01020304 := by decide
  have h6 : IpAddr.v6 (toIpv6Mapped 0x01020304) ∈ forms 0x01020304 := by decide
  refine ⟨by simp [Nameless, blocking], rfl, by decide, by decide, fun h => ?_⟩
  have := h _ h4 _ h6 _ _ (.socket (.v4 0x01020304 443) rfl rfl)
    (.domain "[::ffff:1.2.3.4]" (by decide))
  exact absurd this (by decide)

theorem sameDecision_iff_unruled :
    let e := blocking ⟨.v4 0x01020300, 24, by decide⟩ none
    e.SameDecision (fun _ => .ok []) 0x05060708 443 := by
  intro e
  have hn : e.Nameless := by simp [e, Nameless, blocking]
  exact (sameDecision_iff hn rfl).mpr (treatsAlike_iff.mpr (by decide))

-- A fake address stands for its domain.
section Transparency

variable {fi : FakeIp} {d : String} {f : BitVec 32}

-- An engine routes the fake address like the name.
def Transparent (e : Engine) (resolve : String → DnsResolver.Answer) (d : String) (f : BitVec 32) (port : Nat) : Prop :=
  e.route resolve (.socket (.v4 f port)) = e.route resolve (.domain d port)

-- The action when no rule applies to a name.
def unmatched (e : Engine) (resolve : String → DnsResolver.Answer) (d : String) (port : Nat) : RouteAction :=
  if e.Unresolved resolve (some d) none ∧ e.rules.any (e.mayBlock (some d) port) then .block else e.defaultAction

-- The first rule for the name, by its own address or by what the resolver answers for it, is a rule for both, or the
-- other way meets the same at a later rule or by default.
def SeenAlike (e : Engine) (resolve : String → DnsResolver.Answer) (d : String) (i : IpAddr) (port : Nat) : Prop :=
  let byName := e.applies (some d) port (e.addresses resolve (some d) none)
  let byAddress := e.applies (some d) port [i]
  match e.rules.find? fun r => byName r || byAddress r with
  | none   => e.actFull (e.unmatched resolve d port) = e.actFull e.defaultAction
  | some r =>
    byName r = true ∧ byAddress r = true ∨
    byAddress r = false ∧ e.actFull r.action =
      ((e.rules.find? byAddress).map fun r => e.actFull r.action).getD (e.actFull e.defaultAction) ∨
    byName r = false ∧ e.actFull r.action =
      ((e.rules.find? byName).map fun r => e.actFull r.action).getD (e.actFull (e.unmatched resolve d port))

-- The name is not an address, or its own fake address, or an address that is no fake one and that the rules see like
-- what the resolver answers.
def LiteralAside (e : Engine) (resolve : String → DnsResolver.Answer) (d : String) (f : BitVec 32) (port : Nat) : Prop :=
  ∀ i, literalIp d = some i → i = .v4 f ∨ e.reverse (some i) = none ∧ e.SeenAlike resolve d i port

theorem domainOf_eq_some_iff (hw : fi.Wf) (hd : fi.domToIp.get d = some f) (ip : IpAddr) :
    fi.domainOf ip = some d ↔ ip = .v4 f := by
  cases ip
  case v4 v =>
    rw [IpAddr.v4.injEq]
    constructor
    case mp  => exact fun h => Option.some.inj <| ((hw.inverse d v).mpr h).symm.trans hd
    case mpr => exact fun h => h ▸ (hw.inverse d f).mp hd
  case v6 => simp [FakeIp.domainOf]

theorem route_fake (hw : fi.Wf) (hd : fi.domToIp.get d = some f) {e : Engine}
    (hf : e.fakeip = some fi) (resolve : String → DnsResolver.Answer) (port : Nat) :
    e.route resolve (.socket (.v4 f port)) =
      e.routedBy (.domain d port) (e.referenceAction resolve (some d) none port) := by
  have hr : e.reverse (some (.v4 f)) = some d := by
    simpa [reverse, hf] using (domainOf_eq_some_iff hw hd _).mpr rfl
  have hh : (targetHost (.socket (.v4 f port))).2 = some (.v4 f) := rfl
  simp [route_eq, effectiveTarget, chosenAction, effectiveHost, hh, hr, Target.port, SocketAddr.port]

-- A name that is not an address, or is its own fake address, leads to the same point.
theorem route_name (hw : fi.Wf) (hd : fi.domToIp.get d = some f) {e : Engine}
    (hf : e.fakeip = some fi) (hl : literalIp d = none ∨ literalIp d = some (.v4 f))
    (resolve : String → DnsResolver.Answer) (port : Nat) :
    e.route resolve (.domain d port) =
      e.routedBy (.domain d port) (e.referenceAction resolve (some d) none port) := by
  have hh : targetHost (.domain d port) = (some d, literalIp d) := rfl
  obtain hl | hl := hl <;> rw [hl] at hh
  case inl =>
    have hr : e.reverse none = none := by simp [reverse]
    simp [route_eq, effectiveTarget, chosenAction, effectiveHost, hh, hr, Target.port]
  case inr =>
    have hr : e.reverse (some (.v4 f)) = some d := by
      simpa [reverse, hf] using (domainOf_eq_some_iff hw hd _).mpr rfl
    simp [route_eq, effectiveTarget, chosenAction, effectiveHost, hh, hr, Target.port]

theorem seenAlike_iff {e : Engine} {resolve : String → DnsResolver.Answer} {i : IpAddr} {port : Nat} :
    e.SeenAlike resolve d i port ↔
      e.actFull (e.referenceAction resolve (some d) none port) =
        e.actFull (e.referenceAction resolve (some d) (some i) port) := by
  have hname : e.actFull (e.referenceAction resolve (some d) none port) =
      ((e.rules.find? (e.applies (some d) port (e.addresses resolve (some d) none))).map fun r =>
        e.actFull r.action).getD (e.actFull (e.unmatched resolve d port)) := by
    rw [referenceAction]
    cases e.rules.find? (e.applies (some d) port (e.addresses resolve (some d) none)) <;> rfl
  have haddress : e.actFull (e.referenceAction resolve (some d) (some i) port) =
      ((e.rules.find? (e.applies (some d) port [i])).map fun r => e.actFull r.action).getD
        (e.actFull e.defaultAction) := by
    have hu : ¬e.Unresolved resolve (some d) (some i) := fun hu => by cases hu.2.1
    simp only [referenceAction, addresses, hu, false_and, if_false]
    cases e.rules.find? (e.applies (some d) port [i]) <;> rfl
  rw [SeenAlike, hname, haddress]
  split
  case h_1 hf =>
    obtain ⟨hn, ha⟩ := find?_of_find?_or_eq_none hf
    rw [hn, ha]
    rfl
  case h_2 r hf => rw [find?_alike_iff _ _ _ hf]

theorem routedBy_inj {e : Engine} {t : Target} {action action' : RouteAction} :
    e.routedBy t action = e.routedBy t action' ↔ e.actFull action = e.actFull action' := by
  simp only [routedBy, Routed.mk.injEq, true_and, Prod.ext_iff]

-- A name that is an address other than its fake one.
theorem transparent_literal (hw : fi.Wf) (hd : fi.domToIp.get d = some f) {e : Engine} (hf : e.fakeip = some fi)
    {i : IpAddr} (hl : literalIp d = some i) (hne : i ≠ .v4 f) {resolve : String → DnsResolver.Answer} {port : Nat} :
    e.Transparent resolve d f port ↔ e.reverse (some i) = none ∧ e.SeenAlike resolve d i port := by
  have hh : targetHost (.domain d port) = (some d, some i) := by rw [targetHost, hl]
  rw [Transparent, route_fake hw hd hf, route_eq, effectiveTarget, chosenAction, effectiveHost, hh]
  cases hr : e.reverse (some i)
  case some d' =>
    refine iff_of_false (fun h => ?_) (fun h => by cases h.1)
    have ht := congrArg Routed.target h
    simp only [routedBy, Target.domain.injEq] at ht
    rw [← ht.1] at hr
    have hdom : fi.domainOf i = some d := by simpa [reverse, hf] using hr
    exact hne ((domainOf_eq_some_iff hw hd i).mp hdom)
  case none => rw [seenAlike_iff, ← routedBy_inj, and_iff_right rfl]; rfl

theorem transparent_iff (h : fi.Reachable) (hd : fi.domToIp.get d = some f) {e : Engine} (hf : e.fakeip = some fi)
    (resolve : String → DnsResolver.Answer) (port : Nat) :
    e.Transparent resolve d f port ↔ e.LiteralAside resolve d f port := by
  have hname (hl : literalIp d = none ∨ literalIp d = some (.v4 f)) : e.Transparent resolve d f port := by
    rw [Transparent, route_fake h.wf hd hf, route_name h.wf hd hf hl]
  cases hl : literalIp d
  case none =>
    exact iff_of_true (hname (.inl hl)) fun i hi => by rw [hl] at hi; cases hi
  case some i =>
    by_cases hi : i = .v4 f
    case pos =>
      refine iff_of_true (hname (.inr (hi ▸ hl))) fun i' hi' => .inl ?_
      exact (Option.some.inj (hl.symm.trans hi')).symm.trans hi
    case neg =>
      rw [transparent_literal h.wf hd hf hl hi]
      constructor
      case mp =>
        intro hs i' hi'
        cases hl.symm.trans hi'
        exact .inr hs
      case mpr => exact fun hs => (hs i hl).resolve_left hi

-- The name of a blocked address: its fake address is open.
theorem literal_name_opens_block :
    ∃ fi, FakeIp.new "198.18.0.0/15" = .ok fi ∧
      let fi' := (fi.allocate "1.2.3.4").2
      let e := { blocking (.host (.v4 0x01020304)) none with fakeip := some fi' }
      fi'.domToIp.get "1.2.3.4" = some 0xc6120001 ∧
      (e.route (fun _ => .ok []) (.socket (.v4 0xc6120001 443))).decision = .connect .direct ∧
      (e.route (fun _ => .ok []) (.domain "1.2.3.4" 443)).decision = .block ∧
      ¬e.Transparent (fun _ => .ok []) "1.2.3.4" 0xc6120001 443 := by
  have h : FakeIp.new "198.18.0.0/15" = .ok ⟨0xc6120000, 131072, 1, .empty, .empty⟩ := rfl
  refine ⟨_, h, rfl, rfl, rfl, fun ht => ?_⟩
  exact absurd (congrArg Routed.decision ht) (by decide)

-- Without rules on addresses it does not matter that a name is one.
theorem transparent_iff_no_rules :
    ∃ fi, FakeIp.new "198.18.0.0/15" = .ok fi ∧
      let fi' := (fi.allocate "1.2.3.4").2
      let e := { blocking (.host (.v4 0x01020304)) none with rules := [], fakeip := some fi' }
      e.Transparent (fun _ => .ok []) "1.2.3.4" 0xc6120001 443 := by
  have h : FakeIp.new "198.18.0.0/15" = .ok ⟨0xc6120000, 131072, 1, .empty, .empty⟩ := rfl
  refine ⟨_, h, (transparent_iff (.allocate _ (.new h)) rfl rfl _ 443).mpr fun i hi => .inr ?_⟩
  cases (show literalIp "1.2.3.4" = some (.v4 0x01020304) by decide).symm.trans hi
  exact ⟨rfl, rfl⟩

end Transparency
end Engine
end JammVpn
