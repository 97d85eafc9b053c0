import JammVpn.Cli.Operations
import JammVpn.Lib.Ipv6

namespace JammVpn

open Text

def Trimmed (s : String) : Prop :=
  trim s.toList = s.toList

def DomainRule.kind : DomainRule → List Char
  | full _    => ['f', 'u', 'l', 'l']
  | suffix _  => ['s', 'u', 'f', 'f', 'i', 'x']
  | keyword _ => ['k', 'e', 'y', 'w', 'o', 'r', 'd']

def DomainRule.text : DomainRule → String
  | full s | suffix s | keyword s => s

def AppMatcher.kind : AppMatcher → List Char
  | exePath _     => ['e', 'x', 'e']
  | processName _ => ['n', 'a', 'm', 'e']

def AppMatcher.text : AppMatcher → String
  | exePath s | processName s => s

-- What the editor can read: no text of a rule has blanks around it, and the names of lists and of a proxy
-- are not empty.
structure Rule.Clean (r : Rule) : Prop where
  domains   : ∀ d ∈ r.domains, Trimmed d.text
  processes : ∀ m ∈ r.processes, Trimmed m.text
  geosite   : ∀ s ∈ r.geosite, Trimmed s ∧ s ≠ ""
  geoip     : ∀ s ∈ r.geoip, Trimmed s ∧ s ≠ ""
  action    : ∀ tag, r.action = .proxy (some tag) → Trimmed tag ∧ tag ≠ ""

section Strings

variable {s : String}

theorem trimmed_of (h : Trimmed s) : trimmed s = s := by
  rw [trimmed, h, String.ofList_toList]

theorem trimmed_trimmed (s : String) : Trimmed (trimmed s) := by
  rw [Trimmed, trimmed, String.toList_ofList, trim_trim]

theorem trimmed_ofList_trim (l : List Char) : Trimmed (.ofList (trim l)) := by
  rw [Trimmed, String.toList_ofList, trim_trim]

-- A kind, a colon and a text.
def Kind (k : List Char) : Prop :=
  k ≠ [] ∧ ∀ c ∈ k, isWhitespace c = false ∧ c ≠ ':'

theorem trim_kind {k : List Char} (hk : Kind k) (h : Trimmed s) :
    trim (k ++ ':' :: s.toList) = k ++ ':' :: s.toList := by
  refine trim_eq_self (fun c hc => ?_) fun c hc => ?_
  case refine_1 =>
    rw [List.head?_append_of_ne_nil _ hk.1] at hc
    exact (hk.2 c (List.mem_of_head? hc)).1
  case refine_2 =>
    rw [List.getLast?_append_of_ne_nil _ (List.cons_ne_nil _ _), List.getLast?_cons] at hc
    cases hs : s.toList.getLast?
    case none =>
      rw [hs] at hc
      cases hc
      rfl
    case some d =>
      rw [hs] at hc
      cases hc
      rw [← h] at hs
      exact getLast?_trim d hs

theorem splitOnce_kind {k : List Char} (hk : Kind k) (h : Trimmed s) :
    splitOnce ':' (trim (k ++ ':' :: s.toList)) = some (k, s.toList) := by
  rw [trim_kind hk h]
  exact splitOnce_append (fun hc => (hk.2 _ hc).2 rfl) _

-- The written form is read as it stands.
theorem written {k : List Char} {t : String} (hk : Kind k) (h : Trimmed s) (ht : t.toList = k ++ ':' :: s.toList) :
    Trimmed t ∧ t ≠ "" := by
  refine ⟨by rw [Trimmed, ht, trim_kind hk h], fun he => ?_⟩
  rw [he] at ht
  exact List.cons_ne_nil _ _ (List.append_eq_nil_iff.mp ht.symm).2

theorem cleanList_of {l : List String} (h : ∀ s ∈ l, Trimmed s ∧ s ≠ "") : cleanList l = l := by
  have hm : l.map trimmed = l := by
    refine (List.map_congr_left fun s hs => trimmed_of (h s hs).1).trans (List.map_id' l)
  rw [cleanList, hm]
  exact List.filter_eq_self.mpr fun s hs => bne_iff_ne.mpr (h s hs).2

theorem mem_cleanList {l : List String} (h : s ∈ cleanList l) : Trimmed s ∧ s ≠ "" := by
  obtain ⟨hm, hne⟩ := List.mem_filter.mp h
  obtain ⟨t, _, rfl⟩ := List.mem_map.mp hm
  exact ⟨trimmed_trimmed t, bne_iff_ne.mp hne⟩

theorem normalized_eq_some {o : Option String} {tag : String} (h : normalized o = some tag) :
    Trimmed tag ∧ tag ≠ "" := by
  obtain ⟨hm, hne⟩ := Option.filter_eq_some_iff.mp h
  obtain ⟨t, _, rfl⟩ := Option.map_eq_some_iff.mp hm
  exact ⟨trimmed_trimmed t, bne_iff_ne.mp hne⟩

end Strings

section Criteria

theorem DomainRule.kind_ok (d : DomainRule) : Kind d.kind := by
  cases d <;> exact ⟨List.cons_ne_nil _ _, by simp only [kind]; exact forall_mem_of_all (by decide)⟩

theorem AppMatcher.kind_ok (m : AppMatcher) : Kind m.kind := by
  cases m <;> exact ⟨List.cons_ne_nil _ _, by simp only [kind]; exact forall_mem_of_all (by decide)⟩

theorem toList_domainToString (d : DomainRule) : (domainToString d).toList = d.kind ++ ':' :: d.text.toList := by
  cases d <;> simp [domainToString, DomainRule.kind, DomainRule.text]

theorem toList_processToString (m : AppMatcher) : (processToString m).toList = m.kind ++ ':' :: m.text.toList := by
  cases m <;> simp [processToString, AppMatcher.kind, AppMatcher.text]

theorem parseDomain_domainToString {d : DomainRule} (h : Trimmed d.text) : parseDomain (domainToString d) = d := by
  rw [parseDomain, toList_domainToString, splitOnce_kind d.kind_ok h]
  dsimp only
  rw [show trim d.text.toList = _ from h, String.ofList_toList]
  cases d <;> simp [DomainRule.kind, DomainRule.text]

theorem parseProcess_processToString {m : AppMatcher} (h : Trimmed m.text) :
    parseProcess (processToString m) = m := by
  rw [parseProcess, toList_processToString, splitOnce_kind m.kind_ok h]
  dsimp only
  rw [show trim m.text.toList = _ from h, String.ofList_toList]
  cases m <;> simp [AppMatcher.kind, AppMatcher.text]

theorem trimmed_text_parseDomain (s : String) : Trimmed (parseDomain s).text := by
  rw [parseDomain]
  repeat' split
  all_goals exact trimmed_ofList_trim _

theorem trimmed_text_parseProcess (s : String) : Trimmed (parseProcess s).text := by
  rw [parseProcess]
  repeat' split
  all_goals exact trimmed_ofList_trim _

-- All of a list that is written and read again.
theorem map_cleanList_map {α : Type} {write : α → String} {read : String → α} {l : List α}
    (hw : ∀ a ∈ l, Trimmed (write a) ∧ write a ≠ "") (hr : ∀ a ∈ l, read (write a) = a) :
    (cleanList (l.map write)).map read = l := by
  have hc : cleanList (l.map write) = l.map write := by
    refine cleanList_of fun s hs => ?_
    obtain ⟨a, ha, rfl⟩ := List.mem_map.mp hs
    exact hw a ha
  rw [hc, List.map_map]
  exact (List.map_congr_left hr).trans (List.map_id' l)

end Criteria

section Cidrs

open Ip

theorem IpCidr.trim_display (c : IpCidr) : trim c.display = c.display := by
  have hnb : ∀ d ∈ c.display, isWhitespace d = false := by
    intro d hd
    rw [display, List.mem_append, List.mem_cons] at hd
    rcases hd with hd | rfl | hd
    · exact (addressChar_display hd).not_blank
    · rfl
    · exact (addressChar_decimal hd).not_blank
  exact trim_eq_self (fun d hd => hnb d (List.mem_of_head? hd)) fun d hd => hnb d (List.mem_of_getLast? hd)

theorem IpCidr.display_clean (c : IpCidr) : Trimmed (.ofList c.display) ∧ String.ofList c.display ≠ "" := by
  refine ⟨by rw [Trimmed, String.toList_ofList, c.trim_display], fun h => ?_⟩
  have := congrArg String.toList h
  rw [String.toList_ofList, display] at this
  exact List.cons_ne_nil _ _ (List.append_eq_nil_iff.mp this).2

-- Subnets of both families.
theorem IpCidr.parse_display (c : IpCidr) : IpCidr.parse (.ofList c.display) = .ok c := by
  have hp : c.prefixLen < 256 := by
    have hle := c.le_width
    have hw : c.base.width ≤ 128 := by cases c.base <;> simp [IpAddr.width]
    omega
  have hslash : '/' ∉ c.base.display := not_mem_display (by decide) (by decide) (by decide) _
  rw [IpCidr.parse, String.toList_ofList, display, splitOnce_append hslash]
  simp only [parseUnsigned_decimal hp, IpAddr.parse_display, mk?, dif_pos c.le_width]

theorem parseCidrs_display (cs : List IpCidr) : parseCidrs (cs.map fun c => .ofList c.display) = .ok cs := by
  induction cs
  case nil => rfl
  case cons c cs hi =>
    simp only [List.map_cons, parseCidrs, c.parse_display, hi]
    rfl

theorem cleanList_displayed (cs : List IpCidr) :
    cleanList (cs.map fun c => .ofList c.display) = cs.map fun c => .ofList c.display := by
  refine cleanList_of fun s hs => ?_
  obtain ⟨c, _, rfl⟩ := List.mem_map.mp hs
  exact c.display_clean

end Cidrs

section Rules

variable {info : RuleInfo} {r : Rule}

theorem parseAction_actionToInfo {a : RouteAction} (h : ∀ tag, a = .proxy (some tag) → Trimmed tag ∧ tag ≠ "") :
    parseAction (actionToInfo a).1 (actionToInfo a).2 = .ok a := by
  cases a
  case direct => decide
  case block  => decide
  case proxy tag =>
    have hp : trimmed "proxy" = "proxy" := by decide
    simp only [parseAction, actionToInfo, hp]
    cases tag
    case none => rfl
    case some tag =>
      obtain ⟨ht, hne⟩ := h tag rfl
      simp [normalized, trimmed_of ht, hne]

theorem clean_parseAction {action : String} {proxyTag : Option String} {a : RouteAction}
    (h : parseAction action proxyTag = .ok a) : ∀ tag, a = .proxy (some tag) → Trimmed tag ∧ tag ≠ "" := by
  rintro tag rfl
  rw [parseAction] at h
  split at h
  case h_1 => cases h
  case h_2 => cases h
  case h_4 => cases h
  case h_3 => exact normalized_eq_some (RouteAction.proxy.inj (Except.ok.inj h))

-- What the editor reads is clean.
theorem clean_of_infoToRule (h : infoToRule info = .ok r) : r.Clean := by
  obtain ⟨cs, _, h⟩ := bind_eq_ok h
  obtain ⟨a, ha, h⟩ := bind_eq_ok h
  cases h
  refine ⟨fun d hd => ?_, fun m hm => ?_, fun s => mem_cleanList, fun s => mem_cleanList, clean_parseAction ha⟩
  case refine_1 =>
    obtain ⟨s, _, rfl⟩ := List.mem_map.mp hd
    exact trimmed_text_parseDomain s
  case refine_2 =>
    obtain ⟨s, _, rfl⟩ := List.mem_map.mp hm
    exact trimmed_text_parseProcess s

theorem infoToRule_ruleToInfo (h : r.Clean) : infoToRule (ruleToInfo r) = .ok r := by
  have hd : (cleanList (r.domains.map domainToString)).map parseDomain = r.domains :=
    map_cleanList_map (fun d hd => written d.kind_ok (h.domains d hd) (toList_domainToString d))
      fun d hd => parseDomain_domainToString (h.domains d hd)
  have hm : (cleanList (r.processes.map processToString)).map parseProcess = r.processes :=
    map_cleanList_map (fun m hm => written m.kind_ok (h.processes m hm) (toList_processToString m))
      fun m hm => parseProcess_processToString (h.processes m hm)
  simp only [infoToRule, ruleToInfo, cleanList_displayed, parseCidrs_display, parseAction_actionToInfo h.action,
    hd, hm, cleanList_of h.geosite, cleanList_of h.geoip]
  rfl

-- Opening a rule and saving it does not change it.
theorem open_and_save_keeps (h : infoToRule info = .ok r) : infoToRule (ruleToInfo r) = .ok r :=
  infoToRule_ruleToInfo (clean_of_infoToRule h)

end Rules

-- Values with colons and with what looks like a kind, and subnets of both families.
def trickyInfo : RuleInfo where
  domains   := ["full:suffix:a:b ", "10:30"]
  ipCidrs   := ["::ffff:1.2.3.4", "10.0.0.0/8", "2001:db8::/32"]
  processes := ["exe:C:\\name:x.exe"]
  action    := "proxy"
  proxyTag  := some " a "

def trickyRule : Rule where
  domains   := [.full "suffix:a:b", .suffix "10:30"]
  ipCidrs   := [⟨.v6 0xffff01020304, 128, by decide⟩, ⟨.v4 0x0a000000, 8, by decide⟩,
    ⟨.v6 0x20010db8000000000000000000000000, 32, by decide⟩]
  processes := [.exePath "C:\\name:x.exe"]
  action    := .proxy (some "a")

theorem open_and_save_keeps_tricky : infoToRule (ruleToInfo trickyRule) = .ok trickyRule :=
  @open_and_save_keeps trickyInfo _ (by decide +kernel)

end JammVpn
