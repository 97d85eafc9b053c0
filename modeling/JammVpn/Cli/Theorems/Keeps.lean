import JammVpn.Core.Secret
import JammVpn.Cli.Theorems.Writes

namespace JammVpn

-- Names can change when a configuration is loaded; everything else about a server stays.
def ServerProfile.body (s : ServerProfile) : ServerProfile :=
  { s with name := "" }

inductive Item
  | server (body : ServerProfile)
  | rule (rule : Rule)
  | subscription (url : String)

def AppConfig.Has (cfg : AppConfig) : Item → Prop
  | .server body      => ∃ s ∈ cfg.servers, s.body = body
  | .rule rule        => rule ∈ cfg.rules
  | .subscription url => ∃ sub ∈ cfg.subscriptions, sub.url = url

namespace Op

-- What an operation is asked to remove or to replace.
def DropsServer (op : Op) (cfg : AppConfig) (s : ServerProfile) : Prop :=
  match op with
  | importNode arg _ (.ok (_, title)) =>
    isHttpUrl arg = true ∧
      cfg.importTag { url := arg, tag := title, updateIntervalHours := 12 } ∈ s.tags
  | updateSubscriptions fetch       => ∃ g ∈ cfg.groups fetch, g.1 ∈ s.tags
  | updateOneSubscription url fetch =>
    ∃ index sub servers title, cfg.findSubscription url = some (index, sub) ∧
      fetch sub = .ok (servers, title) ∧ cfg.tagAt index sub title ∈ s.tags
  | clearSubscriptionNodes          => isSubscriptionNode cfg s = true
  | removeNode name                 => s.name = name
  | removeSubscription url          =>
    ∃ sub, cfg.subscriptions.find? (·.url == url) = some sub ∧ subTag sub ∈ s.tags
  | _                               => False

def DropsRule (op : Op) (cfg : AppConfig) (rule : Rule) : Prop :=
  match op with
  | updateRule index _ => cfg.rules[index]? = some rule
  | removeRule index   => cfg.rules[index]? = some rule
  | applyPreset _ _    => True
  | _                  => False

def DropsSubscription (op : Op) (url : String) : Prop :=
  match op with
  | removeSubscription url' => url = url'
  | _                       => False

def Removes (op : Op) (cfg : AppConfig) : Item → Prop
  | .server body      => ∃ s ∈ cfg.servers, s.body = body ∧ op.DropsServer cfg s
  | .rule rule        => op.DropsRule cfg rule
  | .subscription url => op.DropsSubscription url

-- No secret that comes with an operation looks like an encrypted one.
def Clear : Op → Prop
  | importNode _ parsed fetched =>
    (∀ p, parsed = .ok p → p.Clear) ∧ ∀ r, fetched = .ok r → ∀ s ∈ r.1, s.Clear
  | importConfig _ _ parsed         => ∀ p ∈ importedProfiles parsed, p.Clear
  | updateSubscriptions fetch       => ∀ sub r, fetch sub = .ok r → ∀ s ∈ r.1, s.Clear
  | updateOneSubscription _ fetch   => ∀ sub r, fetch sub = .ok r → ∀ s ∈ r.1, s.Clear
  | localWgEnsure generated         => generated.Clear
  | _                               => True

-- Everything else is still there after the operation.
structure Keeps (op : Op) (cfg cfg' : AppConfig) : Prop where
  server       : ∀ s ∈ cfg.servers, ¬op.DropsServer cfg s → s ∈ cfg'.servers
  rule         : ∀ r ∈ cfg.rules, ¬op.DropsRule cfg r → r ∈ cfg'.rules
  subscription : ∀ url, (∃ sub ∈ cfg.subscriptions, sub.url = url) → ¬op.DropsSubscription url →
    ∃ sub ∈ cfg'.subscriptions, sub.url = url
  clear        : cfg.Clear → op.Clear → cfg'.Clear

end Op

section Parts

variable {cfg cfg' : AppConfig} {op : Op}

theorem urls_distinctSubTags (used : List String) (subs : List Subscription) :
    (distinctSubTags used subs).map (·.url) = subs.map (·.url) := by
  induction subs generalizing used
  case nil             => rfl
  case cons sub subs hi => simp [distinctSubTags, hi]

theorem bodies_distinctNodeNames (used : List String) (servers : List ServerProfile) :
    (distinctNodeNames used servers).map (·.body) = servers.map (·.body) := by
  induction servers generalizing used
  case nil          => rfl
  case cons s ss hi =>
    simp only [distinctNodeNames]
    split <;> rw [List.map_cons, List.map_cons, hi]
    case isTrue => rfl

theorem mem_replaceNodes {tag : String} {servers : List ServerProfile} {s : ServerProfile}
    (hs : s ∈ cfg.servers) (ht : tag ∉ s.tags) : s ∈ (cfg.replaceNodes tag servers).servers := by
  simp [AppConfig.replaceNodes, hs, ht]

theorem clear_of_mem_tagServers {tag : String} {servers : List ServerProfile}
    (h : ∀ s ∈ servers, s.Clear) : ∀ s ∈ tagServers servers tag, s.Clear := by
  intro s hs
  simp only [tagServers, List.mem_map] at hs
  obtain ⟨p, hp, rfl⟩ := hs
  split
  case isTrue  => exact h p hp
  case isFalse => exact h p hp

theorem clear_replaceNodes {tag : String} {servers : List ServerProfile} (hc : cfg.Clear)
    (h : ∀ s ∈ servers, s.Clear) : (cfg.replaceNodes tag servers).Clear := by
  refine ⟨fun s hs => ?_, hc.2⟩
  simp only [AppConfig.replaceNodes, List.mem_append, List.mem_filter] at hs
  exact hs.elim (hc.1 s ·.1) (clear_of_mem_tagServers h s)

theorem subscription_ensureDistinctSubTags {url : String}
    (h : ∃ sub ∈ cfg.subscriptions, sub.url = url) :
    ∃ sub ∈ (ensureDistinctSubTags cfg).subscriptions, sub.url = url := by
  simp only [← List.mem_map] at h ⊢
  rwa [ensureDistinctSubTags, urls_distinctSubTags]

theorem url_retitle (title : Option String) (sub : Subscription) :
    (AppConfig.retitle title sub).url = sub.url := by
  cases title <;> rfl

theorem subscription_retitled {fetch : Subscription → Fetched} {url : String}
    (h : ∃ sub ∈ cfg.subscriptions, sub.url = url) :
    ∃ sub ∈ (cfg.retitled fetch).subscriptions, sub.url = url := by
  apply subscription_ensureDistinctSubTags
  obtain ⟨sub, hs, rfl⟩ := h
  refine ⟨_, List.mem_map_of_mem hs, ?_⟩
  split
  case h_1 => exact url_retitle _ sub
  case h_2 => rfl

theorem subscription_retitledAt {index : Nat} {sub : Subscription} {title : Option String}
    {url : String} (hi : cfg.subscriptions[index]? = some sub)
    (h : ∃ sub ∈ cfg.subscriptions, sub.url = url) :
    ∃ sub' ∈ (cfg.retitledAt index sub title).subscriptions, sub'.url = url := by
  apply subscription_ensureDistinctSubTags
  have hu : (cfg.subscriptions.map (·.url))[index]? = some sub.url := by simp [hi]
  obtain ⟨hl, he⟩ := List.getElem?_eq_some_iff.mp hu
  simp only [← List.mem_map, List.map_set, url_retitle] at h ⊢
  rwa [← he, List.set_getElem_self]

theorem subscription_withSubscription {sub : Subscription} {url : String}
    (h : ∃ sub ∈ cfg.subscriptions, sub.url = url) :
    ∃ sub' ∈ (cfg.withSubscription sub).subscriptions, sub'.url = url := by
  apply subscription_ensureDistinctSubTags
  obtain ⟨sub', hs, rfl⟩ := h
  split
  case isTrue  => exact ⟨sub', hs, rfl⟩
  case isFalse => exact ⟨sub', List.mem_append_left _ hs, rfl⟩

theorem withSubscription_eq (sub : Subscription) :
    ∃ subscriptions, cfg.withSubscription sub = { cfg with subscriptions } := by
  simp only [AppConfig.withSubscription, ensureDistinctSubTags]
  split <;> exact ⟨_, rfl⟩

-- Replacing one group after another.
theorem mem_foldl_replaceNodes {groups : List (String × List ServerProfile)} {s : ServerProfile}
    (hs : s ∈ cfg.servers) (h : ∀ g ∈ groups, g.1 ∉ s.tags) :
    s ∈ (groups.foldl (fun c g => c.replaceNodes g.1 g.2) cfg).servers := by
  induction groups generalizing cfg
  case nil => exact hs
  case cons g gs hi =>
    exact hi (mem_replaceNodes hs (h g (by simp))) fun g' hg => h g' (by simp [hg])

theorem foldl_replaceNodes_eq (groups : List (String × List ServerProfile)) :
    ∃ servers, groups.foldl (fun c g => c.replaceNodes g.1 g.2) cfg = { cfg with servers } := by
  induction groups generalizing cfg
  case nil => exact ⟨_, rfl⟩
  case cons g gs hi =>
    obtain ⟨servers, h⟩ := @hi (cfg.replaceNodes g.1 g.2)
    exact ⟨servers, h⟩

theorem clear_foldl_replaceNodes {groups : List (String × List ServerProfile)} (hc : cfg.Clear)
    (h : ∀ g ∈ groups, ∀ s ∈ g.2, s.Clear) :
    (groups.foldl (fun c g => c.replaceNodes g.1 g.2) cfg).Clear := by
  induction groups generalizing cfg
  case nil => exact hc
  case cons g gs hi =>
    exact hi (clear_replaceNodes hc (h g (by simp))) fun g' hg => h g' (by simp [hg])

theorem clear_groups {fetch : Subscription → Fetched}
    (h : ∀ sub r, fetch sub = .ok r → ∀ s ∈ r.1, s.Clear) :
    ∀ g ∈ cfg.groups fetch, ∀ s ∈ g.2, s.Clear := by
  intro g hg
  simp only [AppConfig.groups, List.mem_filterMap] at hg
  obtain ⟨⟨sub, r⟩, hm, hg⟩ := hg
  have hr := (List.of_mem_zip hm).2
  simp only [List.mem_map] at hr
  obtain ⟨sub', -, rfl⟩ := hr
  cases hf : fetch sub' <;> simp only [hf, reduceCtorEq] at hg
  case ok r =>
    cases hg
    exact h sub' r hf

end Parts

namespace Op

variable {cfg cfg' : AppConfig} {op : Op}

-- An operation that leaves the servers, the rules and the subscriptions alone.
theorem Keeps.of_eq (hs : cfg'.servers = cfg.servers) (hr : cfg'.rules = cfg.rules)
    (hu : cfg'.subscriptions = cfg.subscriptions)
    (hl : cfg.Clear → op.Clear → ∀ lw ∈ cfg'.localWg, lw.Clear) : op.Keeps cfg cfg' where
  server _ h _ := hs ▸ h
  rule _ h _ := hr ▸ h
  subscription _ h _ := hu ▸ h
  clear h h' := ⟨hs ▸ h.1, hl h h'⟩

theorem importUrl_keeps {arg : String} {parsed : Except ParseError ServerProfile}
    {servers : List ServerProfile} {title : Option String} (hu : isHttpUrl arg = true) :
    (importNode arg parsed (.ok (servers, title))).Keeps cfg
      (cfg.importSubscription { url := arg, tag := title, updateIntervalHours := 12 } servers) := by
  obtain ⟨subs, he⟩ := @withSubscription_eq cfg { url := arg, tag := title, updateIntervalHours := 12 }
  refine ⟨fun s hs hd => ?_, fun r hr _ => ?_, fun u h _ => ?_, fun hc hp => ?_⟩
  · exact mem_replaceNodes (by rwa [he]) fun ht => hd ⟨hu, ht⟩
  · simpa [AppConfig.importSubscription, AppConfig.replaceNodes, he] using hr
  · exact subscription_withSubscription h
  · exact clear_replaceNodes (by rw [he]; exact hc) (hp.2 _ rfl)

theorem updateSubscriptions_keeps (fetch : Subscription → Fetched) :
    (updateSubscriptions fetch).Keeps cfg (cfg.refresh fetch) := by
  obtain ⟨servers, he⟩ := @foldl_replaceNodes_eq (cfg.retitled fetch) (cfg.groups fetch)
  refine ⟨fun s hs hd => ?_, fun r hr _ => ?_, fun u hu _ => ?_, fun hc hp => ?_⟩
  · exact mem_foldl_replaceNodes hs fun g hg ht => hd ⟨g, hg, ht⟩
  · rw [AppConfig.refresh, he]
    exact hr
  · rw [AppConfig.refresh, he]
    exact subscription_retitled hu
  · exact clear_foldl_replaceNodes hc (clear_groups hp)

theorem updateOneSubscription_keeps {url : String} {fetch : Subscription → Fetched} {index : Nat}
    {sub : Subscription} {servers : List ServerProfile} {title : Option String}
    (hf : cfg.findSubscription url = some (index, sub)) (hr : fetch sub = .ok (servers, title)) :
    (updateOneSubscription url fetch).Keeps cfg (cfg.refreshAt index sub servers title) := by
  refine ⟨fun s hs hd => ?_, fun r hr _ => hr, fun u hu _ => ?_, fun hc hp => ?_⟩
  · exact mem_replaceNodes hs fun ht => hd ⟨index, sub, servers, title, hf, hr, ht⟩
  · exact subscription_retitledAt (AppConfig.findSubscription_eq hf) hu
  · exact clear_replaceNodes hc (hp sub _ hr)

-- An operation that only appends servers.
theorem Keeps.of_append {new : List ServerProfile} (hc : op.Clear → ∀ s ∈ new, s.Clear) :
    op.Keeps cfg { cfg with servers := cfg.servers ++ new } where
  server _ h _ := List.mem_append_left _ h
  rule _ h _ := h
  subscription _ h _ := h
  clear h h' := ⟨fun s hs => (List.mem_append.mp hs).elim (h.1 s) (hc h' s), h.2⟩

-- An operation that only filters the servers.
theorem Keeps.of_filter {p : ServerProfile → Bool} (hs : cfg'.servers = cfg.servers.filter p)
    (hp : ∀ s ∈ cfg.servers, p s = false → op.DropsServer cfg s)
    (hr : cfg'.rules = cfg.rules) (hl : cfg'.localWg = cfg.localWg)
    (hu : ∀ url, (∃ sub ∈ cfg.subscriptions, sub.url = url) → ¬op.DropsSubscription url →
      ∃ sub ∈ cfg'.subscriptions, sub.url = url) : op.Keeps cfg cfg' where
  server s h hd := by
    have : p s = true := by
      cases hq : p s
      case true  => rfl
      case false => exact absurd (hp s h hq) hd
    simp [hs, h, this]
  rule _ h _ := hr ▸ h
  subscription := hu
  clear h _ := ⟨fun s hm => h.1 s (List.mem_of_mem_filter (hs ▸ hm)), hl ▸ h.2⟩

theorem removeSubscription_keeps {url : String} {sub : Subscription}
    (hf : cfg.subscriptions.find? (·.url == url) = some sub) :
    (removeSubscription url).Keeps cfg { cfg with
      subscriptions := cfg.subscriptions.filter (·.url != url)
      servers := cfg.servers.filter (subTag sub ∉ ·.tags) } := by
  refine .of_filter rfl (fun s _ hp => ⟨sub, hf, by simpa using hp⟩) rfl rfl ?_
  intro u hu hd
  obtain ⟨sub', hs, hu⟩ := hu
  have hne : u ≠ url := hd
  exact ⟨sub', List.mem_filter.mpr ⟨hs, by simpa [hu] using hne⟩, hu⟩

theorem addSubscription_keeps {url : String} {tag : Option String} {intervalHours : Nat} (sub : Subscription) :
    (addSubscription url tag intervalHours).Keeps cfg
      (ensureDistinctSubTags { cfg with subscriptions := cfg.subscriptions ++ [sub] }) := by
  refine ⟨fun _ h _ => h, fun _ h _ => h, fun u hu _ => ?_, fun hc _ => hc⟩
  obtain ⟨sub', hs, hu⟩ := hu
  exact subscription_ensureDistinctSubTags ⟨sub', List.mem_append_left _ hs, hu⟩

-- An operation that only changes the rules.
theorem Keeps.of_rules (hs : cfg'.servers = cfg.servers) (hu : cfg'.subscriptions = cfg.subscriptions)
    (hl : cfg'.localWg = cfg.localWg) (hr : ∀ r ∈ cfg.rules, ¬op.DropsRule cfg r → r ∈ cfg'.rules) :
    op.Keeps cfg cfg' where
  server _ h _ := hs ▸ h
  rule := hr
  subscription _ h _ := hu ▸ h
  clear h _ := ⟨hs ▸ h.1, hl ▸ h.2⟩

-- A rule that is not at the index is elsewhere.
theorem mem_set_of_ne {α : Type} {l : List α} {i : Nat} {a b : α} (h : a ∈ l) (hn : l[i]? ≠ some a) :
    a ∈ l.set i b := by
  obtain ⟨j, hj, he⟩ := List.getElem_of_mem h
  have hij : i ≠ j := fun hij => hn (by simp [hij, hj, he])
  apply List.mem_of_getElem? (i := j)
  rw [List.getElem?_set_ne hij]
  simp [hj, he]

theorem mem_eraseIdx_of_ne {α : Type} {l : List α} {i : Nat} {a : α} (h : a ∈ l)
    (hn : l[i]? ≠ some a) : a ∈ l.eraseIdx i := by
  obtain ⟨j, hj, he⟩ := List.getElem_of_mem h
  have hij : j ≠ i := fun hij => hn (by simp [← hij, hj, he])
  exact List.mem_eraseIdx_iff_getElem?.mpr ⟨j, hij, by simp [hj, he]⟩

theorem mem_swapRules {r : Rule} (i j : Nat) (h : r ∈ cfg.rules) : r ∈ (cfg.swapRules i j).rules := by
  simp only [AppConfig.swapRules]
  split
  case h_2 => exact h
  case h_1 a b ha hb =>
    obtain ⟨k, hk, he⟩ := List.getElem_of_mem h
    obtain ⟨hi, hia⟩ := List.getElem?_eq_some_iff.mp ha
    obtain ⟨hj, hjb⟩ := List.getElem?_eq_some_iff.mp hb
    by_cases hki : k = i
    case pos =>
      subst hki
      exact List.mem_of_getElem? (i := j) (by simp [hj, ← hia, he])
    case neg =>
      by_cases hkj : k = j
      case pos =>
        subst hkj
        apply List.mem_of_getElem? (i := i)
        rw [List.getElem?_set_ne hki]
        simp [hi, ← hjb, he]
      case neg =>
        apply List.mem_of_getElem? (i := k)
        rw [List.getElem?_set_ne (Ne.symm hkj), List.getElem?_set_ne (Ne.symm hki)]
        simp [hk, he]

-- Every operation keeps what it is not asked to remove.
theorem write_keeps (h : op.write cfg = some cfg') : op.Keeps cfg cfg' := by
  cases writes h
  case importLink =>
    exact .of_append fun hp s hs => List.mem_singleton.mp hs ▸ hp.1 _ rfl
  case importUrl hu                => exact importUrl_keeps hu
  case importConfig                => exact .of_append fun hp s hs => hp s hs
  case updateSubscriptions fetch   => exact updateSubscriptions_keeps fetch
  case updateOneSubscription hf hr => exact updateOneSubscription_keeps hf hr
  case clearSubscriptionNodes =>
    have hp (s : ServerProfile) (hp : (!isSubscriptionNode cfg s) = false) :
        isSubscriptionNode cfg s = true := by simpa using hp
    exact .of_filter rfl (fun s _ => hp s) rfl rfl fun _ hu _ => hu
  case removeNode name =>
    exact .of_filter rfl (fun s _ hp => bne_eq_false_iff_eq.mp hp) rfl rfl fun _ hu _ => hu
  case addSubscription sub _       => exact addSubscription_keeps sub
  case removeSubscription hf       => exact removeSubscription_keeps hf
  case addRule                     => exact .of_rules rfl rfl rfl fun r hr _ => List.mem_append_left _ hr
  case updateRule                  => exact .of_rules rfl rfl rfl fun r hr hd => mem_set_of_ne hr hd
  case removeRule                  => exact .of_rules rfl rfl rfl fun r hr hd => mem_eraseIdx_of_ne hr hd
  case applyPreset                 => exact .of_rules rfl rfl rfl fun r _ hd => absurd trivial hd
  case moveRule index up j =>
    have hm : ∀ r ∈ cfg.rules, r ∈ (cfg.swapRules index j).rules := fun r hr => mem_swapRules index j hr
    obtain ⟨rules, he⟩ := cfg.swapRules_eq index j
    rw [he] at hm ⊢
    exact .of_rules rfl rfl rfl fun r hr _ => hm r hr
  case localWgEnsure =>
    exact .of_eq rfl rfl rfl fun _ hp lw hlw => Option.some.inj hlw ▸ hp
  case localWgSet =>
    refine .of_eq rfl rfl rfl fun hc _ lw hlw => ?_
    obtain ⟨lw', hm, he⟩ := Option.map_eq_some_iff.mp hlw
    exact he ▸ hc.2 lw' hm
  case settings hs hr hu hl        => exact .of_eq hs hr hu fun hc _ => hl ▸ hc.2

end Op
end JammVpn
