import JammVpn.Cli.Theorems.Ownership

-- Servers that an update or the removal of their subscription leaves behind.
namespace JammVpn

def ofSubscription (url : String) (entries : List NodeEntry) : List NodeEntry :=
  entries.filter (·.2 = some url)

namespace Tracked

-- What the operation saves.
def saved (t : Tracked) (op : Op) : List NodeEntry :=
  op.entries t.cfg t.entries

-- An update of one subscription that does not fail.
def Updates (t : Tracked) (url : String) (fetch : Subscription → Fetched) (servers : List ServerProfile)
    (tag : String) : Prop :=
  ∃ index sub title, t.cfg.findSubscription url = some (index, sub) ∧ fetch sub = .ok (servers, title) ∧
    tag = t.cfg.newTag index sub title

-- Of the subscription there is just what was delivered.
def Replaces (t : Tracked) (url : String) (fetch : Subscription → Fetched) : Prop :=
  ∀ servers tag, t.Updates url fetch servers tag →
    ofSubscription url (t.saved (.updateOneSubscription url fetch)) = (tagServers servers tag).map (·, some url)

def Removes (t : Tracked) (url : String) : Prop :=
  ofSubscription url (t.saved (.removeSubscription url)) = []

-- All servers of the subscription have the tag that it gets.
def Retagged (t : Tracked) (url : String) (fetch : Subscription → Fetched) : Prop :=
  ∀ servers tag, t.Updates url fetch servers tag → ∀ e ∈ t.entries, e.2 = some url → tag ∈ e.1.tags

-- They have the tag that it has.
def Found (t : Tracked) (url : String) : Prop :=
  ∀ e ∈ t.entries, e.2 = some url →
    ∃ sub, t.cfg.subscriptions.find? (·.url == url) = some sub ∧ subTag sub ∈ e.1.tags

variable {t : Tracked} {url : String} {fetch : Subscription → Fetched}

theorem ofSubscription_filter_eq_nil {entries : List NodeEntry} {tag : String} :
    ofSubscription url (entries.filter (tag ∉ ·.1.tags)) = [] ↔ ∀ e ∈ entries, e.2 = some url → tag ∈ e.1.tags := by
  simp only [ofSubscription, List.filter_filter, List.filter_eq_nil_iff, Bool.and_eq_true, decide_eq_true_eq,
    not_and, not_not]

theorem ofSubscription_delivered (servers : List ServerProfile) :
    ofSubscription url (servers.map (·, some url)) = servers.map (·, some url) := by
  refine List.filter_eq_self.mpr fun e he => ?_
  obtain ⟨s, _, rfl⟩ := List.mem_map.mp he
  exact decide_eq_true rfl

theorem Sound.saved_updateOne (h : t.Sound) {servers : List ServerProfile} {tag : String}
    (hu : t.Updates url fetch servers tag) :
    t.saved (.updateOneSubscription url fetch) =
      t.entries.filter (tag ∉ ·.1.tags) ++ (tagServers servers tag).map (·, some url) := by
  obtain ⟨index, sub, title, hf, hr, rfl⟩ := hu
  rw [← AppConfig.tagAt_eq_newTag h.tags (AppConfig.findSubscription_eq hf)]
  simp only [saved, Op.entries, AppConfig.deliveryAt, hf, hr]
  rfl

theorem Sound.replaces_iff (h : t.Sound) : t.Replaces url fetch ↔ t.Retagged url fetch := by
  refine forall₂_congr fun servers tag => forall_congr' fun hu => ?_
  rw [h.saved_updateOne hu, ← ofSubscription_filter_eq_nil, ofSubscription, List.filter_append,
    ← ofSubscription, ← ofSubscription, ofSubscription_delivered]
  exact List.append_left_eq_self

theorem removes_iff : t.Removes url ↔ t.Found url := by
  rw [Removes, saved, Op.entries]
  cases hf : t.cfg.subscriptions.find? (·.url == url)
  case none =>
    simp only [Found, hf, ofSubscription, List.filter_eq_nil_iff, decide_eq_true_eq, reduceCtorEq, false_and,
      exists_false]
  case some sub =>
    simp only [Found, hf, Option.some.injEq, exists_eq_left']
    exact ofSubscription_filter_eq_nil

end Tracked

section Keys

variable {cfg cfg' : AppConfig}

-- The subscriptions, and the tags that their servers are found by.
def keys (subs : List Subscription) : List (String × String) :=
  subs.map fun sub => (sub.url, subTag sub)

theorem keys_distinctSubTags (subs : List Subscription) :
    keys (distinctSubTags [] subs) = (subs.map (·.url)).zip (freshTags [] (subs.map subTag)) := by
  rw [← urls_distinctSubTags [] subs, ← subTags_distinctSubTags, List.zip_map']
  rfl

-- Distinct tags stay when subscriptions are appended.
theorem keys_append_distinctSubTags {subs : List Subscription} (hd : (subs.map subTag).Nodup)
    (more : List Subscription) :
    ∃ new, keys (distinctSubTags [] (subs ++ more)) = keys subs ++ new := by
  have hl : (subs.map (·.url)).length = (subs.map subTag).length := by rw [List.length_map, List.length_map]
  rw [keys_distinctSubTags, List.map_append, List.map_append, freshTags_append hd fun _ _ => List.not_mem_nil,
    List.zip_append hl, List.zip_map']
  exact ⟨_, rfl⟩

theorem keys_distinctSubTags_of_nodup {subs : List Subscription} (hd : (subs.map subTag).Nodup) :
    keys (distinctSubTags [] subs) = keys subs := by
  rw [keys_distinctSubTags, ← List.append_nil (subs.map subTag), freshTags_append hd fun _ _ => List.not_mem_nil,
    freshTags, List.append_nil, List.zip_map']
  rfl

theorem url_of_find {subs : List Subscription} {url : String} {sub : Subscription}
    (h : subs.find? (·.url == url) = some sub) : sub.url = url := by
  simpa using List.find?_some h

theorem tag_unique {subs : List Subscription} (hn : (subs.map (·.url)).Nodup) {url tag : String}
    {sub : Subscription} (hs : sub ∈ subs) (hu : sub.url = url) (hk : (url, tag) ∈ keys subs) :
    tag = subTag sub := by
  obtain ⟨sub', hs', he⟩ := List.mem_map.mp hk
  cases he
  rw [List.inj_on_of_nodup_map hn hs' hs hu.symm]

-- The titles that come with an update are the tags that the subscriptions have.
def Op.KeepsTitles (cfg : AppConfig) : Op → Prop
  | updateSubscriptions fetch =>
    ∀ sub ∈ cfg.subscriptions, ∀ servers title, fetch sub = .ok (servers, title) →
      subTag (AppConfig.retitle title sub) = subTag sub
  | updateOneSubscription url fetch =>
    ∀ index sub servers title, cfg.findSubscription url = some (index, sub) →
      fetch sub = .ok (servers, title) → subTag (AppConfig.retitle title sub) = subTag sub
  | _ => True

theorem AppConfig.newTags_of_keepsTitles {fetch : Subscription → Fetched}
    (hd : (cfg.subscriptions.map subTag).Nodup) (hk : (Op.updateSubscriptions fetch).KeepsTitles cfg) :
    cfg.newTags fetch = cfg.subscriptions.map subTag := by
  have hw : cfg.subscriptions.map (fun sub => wantedTag sub (fetch sub)) = cfg.subscriptions.map subTag := by
    refine List.map_congr_left fun sub hs => ?_
    cases hf : fetch sub
    case error   => rfl
    case ok r =>
      obtain ⟨servers, title⟩ := r
      exact hk sub hs servers title hf
  rw [newTags, hw, ← List.append_nil (cfg.subscriptions.map subTag),
    freshTags_append hd fun _ _ => List.not_mem_nil, freshTags, List.append_nil]

theorem AppConfig.keys_retitled {fetch : Subscription → Fetched} (hd : (cfg.subscriptions.map subTag).Nodup)
    (hk : (Op.updateSubscriptions fetch).KeepsTitles cfg) :
    keys (cfg.retitled fetch).subscriptions = keys cfg.subscriptions := by
  rw [keys, ← List.zip_map', urls_retitled, subTags_retitled, newTags_of_keepsTitles hd hk, List.zip_map']
  rfl

theorem AppConfig.newTag_of_keepsTitles {url : String} {fetch : Subscription → Fetched} {index : Nat}
    {sub : Subscription} {servers : List ServerProfile} {title : Option String}
    (hd : (cfg.subscriptions.map subTag).Nodup) (hk : (Op.updateOneSubscription url fetch).KeepsTitles cfg)
    (hf : cfg.findSubscription url = some (index, sub)) (hr : fetch sub = .ok (servers, title)) :
    cfg.newTag index sub title = subTag sub := by
  rw [newTag, hk index sub servers title hf hr]
  refine freshName_of_not_mem fun hm => ?_
  rw [List.mem_reverse, List.map_take] at hm
  have hi : (cfg.subscriptions.map subTag)[index]? = some (subTag sub) := by
    rw [List.getElem?_map, findSubscription_eq hf]
    rfl
  obtain ⟨hl, he⟩ := List.getElem?_eq_some_iff.mp hi
  obtain ⟨k, hk, hke⟩ := List.mem_take_iff_getElem.mp hm
  have hlt : k < index := (Nat.lt_min.mp hk).1
  have := (List.Nodup.getElem_inj_iff hd).mp (hke.trans he.symm)
  omega

theorem AppConfig.keys_retitledAt {url : String} {fetch : Subscription → Fetched} {index : Nat}
    {sub : Subscription} {servers : List ServerProfile} {title : Option String}
    (hd : (cfg.subscriptions.map subTag).Nodup) (hk : (Op.updateOneSubscription url fetch).KeepsTitles cfg)
    (hf : cfg.findSubscription url = some (index, sub)) (hr : fetch sub = .ok (servers, title)) :
    keys (cfg.retitledAt index sub title).subscriptions = keys cfg.subscriptions := by
  obtain ⟨hl, hi⟩ := List.getElem?_eq_some_iff.mp (findSubscription_eq hf)
  have hset {α : Type} (f : Subscription → α) (he : f (retitle title sub) = f sub) :
      (cfg.subscriptions.set index (retitle title sub)).map f = cfg.subscriptions.map f := by
    have hl' : index < (cfg.subscriptions.map f).length := by rwa [List.length_map]
    have hg : f sub = (cfg.subscriptions.map f)[index] := by rw [List.getElem_map, hi]
    rw [List.map_set, he, hg, List.set_getElem_self]
  have htag := hk index sub servers title hf hr
  rw [retitledAt, ensureDistinctSubTags, keys_distinctSubTags_of_nodup (by rwa [hset subTag htag])]
  exact hset _ (by rw [htag, url_retitle])

theorem mem_tags_of_mem_tagServers {servers : List ServerProfile} {tag : String} {s : ServerProfile}
    (h : s ∈ tagServers servers tag) : tag ∈ s.tags := by
  obtain ⟨p, _, rfl⟩ := List.mem_map.mp h
  split
  case isTrue hp => exact hp
  case isFalse   => exact List.mem_append_right _ (List.mem_singleton_self tag)

theorem mem_deliver {ds : List Delivery} {entries : List NodeEntry} {e : NodeEntry} (h : e ∈ deliver ds entries) :
    e ∈ entries ∨ ∃ d ∈ ds, d.tag ∈ e.1.tags ∧ e.2 = some d.url := by
  induction ds generalizing entries
  case nil => exact .inl h
  case cons d ds hi =>
    obtain h | ⟨d', hd, h⟩ := hi h
    case inr => exact .inr ⟨d', List.mem_cons_of_mem d hd, h⟩
    case inl =>
      obtain h | h := List.mem_append.mp h
      case inl => exact .inl (List.mem_of_mem_filter h)
      case inr =>
        obtain ⟨s, hs, rfl⟩ := List.mem_map.mp h
        exact .inr ⟨d, List.mem_cons_self, mem_tags_of_mem_tagServers hs, rfl⟩

-- The server can be found by the tag of the subscription that it is from.
def HasTag (subs : List Subscription) (e : NodeEntry) : Prop :=
  ∀ url, e.2 = some url → ∃ tag, (url, tag) ∈ keys subs ∧ tag ∈ e.1.tags

theorem HasTag.mono {subs subs' : List Subscription} {e : NodeEntry} (h : HasTag subs e)
    (hk : keys subs ⊆ keys subs') : HasTag subs' e := by
  intro url hu
  obtain ⟨tag, hm, ht⟩ := h url hu
  exact ⟨tag, hk hm, ht⟩

theorem hasTag_deliver {subs subs' : List Subscription} {ds : List Delivery} {entries : List NodeEntry}
    (h : ∀ e ∈ entries, HasTag subs e) (hk : keys subs ⊆ keys subs')
    (hd : ∀ d ∈ ds, (d.url, d.tag) ∈ keys subs') : ∀ e ∈ deliver ds entries, HasTag subs' e := by
  intro e he
  obtain he | ⟨d, hm, ht, hu⟩ := mem_deliver he
  case inl => exact (h e he).mono hk
  case inr =>
    intro url hurl
    cases hu.symm.trans hurl
    exact ⟨d.tag, hd d hm, ht⟩

theorem AppConfig.keys_withSubscription (hd : (cfg.subscriptions.map subTag).Nodup) (sub : Subscription) :
    keys cfg.subscriptions ⊆ keys (cfg.withSubscription sub).subscriptions := by
  rw [withSubscription]
  split
  case isTrue => exact keys_distinctSubTags_of_nodup hd ▸ List.Subset.refl _
  case isFalse =>
    obtain ⟨new, he⟩ := keys_append_distinctSubTags hd [sub]
    exact he ▸ List.subset_append_left _ new

theorem AppConfig.importTag_mem_keys (sub : Subscription) :
    (sub.url, cfg.importTag sub) ∈ keys (cfg.withSubscription sub).subscriptions := by
  have hm : sub.url ∈ (cfg.withSubscription sub).subscriptions.map (·.url) := by
    rw [withSubscription, ensureDistinctSubTags, urls_distinctSubTags]
    split
    case isTrue h =>
      obtain ⟨s, hs, hu⟩ := List.any_eq_true.mp h
      exact List.mem_map.mpr ⟨s, hs, beq_iff_eq.mp hu⟩
    case isFalse => simp
  obtain ⟨s, hs, hu⟩ := List.mem_map.mp hm
  cases hf : (cfg.withSubscription sub).subscriptions.find? (·.url == sub.url)
  case none => exact absurd (beq_iff_eq.mpr hu) (List.find?_eq_none.mp hf s hs)
  case some found =>
    rw [importTag, hf, ← url_of_find hf]
    exact List.mem_map_of_mem (List.mem_of_find?_eq_some hf)

end Keys

section Steps

variable {cfg cfg' : AppConfig} {op : Op} {entries : List NodeEntry}

theorem hasTag_updateSubscriptions {fetch : Subscription → Fetched} (hd : (cfg.subscriptions.map subTag).Nodup)
    (hk : (Op.updateSubscriptions fetch).KeepsTitles cfg) (h : ∀ e ∈ entries, HasTag cfg.subscriptions e) :
    ∀ e ∈ (Op.updateSubscriptions fetch).entries cfg entries, HasTag (cfg.refresh fetch).subscriptions e := by
  obtain ⟨servers, he⟩ := @foldl_replaceNodes_eq (cfg.retitled fetch) (cfg.groups fetch)
  have hkeys := AppConfig.keys_retitled hd hk
  rw [AppConfig.refresh, he]
  refine hasTag_deliver h (hkeys ▸ List.Subset.refl _) fun d hm => ?_
  obtain ⟨i, sub, servers, title, tag, hs, _, ht, rfl⟩ := AppConfig.mem_deliveries_iff.mp hm
  rw [AppConfig.newTags_of_keepsTitles hd hk, List.getElem?_map, hs] at ht
  cases ht
  exact hkeys ▸ List.mem_map_of_mem (List.mem_of_getElem? hs)

theorem hasTag_updateOneSubscription {url : String} {fetch : Subscription → Fetched} {index : Nat}
    {sub : Subscription} {servers : List ServerProfile} {title : Option String}
    (hd : (cfg.subscriptions.map subTag).Nodup) (hk : (Op.updateOneSubscription url fetch).KeepsTitles cfg)
    (hf : cfg.findSubscription url = some (index, sub)) (hr : fetch sub = .ok (servers, title))
    (h : ∀ e ∈ entries, HasTag cfg.subscriptions e) :
    ∀ e ∈ (Op.updateOneSubscription url fetch).entries cfg entries,
      HasTag (cfg.refreshAt index sub servers title).subscriptions e := by
  have hkeys := AppConfig.keys_retitledAt hd hk hf hr
  have hi := AppConfig.findSubscription_eq hf
  refine hasTag_deliver h (hkeys ▸ List.Subset.refl _) fun d hm => ?_
  simp only [AppConfig.deliveryAt, hf, hr, List.mem_singleton] at hm
  rw [hm, AppConfig.tagAt_eq_newTag hd hi, AppConfig.newTag_of_keepsTitles hd hk hf hr,
    ← AppConfig.findSubscription_url hf]
  exact hkeys ▸ List.mem_map_of_mem (List.mem_of_getElem? hi)

theorem hasTag_removeSubscription {url : String} {sub : Subscription}
    (hn : (cfg.subscriptions.map (·.url)).Nodup) (hf : cfg.subscriptions.find? (·.url == url) = some sub)
    (h : ∀ e ∈ entries, HasTag cfg.subscriptions e) :
    ∀ e ∈ entries.filter (subTag sub ∉ ·.1.tags), HasTag (cfg.subscriptions.filter (·.url != url)) e := by
  intro e he u hu
  obtain ⟨hm, ht⟩ := List.mem_filter.mp he
  obtain ⟨tag, hk, htag⟩ := h e hm u hu
  refine ⟨tag, ?_, htag⟩
  by_cases hurl : u = url
  case pos =>
    have hs := tag_unique hn (List.mem_of_find?_eq_some hf) ((url_of_find hf).trans hurl.symm) hk
    exact absurd (hs ▸ htag) (of_decide_eq_true ht)
  case neg =>
    obtain ⟨s, hs, hse⟩ := List.mem_map.mp hk
    cases hse
    exact List.mem_map_of_mem (List.mem_filter.mpr ⟨hs, bne_iff_ne.mpr hurl⟩)

theorem hasTag_of_writes (hw : Op.Writes cfg op cfg') (hn : (cfg.subscriptions.map (·.url)).Nodup)
    (hd : (cfg.subscriptions.map subTag).Nodup) (hk : op.KeepsTitles cfg)
    (h : ∀ e ∈ entries, HasTag cfg.subscriptions e) :
    ∀ e ∈ op.entries cfg entries, HasTag cfg'.subscriptions e := by
  have happend (new : List ServerProfile) : ∀ e ∈ entries ++ new.map (·, none), HasTag cfg.subscriptions e := by
    intro e he url hu
    obtain he | he := List.mem_append.mp he
    case inl => exact h e he url hu
    case inr =>
      obtain ⟨s, _, rfl⟩ := List.mem_map.mp he
      cases hu
  cases hw
  case importLink arg p fetched hu =>
    simp only [Op.entries, hu, Bool.false_eq_true, if_false]
    exact happend [p]
  case importUrl arg parsed servers title hu =>
    simp only [Op.entries, hu, if_true]
    refine hasTag_deliver h (AppConfig.keys_withSubscription hd _) fun d hm => ?_
    rw [List.mem_singleton.mp hm]
    exact AppConfig.importTag_mem_keys _
  case importConfig parsed         => exact happend _
  case updateSubscriptions fetch   => exact hasTag_updateSubscriptions hd hk h
  case updateOneSubscription hf hr => exact hasTag_updateOneSubscription hd hk hf hr h
  case clearSubscriptionNodes      => exact fun e he => h e (List.mem_of_mem_filter he)
  case removeNode                  => exact fun e he => h e (List.mem_of_mem_filter he)
  case addSubscription sub hno     =>
    obtain ⟨new, hkeys⟩ := keys_append_distinctSubTags hd [sub]
    exact fun e he => (h e he).mono (hkeys ▸ List.subset_append_left _ new)
  case removeSubscription url sub hf =>
    simp only [Op.entries, hf]
    exact hasTag_removeSubscription hn hf h
  case moveRule index up j =>
    obtain ⟨rules, he⟩ := cfg.swapRules_eq index j
    rw [he]
    exact h
  case settings ho _ _ hu _ =>
    rw [hu]
    cases op <;> first | exact h | exact ho.elim
  all_goals exact h

end Steps

namespace Tracked

variable {t : Tracked} {op : Op}

def Tagged (t : Tracked) : Prop :=
  ∀ e ∈ t.entries, HasTag t.cfg.subscriptions e

-- Loading what was saved changes names at most.
theorem mem_entries_step {cfg : AppConfig} (h : t.Sound) (hw : op.write t.cfg = some cfg) {e : NodeEntry}
    (he : e ∈ (t.step op).entries) : ∃ e' ∈ t.saved op, e'.1.tags = e.1.tags ∧ e'.2 = e.2 := by
  have hs := (Op.write_effect hw).servers _ h.map_fst
  have hb := bodies_distinctNodeNames [] cfg.servers
  simp only [Tracked.step, hw] at he
  obtain ⟨i, hi⟩ := List.getElem?_of_mem he
  obtain ⟨hserver, howner⟩ := List.getElem?_zip_eq_some.mp hi
  rw [List.getElem?_map] at howner
  obtain ⟨e', he', ho⟩ := Option.map_eq_some_iff.mp howner
  refine ⟨e', List.mem_of_getElem? he', ?_, ho⟩
  have hbi := congrArg (·[i]?) hb
  have hfst : cfg.servers[i]? = some e'.1 := by rw [← hs, List.getElem?_map, he']; rfl
  have hname : (distinctNodeNames [] cfg.servers)[i]? = some e.1 := hserver
  simp only [List.getElem?_map, hfst, hname, Option.map_some, Option.some.injEq] at hbi
  exact (congrArg ServerProfile.tags hbi).symm

theorem Tagged.step (ht : t.Tagged) (h : t.Sound) (hk : op.KeepsTitles t.cfg) : (t.step op).Tagged := by
  cases hw : op.write t.cfg
  case none =>
    have hstep : t.step op = t := by simp only [Tracked.step, hw]
    rwa [hstep]
  case some cfg =>
    intro e he url hu
    obtain ⟨e', hm, htags, ho⟩ := mem_entries_step h hw he
    have hsubs : (t.step op).cfg.subscriptions = cfg.subscriptions := by
      simp only [Tracked.step, hw]
      rfl
    rw [hsubs, ← htags]
    exact hasTag_of_writes (Op.writes hw) h.urls h.tags hk ht e' hm url (ho.trans hu)

-- No update of the run brings another title.
def KeepsTitles (ops : List Op) : Prop :=
  ∀ front op, front ++ [op] <+: ops → op.KeepsTitles (run front).cfg

theorem run_append_singleton (ops : List Op) (op : Op) : run (ops ++ [op]) = (run ops).step op := by
  rw [run, List.foldl_append]
  rfl

theorem Tagged.run {ops : List Op} (h : KeepsTitles ops) : (run ops).Tagged := by
  induction ops using List.reverseRecOn
  case nil => exact fun e he => absurd he List.not_mem_nil
  case append_singleton ops op hi =>
    rw [run_append_singleton]
    have hops : KeepsTitles ops := fun front op' hp => h front op' (hp.trans (List.prefix_append ops [op]))
    exact (hi hops).step (.run ops) (h ops op (List.prefix_refl _))

theorem Tagged.found (ht : t.Tagged) (h : t.Sound) (url : String) : t.Found url := by
  intro e he hu
  obtain ⟨tag, hk, htag⟩ := ht e he url hu
  obtain ⟨s, hs, hse⟩ := List.mem_map.mp hk
  cases hse
  cases hf : t.cfg.subscriptions.find? (·.url == s.url)
  case none => exact absurd (beq_self_eq_true s.url) (List.find?_eq_none.mp hf s hs)
  case some sub =>
    refine ⟨sub, rfl, ?_⟩
    rwa [← tag_unique h.urls (List.mem_of_find?_eq_some hf) (url_of_find hf) hk]

theorem Tagged.retagged (ht : t.Tagged) (h : t.Sound) {url : String} {fetch : Subscription → Fetched}
    (hk : (Op.updateOneSubscription url fetch).KeepsTitles t.cfg) : t.Retagged url fetch := by
  rintro servers _ ⟨index, sub, title, hf, hr, rfl⟩ e he hu
  obtain ⟨tag, hkey, htag⟩ := ht e he url hu
  have hs := List.mem_of_getElem? (AppConfig.findSubscription_eq hf)
  rw [AppConfig.newTag_of_keepsTitles h.tags hk hf hr, ← tag_unique h.urls hs (AppConfig.findSubscription_url hf) hkey]
  exact htag

end Tracked

-- A subscription delivers a server, and then its title is X.
def delivered : List Op :=
  [.addSubscription "https://a/" none 0, .updateOneSubscription "https://a/" fun _ => .ok ([takenNode], none)]

def retitling (_ : Subscription) : Fetched :=
  .ok ([takenNode], some "X")

theorem servers_left_behind :
    (¬∀ ops url fetch, (Tracked.run ops).Replaces url fetch) ∧ ¬∀ ops url, (Tracked.run ops).Removes url := by
  constructor
  case left =>
    intro h
    have hf : (Tracked.run delivered).cfg.findSubscription "https://a/" =
        some (0, { url := "https://a/", tag := some "a", updateIntervalHours := 12 }) := by decide +kernel
    have he := congrArg List.length (h delivered "https://a/" retitling [takenNode] _ ⟨_, _, _, hf, rfl, rfl⟩)
    rw [List.length_map, tagServers, List.length_map] at he
    exact absurd he (by decide +kernel)
  case right =>
    intro h
    have he := h (delivered ++ [.updateOneSubscription "https://a/" retitling]) "https://a/"
    rw [Tracked.Removes] at he
    exact absurd he (by decide +kernel)

-- After every run an update, or a removal, leaves none of the old servers just when they all have the tag
-- that it looks for. They have it if no update of the run has brought another title.
theorem no_orphans_iff (ops : List Op) :
    (∀ op cfg, op.write (Tracked.run ops).cfg = some cfg →
      ((Tracked.run ops).saved op).map Prod.fst = cfg.servers) ∧
    (∀ url fetch, (Tracked.run ops).Replaces url fetch ↔ (Tracked.run ops).Retagged url fetch) ∧
    (∀ url, (Tracked.run ops).Removes url ↔ (Tracked.run ops).Found url) ∧
    (Tracked.KeepsTitles ops →
      (∀ url fetch, (Op.updateOneSubscription url fetch).KeepsTitles (Tracked.run ops).cfg →
        (Tracked.run ops).Replaces url fetch) ∧
      ∀ url, (Tracked.run ops).Removes url) := by
  have hs := Tracked.Sound.run ops
  refine ⟨fun op cfg hw => (Op.write_effect hw).servers _ hs.map_fst, fun url fetch => hs.replaces_iff,
    fun url => Tracked.removes_iff, fun hk => ⟨fun url fetch hf => ?_, fun url => ?_⟩⟩
  · exact hs.replaces_iff.mpr ((Tracked.Tagged.run hk).retagged hs hf)
  · exact Tracked.removes_iff.mpr ((Tracked.Tagged.run hk).found hs url)

end JammVpn
