import JammVpn.Cli.Theorems.Distinct

-- Which subscription has last delivered a server.
namespace JammVpn

-- A server of the configuration, and the URL of the subscription that has delivered it. A server that
-- was imported by hand has none.
abbrev NodeEntry := ServerProfile × Option String

-- Servers that come from a subscription.
structure Delivery where
  url     : String
  tag     : String
  servers : List ServerProfile

-- The servers with its tag make room for those that it delivers.
def Delivery.apply (d : Delivery) (entries : List NodeEntry) : List NodeEntry :=
  entries.filter (d.tag ∉ ·.1.tags) ++ (tagServers d.servers d.tag).map (·, some d.url)

def AppConfig.deliveries (cfg : AppConfig) (fetch : Subscription → Fetched) : List Delivery :=
  ((cfg.retitled fetch).subscriptions.zip (cfg.subscriptions.map fetch)).filterMap fun
    | (sub, .ok (servers, _)) => some { url := sub.url, tag := subTag sub, servers }
    | (_, .error _)           => none

def AppConfig.deliveryAt (cfg : AppConfig) (url : String) (fetch : Subscription → Fetched) : List Delivery :=
  match cfg.findSubscription url with
  | some (index, sub) =>
    match fetch sub with
    | .ok (servers, title) => [{ url, tag := cfg.tagAt index sub title, servers }]
    | .error _             => []
  | none => []

def AppConfig.importDelivery (cfg : AppConfig) (arg : String) : Fetched → List Delivery
  | .ok (servers, title) =>
    [{ url := arg, tag := cfg.importTag { url := arg, tag := title, updateIntervalHours := 12 }, servers }]
  | .error _ => []

def deliver (ds : List Delivery) (entries : List NodeEntry) : List NodeEntry :=
  ds.foldl (fun es d => d.apply es) entries

-- What an operation does with the servers, with their owners.
def Op.entries (op : Op) (cfg : AppConfig) (entries : List NodeEntry) : List NodeEntry :=
  match op with
  | importNode arg parsed fetched =>
    if isHttpUrl arg then deliver (cfg.importDelivery arg fetched) entries
    else match parsed with
    | .ok profile => entries ++ [(profile, none)]
    | .error _    => entries
  | importConfig _ _ parsed         => entries ++ (importedProfiles parsed).map (·, none)
  | updateSubscriptions fetch       => deliver (cfg.deliveries fetch) entries
  | updateOneSubscription url fetch => deliver (cfg.deliveryAt url fetch) entries
  | clearSubscriptionNodes          => entries.filter (!isSubscriptionNode cfg ·.1)
  | removeNode name                 => entries.filter (·.1.name != name)
  | removeSubscription url          =>
    match cfg.subscriptions.find? (·.url == url) with
    | some sub => entries.filter (subTag sub ∉ ·.1.tags)
    | none     => entries
  | _ => entries

section Erase

variable {cfg cfg' : AppConfig} {entries : List NodeEntry}

theorem Delivery.map_fst_apply (d : Delivery) (h : entries.map Prod.fst = cfg.servers) :
    (d.apply entries).map Prod.fst = (cfg.replaceNodes d.tag d.servers).servers := by
  simp [apply, AppConfig.replaceNodes, ← h, List.filter_map, Function.comp_def]

theorem map_fst_deliver (ds : List Delivery) (h : entries.map Prod.fst = cfg.servers) :
    (deliver ds entries).map Prod.fst =
      (ds.foldl (fun c d => c.replaceNodes d.tag d.servers) cfg).servers := by
  induction ds generalizing cfg entries
  case nil          => exact h
  case cons d ds hi => exact hi (d.map_fst_apply h)

theorem AppConfig.groups_eq (fetch : Subscription → Fetched) :
    cfg.groups fetch = (cfg.deliveries fetch).map fun d => (d.tag, d.servers) := by
  rw [groups, deliveries, List.map_filterMap]
  refine List.filterMap_congr fun p _ => ?_
  obtain ⟨sub, r⟩ := p
  cases r <;> rfl

theorem AppConfig.urls_retitled (fetch : Subscription → Fetched) :
    (cfg.retitled fetch).subscriptions.map (·.url) = cfg.subscriptions.map (·.url) := by
  rw [retitled, ensureDistinctSubTags, urls_distinctSubTags, List.map_map]
  refine List.map_congr_left fun sub _ => ?_
  rw [Function.comp_apply]
  split
  case h_1 => exact url_retitle _ sub
  case h_2 => rfl

end Erase

-- What an operation does with the servers and the subscriptions.
structure Op.Effect (op : Op) (cfg cfg' : AppConfig) : Prop where
  servers : ∀ entries : List NodeEntry, entries.map Prod.fst = cfg.servers →
    (op.entries cfg entries).map Prod.fst = cfg'.servers
  urls : (cfg.subscriptions.map (·.url)).Nodup → (cfg'.subscriptions.map (·.url)).Nodup
  tags : (cfg.subscriptions.map subTag).Nodup → (cfg'.subscriptions.map subTag).Nodup

namespace Op

variable {op : Op} {cfg cfg' : AppConfig}

theorem Effect.of_eq (he : ∀ entries, op.entries cfg entries = entries) (hs : cfg'.servers = cfg.servers)
    (hu : cfg'.subscriptions = cfg.subscriptions) : op.Effect cfg cfg' where
  servers entries h := by rw [he, h, hs]
  urls h := hu ▸ h
  tags h := hu ▸ h

-- The tags are made distinct last.
theorem Effect.of_distinct {subs : List Subscription}
    (hs : ∀ entries : List NodeEntry, entries.map Prod.fst = cfg.servers →
      (op.entries cfg entries).map Prod.fst = cfg'.servers)
    (hu : cfg'.subscriptions = distinctSubTags [] subs)
    (hn : (cfg.subscriptions.map (·.url)).Nodup → (subs.map (·.url)).Nodup) : op.Effect cfg cfg' where
  servers := hs
  urls h := by
    rw [hu, urls_distinctSubTags]
    exact hn h
  tags _ := by
    rw [hu, subTags_distinctSubTags]
    exact (nodup_freshTags [] _).1

theorem nodup_urls_append {sub : Subscription} (h : ¬cfg.subscriptions.any (·.url == sub.url))
    (hn : (cfg.subscriptions.map (·.url)).Nodup) : ((cfg.subscriptions ++ [sub]).map (·.url)).Nodup := by
  rw [List.map_append, List.nodup_append_comm]
  refine List.nodup_cons.mpr ⟨fun hm => ?_, hn⟩
  obtain ⟨s, hs, hu⟩ := List.mem_map.mp hm
  exact h (List.any_eq_true.mpr ⟨s, hs, beq_iff_eq.mpr hu⟩)

theorem importUrl_effect {arg : String} {parsed : Except ParseError ServerProfile}
    {servers : List ServerProfile} {title : Option String} (hu : isHttpUrl arg = true) :
    (importNode arg parsed (.ok (servers, title))).Effect cfg
      (cfg.importSubscription { url := arg, tag := title, updateIntervalHours := 12 } servers) := by
  obtain ⟨subs, he⟩ := @withSubscription_eq cfg { url := arg, tag := title, updateIntervalHours := 12 }
  refine .of_distinct (fun es hes => ?_) rfl fun hn => ?_
  · simp only [Op.entries, hu, if_true]
    refine map_fst_deliver _ ?_
    rw [he]
    exact hes
  · split
    case isTrue      => exact hn
    case isFalse hno => exact nodup_urls_append hno hn

theorem updateSubscriptions_effect (fetch : Subscription → Fetched) :
    (updateSubscriptions fetch).Effect cfg (cfg.refresh fetch) := by
  obtain ⟨servers, he⟩ := @foldl_replaceNodes_eq (cfg.retitled fetch) (cfg.groups fetch)
  refine .of_distinct (fun es hes => ?_) (by rw [AppConfig.refresh, he]; rfl) fun hn => ?_
  · rw [AppConfig.refresh, AppConfig.groups_eq, List.foldl_map]
    exact @map_fst_deliver (cfg.retitled fetch) es _ hes
  · have hu := @AppConfig.urls_retitled cfg fetch
    rw [AppConfig.retitled, ensureDistinctSubTags, urls_distinctSubTags] at hu
    rwa [hu]

theorem updateOneSubscription_effect {url : String} {fetch : Subscription → Fetched} {index : Nat}
    {sub : Subscription} {servers : List ServerProfile} {title : Option String}
    (hf : cfg.findSubscription url = some (index, sub)) (hr : fetch sub = .ok (servers, title)) :
    (updateOneSubscription url fetch).Effect cfg (cfg.refreshAt index sub servers title) := by
  refine .of_distinct (fun es hes => ?_) rfl fun hn => ?_
  · simp only [Op.entries, AppConfig.deliveryAt, hf, hr]
    exact @map_fst_deliver (cfg.retitledAt index sub title) es _ hes
  · have hu : (cfg.subscriptions.map (·.url))[index]? = some sub.url := by
      simp [AppConfig.findSubscription_eq hf]
    obtain ⟨hl, he⟩ := List.getElem?_eq_some_iff.mp hu
    rwa [List.map_set, url_retitle, ← he, List.set_getElem_self]

-- An operation that only filters the servers.
theorem Effect.of_filter {p : ServerProfile → Bool}
    (he : ∀ es : List NodeEntry, op.entries cfg es = es.filter (p ·.1))
    (hs : cfg'.servers = cfg.servers.filter p) (hu : cfg'.subscriptions.Sublist cfg.subscriptions) :
    op.Effect cfg cfg' where
  servers es h := by
    rw [he, hs, ← h, List.filter_map]
    rfl
  urls h := h.sublist (hu.map _)
  tags h := h.sublist (hu.map _)

-- An operation that only appends servers, which come from no subscription.
theorem Effect.of_append {new : List ServerProfile}
    (he : ∀ es : List NodeEntry, op.entries cfg es = es ++ new.map (·, none)) :
    op.Effect cfg { cfg with servers := cfg.servers ++ new } where
  servers es h := by simp [he, h, Function.comp_def]
  urls := id
  tags := id

theorem write_effect (h : op.write cfg = some cfg') : op.Effect cfg cfg' := by
  cases writes h
  case importLink hu =>
    refine .of_append fun es => ?_
    simp only [Op.entries, hu, Bool.false_eq_true, if_false]
    rfl
  case importUrl hu                => exact importUrl_effect hu
  case importConfig                => exact .of_append fun _ => rfl
  case updateSubscriptions fetch   => exact updateSubscriptions_effect fetch
  case updateOneSubscription hf hr => exact updateOneSubscription_effect hf hr
  case clearSubscriptionNodes      => exact .of_filter (fun _ => rfl) rfl (List.Sublist.refl _)
  case removeNode                  => exact .of_filter (fun _ => rfl) rfl (List.Sublist.refl _)
  case addSubscription hno         => exact .of_distinct (fun _ hes => hes) rfl (nodup_urls_append hno)
  case removeSubscription hf       =>
    exact .of_filter (fun es => by simp only [Op.entries, hf]) rfl List.filter_sublist
  case moveRule index up j =>
    obtain ⟨rules, he⟩ := cfg.swapRules_eq index j
    rw [he]
    exact .of_eq (fun _ => rfl) rfl rfl
  case settings ho hs _ hu _ =>
    refine .of_eq (fun es => ?_) hs hu
    cases op <;> first | rfl | exact ho.elim
  all_goals exact .of_eq (fun _ => rfl) rfl rfl

end Op

-- A configuration as an operation loads it, and who owns its servers.
structure Tracked where
  cfg    : AppConfig
  owners : List (Option String)

namespace Tracked

def entries (t : Tracked) : List NodeEntry :=
  t.cfg.servers.zip t.owners

def start : Tracked where
  cfg := sanitizeConfig {}
  owners := []

-- What an operation saves is loaded by the next one.
def step (t : Tracked) (op : Op) : Tracked :=
  match op.write t.cfg with
  | some cfg => { cfg := sanitizeConfig cfg, owners := (op.entries t.cfg t.entries).map Prod.snd }
  | none     => t

def run (ops : List Op) : Tracked :=
  ops.foldl step start

structure Sound (t : Tracked) : Prop where
  length : t.owners.length = t.cfg.servers.length
  names  : (t.cfg.servers.map (·.name)).Nodup
  urls   : (t.cfg.subscriptions.map (·.url)).Nodup
  tags   : (t.cfg.subscriptions.map subTag).Nodup

variable {t : Tracked} {op : Op}

theorem Sound.map_fst (h : t.Sound) : t.entries.map Prod.fst = t.cfg.servers :=
  List.map_fst_zip h.length.ge

theorem Sound.step (h : t.Sound) (op : Op) : (t.step op).Sound := by
  rw [Tracked.step]
  split
  case h_2 => exact h
  case h_1 cfg hw =>
    have he := Op.write_effect hw
    have hs := congrArg List.length (he.servers _ h.map_fst)
    rw [List.length_map] at hs
    refine ⟨?_, (names_distinctNodeNames [] cfg.servers).1, he.urls h.urls, he.tags h.tags⟩
    rw [List.length_map, hs]
    exact (length_distinctNodeNames [] cfg.servers).symm

theorem Sound.run (ops : List Op) : (run ops).Sound := by
  have hall : ∀ t : Tracked, t.Sound → (ops.foldl Tracked.step t).Sound := by
    induction ops
    case nil            => exact fun _ h => h
    case cons op ops hi => exact fun t h => hi _ (h.step op)
  exact hall _ ⟨rfl, List.nodup_nil, List.nodup_nil, List.nodup_nil⟩

-- The servers of some owners are there after the operation as before it, and in the same order.
def Keeps (p : Option String → Bool) (t : Tracked) (op : Op) : Prop :=
  (t.step op).entries.filter (p ·.2) = t.entries.filter (p ·.2)

-- The servers whose tag none of the deliveries has.
def spare (ds : List Delivery) (entries : List NodeEntry) : List NodeEntry :=
  entries.filter fun e => ds.all (·.tag ∉ e.1.tags)

theorem deliver_eq (ds : List Delivery) (kept new : List NodeEntry) :
    ∃ new', deliver ds (kept ++ new) = spare ds kept ++ new' ∧
      ∀ e ∈ new', e ∈ new ∨ ∃ d ∈ ds, e.2 = some d.url := by
  induction ds generalizing kept new
  case nil => exact ⟨new, by simp [deliver, spare], fun e he => .inl he⟩
  case cons d ds hi =>
    obtain ⟨new', he, hn⟩ := hi (kept.filter (d.tag ∉ ·.1.tags))
      (new.filter (d.tag ∉ ·.1.tags) ++ (tagServers d.servers d.tag).map (·, some d.url))
    refine ⟨new', ?_, fun e hm => ?_⟩
    · rw [deliver, List.foldl_cons, Delivery.apply, List.filter_append, List.append_assoc]
      rw [deliver] at he
      rw [he, spare, spare, List.filter_filter]
      simp only [List.all_cons, Bool.and_comm]
    · rcases hn e hm with hn | ⟨d', hd, hu⟩
      · rcases List.mem_append.mp hn with hn | hn
        · exact .inl (List.mem_of_mem_filter hn)
        · obtain ⟨s, -, rfl⟩ := List.mem_map.mp hn
          exact .inr ⟨d, List.mem_cons_self, rfl⟩
      · exact .inr ⟨d', List.mem_cons_of_mem d hd, hu⟩

theorem filter_filter_eq_iff {α : Type} {p q : α → Bool} {l : List α} :
    (l.filter q).filter p = l.filter p ↔ ∀ a ∈ l, p a → q a := by
  constructor
  case mp =>
    intro h a ha hp
    have hm : a ∈ (l.filter q).filter p := h ▸ List.mem_filter.mpr ⟨ha, hp⟩
    exact (List.mem_filter.mp (List.mem_of_mem_filter hm)).2
  case mpr =>
    intro h
    rw [List.filter_filter]
    refine List.filter_congr fun a ha => ?_
    cases hp : p a
    case false => rfl
    case true  => rw [h a ha hp]; rfl

-- Making the names of the servers distinct when they are loaded changes none that were distinct.
theorem entries_distinct {kept new : List NodeEntry} (h : (kept.map (·.1.name)).Nodup) :
    ∃ named : List ServerProfile, (distinctNodeNames [] ((kept ++ new).map Prod.fst)).zip ((kept ++ new).map Prod.snd) =
      kept ++ named.zip (new.map Prod.snd) := by
  have hk : ((kept.map Prod.fst).map (·.name)).Nodup := by
    rw [List.map_map]
    exact h
  have hz : (kept.map Prod.fst).zip (kept.map Prod.snd) = kept := (List.zip_of_prod rfl rfl).symm
  refine ⟨distinctNodeNames (((kept.map Prod.fst).map (·.name)).reverse ++ []) (new.map Prod.fst), ?_⟩
  rw [List.map_append, List.map_append, distinctNodeNames_append hk (fun s _ => List.not_mem_nil),
    List.zip_append (by rw [List.length_map, List.length_map]), hz]

theorem Sound.keeps_iff (h : t.Sound) {p : Option String → Bool} {ds : List Delivery}
    (he : op.entries t.cfg t.entries = deliver ds t.entries) (hw : op.write t.cfg = none → ds = [])
    (hp : ∀ d ∈ ds, p (some d.url) = false) :
    t.Keeps p op ↔ ∀ d ∈ ds, ∀ e ∈ t.entries, p e.2 → d.tag ∉ e.1.tags := by
  have hiff : (spare ds t.entries).filter (p ·.2) = t.entries.filter (p ·.2) ↔
      ∀ d ∈ ds, ∀ e ∈ t.entries, p e.2 → d.tag ∉ e.1.tags := by
    rw [spare, filter_filter_eq_iff]
    simp only [List.all_eq_true, decide_eq_true_eq]
    exact ⟨fun h d hd e he hp => h e he hp d hd, fun h e he hp d hd => h d hd e he hp⟩
  rw [Keeps, Tracked.step]
  split
  case h_2 hn =>
    rw [hw hn]
    exact iff_of_true rfl fun d hd => absurd hd List.not_mem_nil
  case h_1 cfg hs =>
    obtain ⟨new, hd, hnew⟩ := deliver_eq ds t.entries []
    rw [List.append_nil] at hd
    have hservers := (Op.write_effect hs).servers _ h.map_fst
    have hnames : ((spare ds t.entries).map (·.1.name)).Nodup := by
      have hn := h.names
      rw [← h.map_fst, List.map_map] at hn
      exact hn.sublist (List.filter_sublist.map _)
    obtain ⟨named, hz⟩ := @entries_distinct _ new hnames
    have hentries : (distinctNodeNames [] cfg.servers).zip ((op.entries t.cfg t.entries).map Prod.snd) =
        spare ds t.entries ++ named.zip (new.map Prod.snd) := by
      rw [← hservers, he, hd, hz]
    have hnone : (named.zip (new.map Prod.snd)).filter (p ·.2) = [] := by
      refine List.filter_eq_nil_iff.mpr fun e hm hpe => ?_
      obtain ⟨e', hm', ho⟩ := List.mem_map.mp (List.of_mem_zip hm).2
      rcases hnew e' hm' with hm' | ⟨d, hd, hu⟩
      · exact absurd hm' List.not_mem_nil
      · rw [← ho, hu, hp d hd] at hpe
        exact absurd hpe Bool.false_ne_true
    show ((distinctNodeNames [] cfg.servers).zip _).filter (p ·.2) = _ ↔ _
    rw [hentries, List.filter_append, hnone, List.append_nil]
    exact hiff

end Tracked

namespace AppConfig

variable {cfg : AppConfig}

-- The tag of a subscription with a new title: the first of the title, the title with (2), and so on,
-- that no subscription in front of it has.
def newTag (cfg : AppConfig) (index : Nat) (sub : Subscription) (title : Option String) : String :=
  freshName ((cfg.subscriptions.take index).map subTag).reverse (subTag (retitle title sub))

theorem tagAt_eq_newTag {index : Nat} {sub : Subscription} (h : (cfg.subscriptions.map subTag).Nodup)
    (hi : cfg.subscriptions[index]? = some sub) (title : Option String) :
    cfg.tagAt index sub title = cfg.newTag index sub title := by
  obtain ⟨hl, -⟩ := List.getElem?_eq_some_iff.mp hi
  have hset : cfg.subscriptions.set index (retitle title sub) =
      cfg.subscriptions.take index ++ retitle title sub :: cfg.subscriptions.drop (index + 1) :=
    List.set_eq_take_append_cons_drop.trans (if_pos hl)
  have hd : ((cfg.subscriptions.take index).map subTag).Nodup := h.sublist ((List.take_sublist _ _).map _)
  have ht := congrArg (·[index]?) (subTags_distinctSubTags [] (cfg.subscriptions.set index (retitle title sub)))
  have hlen : ((cfg.subscriptions.take index).map subTag).length = index := by
    rw [List.length_map, List.length_take_of_le hl.le]
  rw [hset, List.map_append, List.map_cons, freshTags_append hd (fun _ _ => List.not_mem_nil), List.append_nil,
    List.getElem?_append_right hlen.le, hlen, Nat.sub_self, ← hset, List.getElem?_map] at ht
  obtain ⟨sub', hs, he⟩ := Option.map_eq_some_iff.mp ht
  rw [tagAt, retitledAt, ensureDistinctSubTags, hs]
  exact he

-- Those whose servers an update of all subscriptions has nothing new for.
def spared (cfg : AppConfig) (fetch : Subscription → Fetched) : Option String → Bool
  | none     => true
  | some url => cfg.subscriptions.any fun sub => sub.url == url && !(fetch sub).isOk

-- The tag that a subscription has with the title it was fetched with.
def wantedTag (sub : Subscription) : Fetched → String
  | .ok (_, title) => subTag (retitle title sub)
  | .error _       => subTag sub

-- The tags of the subscriptions after an update of all.
def newTags (cfg : AppConfig) (fetch : Subscription → Fetched) : List String :=
  freshTags [] (cfg.subscriptions.map fun sub => wantedTag sub (fetch sub))

theorem subTags_retitled (fetch : Subscription → Fetched) :
    (cfg.retitled fetch).subscriptions.map subTag = cfg.newTags fetch := by
  rw [retitled, ensureDistinctSubTags, subTags_distinctSubTags, newTags, List.map_map]
  congr 1
  refine List.map_congr_left fun sub _ => ?_
  rw [Function.comp_apply]
  cases fetch sub <;> rfl

theorem mem_deliveries_iff {fetch : Subscription → Fetched} {d : Delivery} :
    d ∈ cfg.deliveries fetch ↔
      ∃ (index : Nat) (sub : Subscription) (servers : List ServerProfile) (title : Option String) (tag : String),
        cfg.subscriptions[index]? = some sub ∧ fetch sub = .ok (servers, title) ∧
        (cfg.newTags fetch)[index]? = some tag ∧ d = { url := sub.url, tag, servers } := by
  have hu := @urls_retitled cfg fetch
  have ht := @subTags_retitled cfg fetch
  constructor
  case mp =>
    intro hd
    obtain ⟨⟨sub', r⟩, hm, he⟩ := List.mem_filterMap.mp hd
    obtain ⟨i, hz⟩ := List.getElem?_of_mem hm
    obtain ⟨hi, hr⟩ := List.getElem?_zip_eq_some.mp hz
    rw [List.getElem?_map] at hr
    obtain ⟨sub, hs, hf⟩ := Option.map_eq_some_iff.mp hr
    cases r
    case error => cases he
    case ok fetched =>
      cases he
      obtain ⟨servers, title⟩ := fetched
      have hu := congrArg (·[i]?) hu
      have ht := congrArg (·[i]?) ht
      simp only [List.getElem?_map, hi, hs, Option.map_some, Option.some.injEq] at hu ht
      exact ⟨i, sub, servers, title, subTag sub', hs, hf, ht.symm, by rw [hu]⟩
  case mpr =>
    rintro ⟨i, sub, servers, title, tag, hs, hf, hn, rfl⟩
    rw [← ht, List.getElem?_map] at hn
    obtain ⟨sub', hi, rfl⟩ := Option.map_eq_some_iff.mp hn
    have hu := congrArg (·[i]?) hu
    simp only [List.getElem?_map, hi, hs, Option.map_some, Option.some.injEq] at hu
    have hr : (cfg.subscriptions.map fetch)[i]? = some (.ok (servers, title)) := by
      rw [List.getElem?_map, hs, Option.map_some, hf]
    have hz := List.mem_of_getElem? (List.getElem?_zip_eq_some (z := (sub', Except.ok (servers, title))).mpr ⟨hi, hr⟩)
    rw [← hu]
    exact List.mem_filterMap.mpr ⟨_, hz, rfl⟩

theorem not_spared_of_mem_deliveries {fetch : Subscription → Fetched} {d : Delivery}
    (h : (cfg.subscriptions.map (·.url)).Nodup) (hd : d ∈ cfg.deliveries fetch) :
    cfg.spared fetch (some d.url) = false := by
  obtain ⟨i, sub, servers, title, tag, hs, hf, -, rfl⟩ := mem_deliveries_iff.mp hd
  rw [spared, List.any_eq_false]
  intro s hsm hc
  obtain ⟨hsu, hok⟩ := Bool.and_eq_true_iff.mp hc
  have heq := List.inj_on_of_nodup_map h hsm (List.mem_of_getElem? hs) (beq_iff_eq.mp hsu)
  rw [heq, hf] at hok
  cases hok

end AppConfig

section Refresh

-- The servers of others do not have the tag that the subscription gets.
def Tracked.OneFree (t : Tracked) (url : String) (fetch : Subscription → Fetched) : Prop :=
  ∀ index sub servers title, t.cfg.findSubscription url = some (index, sub) → fetch sub = .ok (servers, title) →
    ∀ e ∈ t.entries, e.2 ≠ some url → t.cfg.newTag index sub title ∉ e.1.tags

-- The servers that are spared have none of the tags that the updated subscriptions get.
def Tracked.AllFree (t : Tracked) (fetch : Subscription → Fetched) : Prop :=
  ∀ (index : Nat) sub servers title tag, t.cfg.subscriptions[index]? = some sub →
    fetch sub = .ok (servers, title) → (t.cfg.newTags fetch)[index]? = some tag → ∀ e ∈ t.entries, t.cfg.spared fetch e.2 → tag ∉ e.1.tags

theorem Tracked.Sound.one_iff {t : Tracked} (h : t.Sound) (url : String) (fetch : Subscription → Fetched) :
    t.Keeps (· != some url) (.updateOneSubscription url fetch) ↔ t.OneFree url fetch := by
  have hnone : t.cfg.deliveryAt url fetch = [] →
      t.Keeps (· != some url) (.updateOneSubscription url fetch) := by
    intro hd
    have he : (Op.updateOneSubscription url fetch).entries t.cfg t.entries = deliver [] t.entries := by
      rw [← hd]
      rfl
    exact (h.keeps_iff he (fun _ => rfl) fun d hd => absurd hd List.not_mem_nil).mpr fun d hd =>
      absurd hd List.not_mem_nil
  cases hf : t.cfg.findSubscription url
  case none =>
    refine iff_of_true (hnone (by simp only [AppConfig.deliveryAt, hf])) fun index sub servers title he => ?_
    rw [hf] at he
    cases he
  case some e =>
    obtain ⟨index, sub⟩ := e
    cases hr : fetch sub
    case error =>
      refine iff_of_true (hnone (by simp only [AppConfig.deliveryAt, hf, hr])) fun i s servers title he hs => ?_
      rw [hf] at he
      cases he
      rw [hr] at hs
      cases hs
    case ok r =>
      obtain ⟨servers, title⟩ := r
      have he : (Op.updateOneSubscription url fetch).entries t.cfg t.entries =
          deliver [{ url, tag := t.cfg.newTag index sub title, servers }] t.entries := by
        rw [← AppConfig.tagAt_eq_newTag h.tags (AppConfig.findSubscription_eq hf)]
        simp only [Op.entries, AppConfig.deliveryAt, hf, hr]
      have hw : (Op.updateOneSubscription url fetch).write t.cfg ≠ none := by
        simp only [Op.write, Op.plan, Op.updateOneEdit, hf, hr]
        exact Option.some_ne_none _
      have hiff := h.keeps_iff (p := (· != some url)) he (fun hn => absurd hn hw) fun d hd => by
        rw [List.mem_singleton.mp hd]
        exact bne_self_eq_false _
      rw [hiff, List.forall_mem_singleton]
      constructor
      case mp =>
        intro hall i s servers' title' he' hs e hm ho
        rw [hf] at he'
        cases he'
        rw [hr] at hs
        cases hs
        exact hall e hm (bne_iff_ne.mpr ho)
      case mpr =>
        intro hfree e hm ho
        exact hfree index sub servers title hf hr e hm (bne_iff_ne.mp ho)

theorem Tracked.Sound.all_iff {t : Tracked} (h : t.Sound) (fetch : Subscription → Fetched) :
    t.Keeps (t.cfg.spared fetch) (.updateSubscriptions fetch) ↔ t.AllFree fetch := by
  have he : (Op.updateSubscriptions fetch).entries t.cfg t.entries =
      deliver (t.cfg.deliveries fetch) t.entries := rfl
  have hiff := h.keeps_iff he (fun hn => absurd hn (Option.some_ne_none _)) fun d hd =>
    AppConfig.not_spared_of_mem_deliveries h.urls hd
  rw [hiff]
  constructor
  case mp =>
    intro hall index sub servers title tag hs hf ht
    exact hall _ (AppConfig.mem_deliveries_iff.mpr ⟨index, sub, servers, title, tag, hs, hf, ht, rfl⟩)
  case mpr =>
    intro hfree d hd
    obtain ⟨index, sub, servers, title, tag, hs, hf, ht, rfl⟩ := AppConfig.mem_deliveries_iff.mp hd
    exact hfree index sub servers title tag hs hf ht

-- After every run, a refresh leaves the servers of others alone just when none of them has the tag of
-- what is refreshed.
theorem refresh_keeps_iff (ops : List Op) :
    (∀ url fetch, (Tracked.run ops).Keeps (· != some url) (.updateOneSubscription url fetch) ↔
      (Tracked.run ops).OneFree url fetch) ∧
    ∀ fetch, (Tracked.run ops).Keeps ((Tracked.run ops).cfg.spared fetch) (.updateSubscriptions fetch) ↔
      (Tracked.run ops).AllFree fetch :=
  ⟨(Tracked.Sound.run ops).one_iff, (Tracked.Sound.run ops).all_iff⟩

end Refresh

section Example

def takenNode : ServerProfile where
  name := "n"
  protocol := .trojan
  address := "h"
  port := 443
  params := .empty
  tags := []

-- The second subscription delivers a server under its tag X. Then the title of the first one is X, and
-- the second one cannot be fetched.
def takeover : List Op :=
  [.addSubscription "https://b/" none 0, .addSubscription "https://a/" (some "X") 0,
    .updateOneSubscription "https://a/" fun _ => .ok ([takenNode], none)]

def takeoverFetch (sub : Subscription) : Fetched :=
  if sub.url = "https://b/" then .ok ([], some "X") else .error "timeout"

theorem title_takes_servers :
    (Tracked.run takeover).entries = [({ takenNode with tags := ["X"] }, some "https://a/")] ∧
    ((Tracked.run takeover).step (.updateOneSubscription "https://b/" takeoverFetch)).entries = [] ∧
    ((Tracked.run takeover).step (.updateSubscriptions takeoverFetch)).entries = [] ∧
    ¬(Tracked.run takeover).Keeps (· != some "https://b/") (.updateOneSubscription "https://b/" takeoverFetch) ∧
    ¬(Tracked.run takeover).Keeps ((Tracked.run takeover).cfg.spared takeoverFetch)
      (.updateSubscriptions takeoverFetch) := by
  refine ⟨by decide +kernel, by decide +kernel, by decide +kernel, ?_, ?_⟩
  · rw [Tracked.Keeps]
    decide +kernel
  · rw [Tracked.Keeps]
    decide +kernel

end Example
end JammVpn
