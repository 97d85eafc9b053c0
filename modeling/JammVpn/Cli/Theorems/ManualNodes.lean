import JammVpn.Core.Parse.Link
import JammVpn.Cli.Theorems.Orphans

-- What becomes of servers that were imported by hand when those of subscriptions are cleared.
namespace JammVpn

open Text

-- What a link describes has no tags.
section Links

variable {α : Type}

def Untagged (r : Except ParseError ServerProfile) : Prop :=
  ∀ p, r = .ok p → p.tags = []

theorem untagged_bind {x : Except ParseError α} {f : α → Except ParseError ServerProfile}
    (h : ∀ a, Untagged (f a)) : Untagged (x >>= f) := by
  intro p hp
  cases x
  case error => cases hp
  case ok a  => exact h a p hp

theorem untagged_makeProfile {protocol : ProtocolKind} {host : String} {port : Nat} {params : Link.Params}
    {fragment : Option String} : Untagged (.ok (Link.makeProfile protocol host port params fragment)) := by
  intro p hp
  cases hp
  rfl

theorem untagged_error (e : ParseError) : Untagged (.error e) := by
  intro p hp
  cases hp

theorem untagged_parseLink (input : List Char) : Untagged (Link.parseLink input) := by
  have huser (protocol : ProtocolKind) (field : String) (s : List Char) :
      Untagged (Link.parseWithUser protocol field s) :=
    untagged_bind fun _ => untagged_bind fun _ => untagged_bind fun _ => untagged_makeProfile
  have hproxy (kind : ProtocolKind) (s : List Char) : Untagged (Link.proxyProfile kind s) :=
    untagged_bind fun _ => untagged_bind fun _ => untagged_makeProfile
  have hhysteria (s : List Char) : Untagged (Link.parseHysteria2 s) :=
    untagged_bind fun _ => untagged_bind fun _ => untagged_makeProfile
  have htuic (s : List Char) : Untagged (Link.parseTuic s) :=
    untagged_bind fun _ => untagged_bind fun _ => untagged_bind fun _ => untagged_makeProfile
  have hss (s : List Char) : Untagged (Link.parseShadowsocks s) := by
    rw [Link.parseShadowsocks]
    split
    case h_1 => exact untagged_error _
    case h_2 =>
      -- With credentials of their own, or all in base64.
      generalize Uri.cut '#' _ = beforeFrag
      generalize Uri.cut '?' beforeFrag.1 = body
      dsimp only
      split
      case h_1 => exact untagged_bind fun _ => untagged_bind fun _ => untagged_makeProfile
      case h_2 =>
        exact untagged_bind fun _ => untagged_bind fun _ => untagged_bind fun _ => untagged_makeProfile
  rw [Link.parseLink]
  split
  case isTrue  => exact untagged_error _
  case isFalse =>
    split
    case h_1 => exact untagged_error _
    case h_2 =>
      rw [Link.byScheme.eq_def]
      split
      case h_1  => exact huser _ _ _
      case h_2  => exact huser _ _ _
      case h_3  => exact hss _
      case h_4  => exact hproxy _ _
      case h_5  => exact hproxy _ _
      case h_6  => exact hproxy _ _
      case h_7  => exact hproxy _ _
      case h_8  => exact hhysteria _
      case h_9  => exact hhysteria _
      case h_10 => exact htuic _
      case h_11 => exact untagged_error _

end Links

-- A name as those of nodes from before there were tags.
def Marked (name : String) : Prop :=
  " · ".toList <:+: name.toList

theorem marked_addressed (s : ServerProfile) (n : Nat) : Marked (numbered s.addressed n) := by
  refine ⟨s.name.toList, s.address.toList ++ ':' :: decimal s.port ++ numberText n, ?_⟩
  simp [toList_numbered, ServerProfile.addressed]

-- An argument of the import command, a link or the URL of a subscription, and what would be fetched.
abbrev ImportArg := String × Fetched

def ImportArg.op (i : ImportArg) : Op :=
  .importNode i.1 (Link.parseLink i.1.toList) i.2

namespace Tracked

def imported (imports : List ImportArg) : Tracked :=
  run (imports.map ImportArg.op)

-- The servers that no subscription has delivered.
def manual (t : Tracked) : List NodeEntry :=
  t.entries.filter (·.2.isNone)

-- Just the servers of subscriptions are cleared.
def ClearsExactly (t : Tracked) : Prop :=
  t.saved .clearSubscriptionNodes = t.manual

-- A link brings a name that is new and has no mark.
def Plain (t : Tracked) (i : ImportArg) : Prop :=
  isHttpUrl i.1 = false → ∀ p, Link.parseLink i.1.toList = .ok p →
    ¬Marked p.name ∧ p.name ∉ t.cfg.servers.map (·.name)

variable {t : Tracked} {i : ImportArg}

-- The link is added behind the servers that are there, with its name if that is new.
theorem Sound.entries_link (h : t.Sound) {p : ServerProfile} (hu : isHttpUrl i.1 = false)
    (hp : Link.parseLink i.1.toList = .ok p) :
    ∃ name, (t.step i.op).entries = t.entries ++ [({ p with name }, none)] ∧
      (p.name ∉ t.cfg.servers.map (·.name) → name = p.name) ∧
      (p.name ∈ t.cfg.servers.map (·.name) → Marked name) := by
  have hw : i.op.write t.cfg = some { t.cfg with servers := t.cfg.servers ++ [p] } := by
    simp [Op.write, Op.plan, Op.importEdit, ImportArg.op, hu, hp]
  have hes : i.op.entries t.cfg t.entries = t.entries ++ [(p, none)] := by
    simp [Op.entries, ImportArg.op, hu, hp]
  have hz : (t.entries ++ [(p, none)]).map Prod.snd = t.owners ++ [none] := by
    rw [List.map_append, entries, List.map_snd_zip h.length.le]
    rfl
  have hstep : (t.step i.op).entries =
      (distinctNodeNames [] (t.cfg.servers ++ [p])).zip (t.owners ++ [none]) := by
    simp only [Tracked.step, hw, hes, hz]
    rfl
  rw [hstep, distinctNodeNames_append h.names fun _ _ => List.not_mem_nil, List.zip_append h.length.symm]
  have hmem : p.name ∈ (t.cfg.servers.map (·.name)).reverse ++ [] ↔ p.name ∈ t.cfg.servers.map (·.name) := by simp
  generalize (t.cfg.servers.map (·.name)).reverse ++ [] = used at hmem ⊢
  rw [distinctNodeNames]
  by_cases hn : p.name ∈ used
  case pos =>
    rw [if_pos hn]
    refine ⟨_, rfl, absurd (hmem.mp hn), fun _ => ?_⟩
    obtain ⟨n, -, he⟩ := firstUnused_eq used (numbered p.addressed) used.length 1
    show Marked (firstUnused used (numbered p.addressed) used.length 1)
    rw [he]
    exact marked_addressed p n
  case neg =>
    rw [if_neg hn]
    exact ⟨p.name, rfl, fun _ => rfl, fun h => absurd (hmem.mpr h) hn⟩

theorem Sound.manual_link (h : t.Sound) {p : ServerProfile} (hu : isHttpUrl i.1 = false)
    (hp : Link.parseLink i.1.toList = .ok p) :
    ∃ name, (t.step i.op).manual = t.manual ++ [({ p with name }, none)] ∧
      (p.name ∉ t.cfg.servers.map (·.name) → name = p.name) ∧
      (p.name ∈ t.cfg.servers.map (·.name) → Marked name) := by
  obtain ⟨name, he, hn⟩ := h.entries_link hu hp
  exact ⟨name, by rw [manual, he, List.filter_append]; rfl, hn⟩

-- Subscriptions leave the other servers alone, which have no tags.
theorem Sound.manual_url (h : t.Sound) (ht : ∀ e ∈ t.manual, e.1.tags = []) (hu : isHttpUrl i.1 = true) :
    (t.step i.op).manual = t.manual := by
  have he : i.op.entries t.cfg t.entries = deliver (t.cfg.importDelivery i.1 i.2) t.entries := by
    simp [Op.entries, ImportArg.op, hu]
  have hw : i.op.write t.cfg = none → t.cfg.importDelivery i.1 i.2 = [] := by
    intro hn
    cases hf : i.2
    case error => rfl
    case ok r =>
      simp [Op.write, Op.plan, Op.importEdit, ImportArg.op, hu, hf, bind, Except.bind, pure, Except.pure] at hn
  refine (h.keeps_iff he hw fun d hd => ?_).mpr fun d _ e hm hp => ?_
  case refine_1 =>
    cases hf : i.2 <;> rw [hf] at hd
    case error => cases hd
    case ok r  =>
      rw [List.mem_singleton.mp hd]
      rfl
  case refine_2 =>
    rw [ht e (List.mem_filter.mpr ⟨hm, hp⟩)]
    exact List.not_mem_nil

theorem step_error {e : ParseError} (hu : isHttpUrl i.1 = false) (hp : Link.parseLink i.1.toList = .error e) :
    t.step i.op = t := by
  have hw : i.op.write t.cfg = none := by simp [Op.write, Op.plan, Op.importEdit, ImportArg.op, hu, hp]
  simp only [Tracked.step, hw]

-- Servers that were imported by hand have no tags, and no mark in the name.
def ManualUntagged (t : Tracked) : Prop :=
  ∀ e ∈ t.manual, e.1.tags = []

def ManualUnmarked (t : Tracked) : Prop :=
  ∀ e ∈ t.manual, ¬Marked e.1.name

theorem ManualUntagged.step (ht : t.ManualUntagged) (h : t.Sound) : (t.step i.op).ManualUntagged := by
  cases hu : isHttpUrl i.1
  case true =>
    rw [ManualUntagged, h.manual_url ht hu]
    exact ht
  case false =>
    cases hp : Link.parseLink i.1.toList
    case error => rwa [step_error hu hp]
    case ok p  =>
      obtain ⟨name, hm, -⟩ := h.manual_link hu hp
      rw [ManualUntagged, hm]
      exact List.forall_mem_append.mpr ⟨ht, List.forall_mem_singleton.mpr (untagged_parseLink _ p hp)⟩

theorem manualUnmarked_step_iff (ht : t.ManualUntagged) (h : t.Sound) :
    (t.step i.op).ManualUnmarked ↔ t.ManualUnmarked ∧ t.Plain i := by
  cases hu : isHttpUrl i.1
  case true =>
    rw [ManualUnmarked, h.manual_url ht hu]
    exact (and_iff_left fun hf => absurd (hu.symm.trans hf) Bool.noConfusion).symm
  case false =>
    cases hp : Link.parseLink i.1.toList
    case error =>
      rw [step_error hu hp]
      refine (and_iff_left fun _ p hok => ?_).symm
      cases hp.symm.trans hok
    case ok p =>
      obtain ⟨name, hm, hnew, hold⟩ := h.manual_link hu hp
      have hplain : t.Plain i ↔ ¬Marked name := by
        constructor
        case mp =>
          intro hpl
          have ⟨hmark, hn⟩ := hpl hu p hp
          rwa [hnew hn]
        case mpr =>
          intro hmark _ q hq
          cases hp.symm.trans hq
          have hn := mt hold hmark
          exact ⟨hnew hn ▸ hmark, hn⟩
      rw [ManualUnmarked, hm, List.forall_mem_append, List.forall_mem_singleton, hplain]
      rfl

-- Servers of subscriptions have a tag by which they are cleared, so that the others decide.
theorem clearsExactly_iff (hg : t.Tagged) (ht : t.ManualUntagged) : t.ClearsExactly ↔ t.ManualUnmarked := by
  have hsub : ∀ e ∈ t.entries, e.2.isNone = false → Op.isSubscriptionNode t.cfg e.1 = true := by
    intro e he ho
    obtain ⟨url, hurl⟩ := Option.ne_none_iff_exists'.mp (Option.isNone_eq_false_iff.mp ho |> Option.isSome_iff_ne_none.mp)
    obtain ⟨tag, hk, htag⟩ := hg e he url hurl
    obtain ⟨sub, hs, hse⟩ := List.mem_map.mp hk
    cases hse
    have hc : (t.cfg.subscriptions.map subTag).contains (subTag sub) = true :=
      List.contains_iff_mem.mpr (List.mem_map_of_mem hs)
    rw [Op.isSubscriptionNode, Bool.or_eq_true]
    exact .inl (List.any_eq_true.mpr ⟨_, htag, hc⟩)
  have hman : ∀ e ∈ t.entries, e.2.isNone = true →
      (Op.isSubscriptionNode t.cfg e.1 = true ↔ Marked e.1.name) := by
    intro e he ho
    rw [Op.isSubscriptionNode, ht e (List.mem_filter.mpr ⟨he, ho⟩), List.any_nil, Bool.false_or, decide_eq_true_eq]
    exact Iff.rfl
  constructor
  case mp =>
    intro h e hm hmark
    have ⟨he, ho⟩ := List.mem_filter.mp hm
    rw [← h] at hm
    have := (List.mem_filter.mp hm).2
    rw [(hman e he ho).mpr hmark] at this
    cases this
  case mpr =>
    intro h
    refine List.filter_congr fun e he => ?_
    cases ho : e.2.isNone
    case false => rw [hsub e he ho]; rfl
    case true  =>
      have := mt (hman e he ho).mp (h e (List.mem_filter.mpr ⟨he, ho⟩))
      rw [Bool.eq_false_iff.mpr this]
      rfl

theorem imported_concat (imports : List ImportArg) (i : ImportArg) :
    imported (imports ++ [i]) = (imported imports).step i.op := by
  rw [imported, List.map_append]
  exact run_append_singleton _ _

theorem manualUntagged_imported (imports : List ImportArg) : (imported imports).ManualUntagged := by
  induction imports using List.reverseRecOn
  case nil => exact fun e he => absurd he List.not_mem_nil
  case append_singleton imports i hi =>
    rw [imported_concat]
    exact hi.step (.run _)

theorem tagged_imported (imports : List ImportArg) : (imported imports).Tagged := by
  refine .run fun front op hf => ?_
  obtain ⟨i, _, rfl⟩ := List.mem_map.mp (hf.subset (List.mem_append_right front (List.mem_singleton_self op)))
  trivial

theorem clearsExactly_imported (imports : List ImportArg) :
    (imported imports).ClearsExactly ↔ (imported imports).ManualUnmarked :=
  clearsExactly_iff (tagged_imported imports) (manualUntagged_imported imports)

end Tracked

-- A second link with the same name: its server is cleared although there is no subscription.
theorem second_link_cleared : ¬∀ imports, (Tracked.imported imports).ClearsExactly := by
  intro h
  have he := h [("trojan://p@h:1#A", .error ""), ("trojan://p@h:1#A", .error "")]
  rw [Tracked.ClearsExactly] at he
  exact absurd he (by decide +kernel)

-- After every run of imports just the servers of subscriptions are cleared, if every link of the run
-- brought a new name without a mark. The server of any other link is cleared with them.
theorem clear_keeps_manual_iff (imports : List ImportArg) :
    (∀ cfg, Op.clearSubscriptionNodes.write (Tracked.imported imports).cfg = some cfg →
      cfg.servers = ((Tracked.imported imports).saved .clearSubscriptionNodes).map Prod.fst) ∧
    (∀ e ∈ (Tracked.imported imports).entries, ∀ url, e.2 = some url →
      url ∈ (Tracked.imported imports).cfg.subscriptions.map (·.url)) ∧
    ((∀ front, front <+: imports → (Tracked.imported front).ClearsExactly) ↔
      ∀ front i, front ++ [i] <+: imports → (Tracked.imported front).Plain i) := by
  have hs := Tracked.Sound.run (imports.map ImportArg.op)
  refine ⟨fun cfg hw => ((Op.write_effect hw).servers _ hs.map_fst).symm, fun e he url hu => ?_, ?_⟩
  case refine_1 =>
    obtain ⟨tag, hk, _⟩ := Tracked.tagged_imported imports e he url hu
    obtain ⟨sub, hm, hse⟩ := List.mem_map.mp hk
    cases hse
    exact List.mem_map_of_mem hm
  case refine_2 =>
    clear hs
    induction imports using List.reverseRecOn
    case nil =>
      refine iff_of_true (fun front hf => ?_) fun front i hf => ?_
      case refine_1 =>
        rw [List.prefix_nil.mp hf]
        rfl
      case refine_2 => exact absurd (List.prefix_nil.mp hf) (by simp)
    case append_singleton imports i hi =>
      have hlast : (Tracked.imported (imports ++ [i])).ClearsExactly ↔
          (Tracked.imported imports).ClearsExactly ∧ (Tracked.imported imports).Plain i := by
        rw [Tracked.clearsExactly_imported, Tracked.clearsExactly_imported, Tracked.imported_concat]
        exact Tracked.manualUnmarked_step_iff (Tracked.manualUntagged_imported imports) (.run _)
      constructor
      case mp =>
        intro h front j hf
        obtain he | hf := List.prefix_concat_iff.mp hf
        case inl =>
          obtain ⟨rfl, hj⟩ := List.append_inj' he rfl
          cases hj
          exact (hlast.mp (h _ List.prefix_rfl)).2
        case inr => exact hi.mp (fun front hf => h front (hf.trans (List.prefix_append _ _))) front j hf
      case mpr =>
        intro h front hf
        have hall := hi.mpr fun front j hf => h front j (hf.trans (List.prefix_append _ _))
        obtain rfl | hf := List.prefix_concat_iff.mp hf
        case inl => exact hlast.mpr ⟨hall imports List.prefix_rfl, h imports i List.prefix_rfl⟩
        case inr => exact hall front hf

end JammVpn
