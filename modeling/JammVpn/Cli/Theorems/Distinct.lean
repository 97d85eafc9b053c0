import JammVpn.Cli.Theorems.Keeps
import Mathlib.Data.Finset.Card
import Mathlib.Data.List.TakeWhile
import JammVpn.Net.FromConfig

-- The names and tags that the configuration makes distinct are distinct.
namespace JammVpn

open Text

section Fresh

variable {used : List String} {base : String}

theorem mem_of_firstUnused_mem {candidate : Nat → String} {fuel n : Nat}
    (h : firstUnused used candidate fuel n ∈ used) : ∀ k ≤ fuel, candidate (n + k) ∈ used := by
  induction fuel generalizing n
  case zero =>
    intro k hk
    obtain rfl := Nat.le_zero.mp hk
    exact h
  case succ fuel hi =>
    rw [firstUnused] at h
    split at h
    case isFalse hn => exact absurd h hn
    case isTrue hm =>
      intro k hk
      cases k
      case zero   => exact hm
      case succ k =>
        have := hi h k (by omega)
        rwa [Nat.add_right_comm] at this

theorem decimal_inj {m n : Nat} (h : decimal m = decimal n) : m = n := by
  have hm := parseUnsigned_decimal (Nat.lt_succ_of_le (Nat.le_max_left m n))
  rw [h, parseUnsigned_decimal (Nat.lt_succ_of_le (Nat.le_max_right m n))] at hm
  exact (Option.some.inj hm).symm

-- What is behind the name.
def numberText (n : Nat) : List Char :=
  if n ≤ 1 then [] else ' ' :: '(' :: (decimal n ++ [')'])

theorem toList_numbered (base : String) (n : Nat) : (numbered base n).toList = base.toList ++ numberText n := by
  rw [numbered, numberText]
  split
  case isTrue  => rw [List.append_nil]
  case isFalse =>
    simp only [String.toList_append, String.toList_ofList, List.append_assoc]
    rfl

theorem numbered_inj {m n : Nat} (hm : 1 ≤ m) (hn : 1 ≤ n) (h : numbered base m = numbered base n) :
    m = n := by
  have ht := congrArg String.toList h
  rw [toList_numbered, toList_numbered] at ht
  have ht := List.append_cancel_left ht
  rw [numberText, numberText] at ht
  split at ht <;> split at ht
  case isTrue.isTrue   => omega
  case isTrue.isFalse  => cases ht
  case isFalse.isTrue  => cases ht
  case isFalse.isFalse =>
    simp only [List.cons.injEq, true_and] at ht
    exact decimal_inj (List.append_cancel_right ht)

theorem freshName_not_mem (used : List String) (base : String) : freshName used base ∉ used := by
  intro h
  have hall := mem_of_firstUnused_mem h
  have hsub : (Finset.range (used.length + 1)).image (fun k => numbered base (1 + k)) ⊆ used.toFinset := by
    intro s hs
    obtain ⟨k, hk, rfl⟩ := Finset.mem_image.mp hs
    exact List.mem_toFinset.mpr (hall k (Nat.lt_succ_iff.mp (Finset.mem_range.mp hk)))
  have hcard := Finset.card_le_card hsub
  rw [Finset.card_image_of_injective, Finset.card_range] at hcard
  · exact absurd (hcard.trans used.toFinset_card_le) (Nat.not_succ_le_self _)
  · intro a b hab
    exact Nat.add_left_cancel (numbered_inj (Nat.le_add_right 1 a) (Nat.le_add_right 1 b) hab)

theorem freshName_of_not_mem (h : base ∉ used) : freshName used base = base := by
  rw [freshName]
  cases used
  case nil         => rfl
  case cons u used => rw [List.length_cons, firstUnused, if_neg (by exact h)]; rfl

end Fresh

section Names

-- The name with the address, which a server that repeats a name is given.
def ServerProfile.addressed (s : ServerProfile) : String :=
  s.name ++ " · " ++ s.address ++ ":" ++ .ofList (decimal s.port)

theorem names_distinctNodeNames (used : List String) (servers : List ServerProfile) :
    ((distinctNodeNames used servers).map (·.name)).Nodup ∧
      ∀ s ∈ distinctNodeNames used servers, s.name ∉ used := by
  induction servers generalizing used
  case nil => exact ⟨List.nodup_nil, fun s hs => absurd hs List.not_mem_nil⟩
  case cons s ss hi =>
    have hcons : ∀ s' : ServerProfile, s'.name ∉ used →
        ((s' :: distinctNodeNames (s'.name :: used) ss).map (·.name)).Nodup ∧
          ∀ t ∈ s' :: distinctNodeNames (s'.name :: used) ss, t.name ∉ used := by
      intro s' hn
      obtain ⟨hd, hu⟩ := hi (s'.name :: used)
      refine ⟨List.nodup_cons.mpr ⟨fun hm => ?_, hd⟩, List.forall_mem_cons.mpr ⟨hn, fun t ht hm => ?_⟩⟩
      · obtain ⟨t, ht, he⟩ := List.mem_map.mp hm
        exact hu t ht (he ▸ List.mem_cons_self)
      · exact hu t ht (List.mem_cons_of_mem _ hm)
    rw [distinctNodeNames]
    split
    case isTrue  => exact hcons { s with name := _ } (freshName_not_mem used _)
    case isFalse => exact hcons s ‹_›

-- Names that are distinct stay.
theorem distinctNodeNames_append {used : List String} {servers : List ServerProfile}
    (hd : (servers.map (·.name)).Nodup) (hu : ∀ s ∈ servers, s.name ∉ used) (more : List ServerProfile) :
    distinctNodeNames used (servers ++ more) =
      servers ++ distinctNodeNames ((servers.map (·.name)).reverse ++ used) more := by
  induction servers generalizing used
  case nil => rfl
  case cons s ss hi =>
    obtain ⟨hs, hd⟩ := List.nodup_cons.mp hd
    obtain ⟨hsu, hu⟩ := List.forall_mem_cons.mp hu
    rw [List.cons_append, distinctNodeNames, if_neg hsu, hi hd]
    · simp
    · intro s' hs' hm
      rcases List.mem_cons.mp hm with he | hm
      · exact hs (List.mem_map.mpr ⟨s', hs', he⟩)
      · exact hu s' hs' hm

theorem length_distinctNodeNames (used : List String) (servers : List ServerProfile) :
    (distinctNodeNames used servers).length = servers.length := by
  have := congrArg List.length (bodies_distinctNodeNames used servers)
  rwa [List.length_map, List.length_map] at this

end Names

section Tags

theorem not_isBlank_numbered {base : String} {n : Nat} (h : ¬n ≤ 1) : isBlank (numbered base n) = false := by
  rw [isBlank, List.isEmpty_eq_false_iff]
  intro ht
  have := trim_eq_nil_iff.mp ht '('
  rw [toList_numbered, numberText, if_neg h] at this
  exact absurd (this (by simp)) (by decide)

theorem firstUnused_eq (used : List String) (candidate : Nat → String) (fuel n : Nat) :
    ∃ m, n ≤ m ∧ firstUnused used candidate fuel n = candidate m := by
  induction fuel generalizing n
  case zero => exact ⟨n, Nat.le_refl n, rfl⟩
  case succ fuel hi =>
    rw [firstUnused]
    split
    case isTrue =>
      obtain ⟨m, hm, he⟩ := hi (n + 1)
      exact ⟨m, Nat.le_of_succ_le hm, he⟩
    case isFalse => exact ⟨n, Nat.le_refl n, rfl⟩

theorem subTag_subTag (sub : Subscription) : subTag { sub with tag := some (subTag sub) } = subTag sub := by
  have h : isBlank (subTag sub) = true → subTag sub = subHost sub.url := by
    intro hb
    rw [subTag] at hb ⊢
    split
    case h_1 t ht =>
      simp only [ht] at hb
      split at hb
      case isTrue ht  => rw [if_pos ht]
      case isFalse ht => exact absurd hb ht
    case h_2 => rfl
  show (if isBlank (subTag sub) then subHost sub.url else subTag sub) = subTag sub
  split
  case isTrue hb => exact (h hb).symm
  case isFalse   => rfl

-- A subscription keeps a tag that it has been given.
theorem subTag_freshName (used : List String) (sub : Subscription) :
    subTag { sub with tag := some (freshName used (subTag sub)) } = freshName used (subTag sub) := by
  obtain ⟨n, -, he⟩ := firstUnused_eq used (numbered (subTag sub)) used.length 1
  rw [freshName, he]
  by_cases hn : n ≤ 1
  case pos =>
    rw [numbered, if_pos hn]
    exact subTag_subTag sub
  case neg =>
    show (if isBlank _ then _ else _) = _
    rw [not_isBlank_numbered hn]
    rfl

-- The tags that wanted ones become: each the first of its names that is not in use and that no tag in
-- front of it has become.
def freshTags (used : List String) : List String → List String
  | []          => []
  | tag :: tags => freshName used tag :: freshTags (freshName used tag :: used) tags

theorem subTags_distinctSubTags (used : List String) (subs : List Subscription) :
    (distinctSubTags used subs).map subTag = freshTags used (subs.map subTag) := by
  induction subs generalizing used
  case nil             => rfl
  case cons sub subs hi => rw [distinctSubTags, List.map_cons, subTag_freshName, hi, List.map_cons, freshTags]

theorem nodup_freshTags (used tags : List String) :
    (freshTags used tags).Nodup ∧ ∀ tag ∈ freshTags used tags, tag ∉ used := by
  induction tags generalizing used
  case nil => exact ⟨List.nodup_nil, fun s hs => absurd hs List.not_mem_nil⟩
  case cons tag tags hi =>
    obtain ⟨hd, hu⟩ := hi (freshName used tag :: used)
    rw [freshTags]
    constructor
    case left  => exact List.nodup_cons.mpr ⟨fun hm => hu _ hm List.mem_cons_self, hd⟩
    case right =>
      refine List.forall_mem_cons.mpr ⟨freshName_not_mem used tag, fun t ht hm => ?_⟩
      exact hu t ht (List.mem_cons_of_mem _ hm)

-- Tags that are distinct stay.
theorem freshTags_append {used front : List String} (hd : front.Nodup) (hu : ∀ tag ∈ front, tag ∉ used)
    (tags : List String) : freshTags used (front ++ tags) = front ++ freshTags (front.reverse ++ used) tags := by
  induction front generalizing used
  case nil => rfl
  case cons tag front hi =>
    obtain ⟨ht, hd⟩ := List.nodup_cons.mp hd
    obtain ⟨htu, hu⟩ := List.forall_mem_cons.mp hu
    rw [List.cons_append, freshTags, freshName_of_not_mem htu, hi hd]
    · simp
    · intro t hm hc
      obtain rfl | hc := List.mem_cons.mp hc
      · exact ht hm
      · exact hu t hm hc

end Tags
end JammVpn

-- Loading a configuration makes its names unique, and what that does to what a name stands for.
namespace JammVpn

open Text

section Unique

theorem freshName_spec (used : List String) (base : String) :
    ∃ n ≥ 1, n ≤ used.length + 1 ∧ freshName used base = numbered base n ∧
      freshName used base ∉ used ∧ ∀ m ≥ 1, m < n → numbered base m ∈ used := by
  have hs (fuel n : Nat) : ∃ k ≤ fuel, firstUnused used (numbered base) fuel n = numbered base (n + k) ∧
      ∀ m ≥ n, m < n + k → numbered base m ∈ used := by
    induction fuel generalizing n
    case zero => exact ⟨0, Nat.le_refl _, rfl, fun m hm hl => absurd hl (Nat.not_lt.mpr hm)⟩
    case succ fuel hi =>
      rw [firstUnused]
      split
      case isFalse => exact ⟨0, Nat.zero_le _, rfl, fun m hm hl => absurd hl (Nat.not_lt.mpr hm)⟩
      case isTrue hu =>
        obtain ⟨k, hk, he, hm⟩ := hi (n + 1)
        refine ⟨k + 1, Nat.succ_le_succ hk, he.trans (by rw [Nat.add_right_comm]; rfl), fun m hn hl => ?_⟩
        obtain rfl | hlt := Nat.eq_or_lt_of_le hn
        case inl => exact hu
        case inr => exact hm m hlt (by omega)
  obtain ⟨k, hk, he, hm⟩ := hs used.length 1
  exact ⟨1 + k, Nat.le_add_right 1 k, by omega, he, freshName_not_mem used base, hm⟩

theorem distinctNodeNames_self {servers : List ServerProfile} (h : (servers.map (·.name)).Nodup) :
    distinctNodeNames [] servers = servers := by
  have := @distinctNodeNames_append [] servers h (fun _ _ => List.not_mem_nil) []
  rwa [List.append_nil, distinctNodeNames, List.append_nil] at this

theorem forall₂_distinctNodeNames (used : List String) (servers : List ServerProfile) :
    List.Forall₂ (fun s s' => s' = { s with name := s'.name }) servers (distinctNodeNames used servers) := by
  induction servers generalizing used
  case nil => exact .nil
  case cons s ss hi =>
    rw [distinctNodeNames]
    split
    case isTrue  => exact .cons rfl (hi _)
    case isFalse => exact .cons rfl (hi _)

theorem sanitizeConfig_sanitizeConfig (cfg : AppConfig) :
    sanitizeConfig (sanitizeConfig cfg) = sanitizeConfig cfg := by
  have hr : validCidr (sanitizeConfig cfg).dns.fakeip.range = true := by
    show validCidr (if validCidr cfg.dns.fakeip.range then _ else _) = true
    split
    case isTrue h => exact h
    case isFalse  => decide +kernel
  have hs : distinctNodeNames [] (sanitizeConfig cfg).servers = (sanitizeConfig cfg).servers :=
    distinctNodeNames_self (names_distinctNodeNames [] cfg.servers).1
  generalize sanitizeConfig cfg = c at hr hs
  rw [sanitizeConfig, ensureDistinctNodeNames]
  simp only [hr, if_true, hs]

-- Every subscription stores the tag by which it is known.
theorem tag_distinctSubTags (used : List String) (subs : List Subscription) :
    ∀ sub ∈ distinctSubTags used subs, sub.tag = some (subTag sub) := by
  induction subs generalizing used
  case nil => exact fun sub hm => absurd hm List.not_mem_nil
  case cons sub subs hi =>
    rw [distinctSubTags]
    exact List.forall_mem_cons.mpr ⟨congrArg some (subTag_freshName used sub).symm, hi _⟩

theorem distinctSubTags_self {used : List String} {subs : List Subscription}
    (ht : ∀ sub ∈ subs, sub.tag = some (subTag sub)) (hd : (subs.map subTag).Nodup)
    (hu : ∀ sub ∈ subs, subTag sub ∉ used) :
    distinctSubTags used subs = subs ∧ subTagsChanged used subs = false := by
  induction subs generalizing used
  case nil => exact ⟨rfl, rfl⟩
  case cons sub subs hi =>
    obtain ⟨hts, ht⟩ := List.forall_mem_cons.mp ht
    obtain ⟨hm, hd⟩ := List.nodup_cons.mp hd
    obtain ⟨hsu, hu⟩ := List.forall_mem_cons.mp hu
    have hu' : ∀ s ∈ subs, subTag s ∉ subTag sub :: used := by
      intro s hs hc
      obtain he | hc := List.mem_cons.mp hc
      case inl => exact hm (List.mem_map.mpr ⟨s, hs, he⟩)
      case inr => exact hu s hs hc
    have ⟨hs, hc⟩ := hi ht hd hu'
    have he : { sub with tag := some (subTag sub) } = sub := by rw [← hts]
    rw [distinctSubTags, subTagsChanged, freshName_of_not_mem hsu, hs, hc, he, ← hts]
    exact ⟨rfl, by simp⟩

end Unique

-- After a configuration is loaded its names are unique, and so are the tags of its subscriptions. Doing
-- it again changes nothing, and looking for a free name ends.
theorem unique_names_and_tags (cfg : AppConfig) :
    ((sanitizeConfig cfg).servers.map (·.name)).Nodup ∧
    List.Forall₂ (fun s s' => s' = { s with name := s'.name }) cfg.servers (sanitizeConfig cfg).servers ∧
    sanitizeConfig (sanitizeConfig cfg) = sanitizeConfig cfg ∧
    (∀ geo, ∀ s ∈ (sanitizeConfig cfg).servers, ∀ ob, outboundFromProfile s = .ok ob →
      (Engine.fromConfig geo (sanitizeConfig cfg)).outbounds.get s.name = some ob) ∧
    ((ensureDistinctSubTags cfg).subscriptions.map subTag).Nodup ∧
    ensureDistinctSubTags (ensureDistinctSubTags cfg) = ensureDistinctSubTags cfg ∧
    subTagsChanged [] (ensureDistinctSubTags cfg).subscriptions = false ∧
    ∀ used base, ∃ n ≥ 1, n ≤ used.length + 1 ∧ freshName used base = numbered base n ∧
      freshName used base ∉ used ∧ ∀ m ≥ 1, m < n → numbered base m ∈ used := by
  have hn : ((sanitizeConfig cfg).servers.map (·.name)).Nodup := (names_distinctNodeNames [] cfg.servers).1
  have ht : ((ensureDistinctSubTags cfg).subscriptions.map subTag).Nodup := by
    rw [ensureDistinctSubTags, subTags_distinctSubTags]
    exact (nodup_freshTags [] _).1
  obtain ⟨hs, hc⟩ := distinctSubTags_self (tag_distinctSubTags [] cfg.subscriptions) ht
    fun _ _ => List.not_mem_nil
  refine ⟨hn, forall₂_distinctNodeNames [] cfg.servers, sanitizeConfig_sanitizeConfig cfg, ?_, ht, ?_, hc,
    freshName_spec⟩
  case refine_1 => exact fun geo s hs ob ho => outboundTable_eq_some hn hs ho
  case refine_2 =>
    show ({ ensureDistinctSubTags cfg with subscriptions := distinctSubTags [] (distinctSubTags [] cfg.subscriptions) } :
      AppConfig) = _
    rw [hs]
    rfl

end JammVpn
