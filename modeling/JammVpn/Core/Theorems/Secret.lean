import JammVpn.Core.SecretCalls
import Mathlib.Data.List.Forall2

-- What protecting a configuration does to its fields.
namespace JammVpn

open Text

def ServerProfile.Protected (s : ServerProfile) : Prop :=
  ∀ k ∈ secretParamKeys, ∀ v, s.params.get k = some v → isProtected v = true

structure LocalWgConfig.Protected (lw : LocalWgConfig) : Prop where
  serverPrivate : lw.serverPrivate ≠ "" → isProtected lw.serverPrivate = true
  clientPrivate : lw.clientPrivate ≠ "" → isProtected lw.clientPrivate = true
  presharedKey  : lw.presharedKey ≠ "" → isProtected lw.presharedKey = true

structure AppConfig.Protected (cfg : AppConfig) : Prop where
  servers : ∀ s ∈ cfg.servers, s.Protected
  localWg : ∀ lw ∈ cfg.localWg, lw.Protected

-- The servers are the same but for the values of secret parameters.
structure ServerProfile.SameBut (s s' : ServerProfile) : Prop where
  fields : s' = { s with params := s'.params }
  params : ∀ k ∉ secretParamKeys, s'.params.get k = s.params.get k
  keys   : ∀ k, (s'.params.get k).isSome = (s.params.get k).isSome

def LocalWgConfig.SameBut (lw lw' : LocalWgConfig) : Prop :=
  lw' = { lw with
    serverPrivate := lw'.serverPrivate, clientPrivate := lw'.clientPrivate, presharedKey := lw'.presharedKey }

structure AppConfig.SameBut (cfg cfg' : AppConfig) : Prop where
  fields  : cfg' = { cfg with servers := cfg'.servers, localWg := cfg'.localWg }
  servers : List.Forall₂ ServerProfile.SameBut cfg.servers cfg'.servers
  localWg : Option.Rel LocalWgConfig.SameBut cfg.localWg cfg'.localWg

namespace CallStore

variable {σ : Type} {store : CallStore σ} {later : σ → σ → Prop} {x y z : σ}

-- What was encrypted in a state can be decrypted in every later one. Encryption can give another blob every time.
structure Lawful (store : CallStore σ) (later : σ → σ → Prop) : Prop where
  refl      : ∀ x, later x x
  trans     : ∀ {x y z}, later x y → later y z → later x z
  protect   : ∀ {plain blob x y}, store.protect plain x = .ok (blob, y) → later x y
  unprotect : ∀ {plain blob x y}, store.unprotect blob x = .ok (plain, y) → later x y
  inverts   : ∀ {plain blob x y z}, store.protect plain x = .ok (blob, y) → later y z →
    ∃ z', store.unprotect blob z = .ok (plain, z')

-- From a state on, a stored value is read as this one.
def Opens (store : CallStore σ) (later : σ → σ → Prop) (y : σ) (v e : String) : Prop :=
  ∀ z, later y z → ∃ z', updateValue store.unprotecting e z = .ok (v, z') ∧ later z z'

section Values

variable {v e : String}

theorem Opens.mono (h : store.Opens later y v e) (hl : store.Lawful later) (hz : later y z) : store.Opens later z v e :=
  fun w hw => h w (hl.trans hz hw)

theorem opens_of_clear (hl : store.Lawful later) (hc : isProtected v = false) : store.Opens later y v v := by
  intro z _
  rw [updateValue, unprotecting, stripPrefix_eq_none_of_clear hc]
  exact ⟨z, rfl, hl.refl z⟩

theorem protectValue_spec (hl : store.Lawful later) (h : store.protectValue v x = .ok (e, y)) :
    later x y ∧ isProtected e = true ∧ store.Opens later y v e := by
  obtain ⟨blob, y', hb, he⟩ := bind_eq_ok h
  cases he
  refine ⟨hl.protect hb, ?_, fun z hz => ?_⟩
  case refine_1 =>
    rw [isProtected, String.toList_ofList]
    exact List.isPrefixOf_iff_prefix.mpr (List.prefix_append _ _)
  case refine_2 =>
    obtain ⟨z', hu⟩ := hl.inverts hb hz
    refine ⟨z', ?_, hl.unprotect hu⟩
    rw [updateValue, unprotecting, String.toList_ofList, stripPrefix_append, Option.map_some, Option.getD_some,
      unprotectValue, String.ofList_toList, Base64.decodeLoose_encodeStandard]
    refine (bind_ok (by rfl)).trans ((bind_ok hu).trans ?_)
    rw [Utf8.decode_encode]
    simp only [Calls.ofExcept, String.ofList_toList, Except.map]

theorem protecting_eq_none_iff : store.protecting v = none ↔ isProtected v = true := by
  rw [protecting]
  split
  case isTrue h  => exact iff_of_true rfl h
  case isFalse h => exact iff_of_false (Option.some_ne_none _) h

theorem protecting_of_clear (h : isProtected v = false) : store.protecting v = some (store.protectValue v) :=
  if_neg (Bool.eq_false_iff.mp h)

-- A secret of the local server is encrypted unless it is empty.
theorem protectingLocal_spec (hl : store.Lawful later) (hc : isProtected v = false)
    (h : updateValue store.protectingLocal v x = .ok (e, y)) :
    later x y ∧ (e ≠ "" → isProtected e = true) ∧ store.Opens later y v e := by
  rw [updateValue, protectingLocal, protecting_of_clear hc] at h
  split at h
  case isTrue hv =>
    cases h
    exact ⟨hl.refl x, fun he => absurd hv he, opens_of_clear hl hc⟩
  case isFalse =>
    obtain ⟨hlater, hp, ho⟩ := protectValue_spec hl h
    exact ⟨hlater, fun _ => hp, ho⟩

theorem protectingLocal_eq_none (h : v ≠ "" → isProtected v = true) : store.protectingLocal v = none := by
  rw [protectingLocal]
  split
  case isTrue     => rfl
  case isFalse hv => exact protecting_eq_none_iff.mpr (h hv)

end Values

-- The collected updates are for some of the keys, each for a value that is there, and the other keys are skipped.
structure Collected (f : String → Option (Calls σ String)) (Q : String → String → String → Prop)
    (params : OrdMap String String) (keys : List String) (updates : List (String × String)) : Prop where
  sublist : (updates.map Prod.fst).Sublist keys
  updated : ∀ u ∈ updates, ∃ v, params.get u.1 = some v ∧ Q u.1 v u.2
  skipped : ∀ k ∈ keys, k ∉ updates.map Prod.fst → (params.get k).bind f = none

section Updates

variable {f : String → Option (Calls σ String)} {Q : String → String → String → Prop} {params : OrdMap String String}
  {keys : List String} {key : String} {updates : List (String × String)}

theorem Collected.skip (h : Collected f Q params keys updates) (hk : (params.get key).bind f = none) :
    Collected f Q params (key :: keys) updates := by
  refine ⟨h.sublist.cons key, h.updated, fun k hm hn => ?_⟩
  obtain rfl | hm := List.mem_cons.mp hm
  case inl => exact hk
  case inr => exact h.skipped k hm hn

theorem Collected.take (h : Collected f Q params keys updates) {v e : String} (hv : params.get key = some v)
    (hq : Q key v e) : Collected f Q params (key :: keys) ((key, e) :: updates) := by
  refine ⟨h.sublist.cons_cons key, List.forall_mem_cons.mpr ⟨⟨v, hv, hq⟩, h.updated⟩, fun k hm hn => ?_⟩
  refine h.skipped k ((List.mem_cons.mp hm).resolve_left ?_) (List.not_mem_of_not_mem_cons hn)
  exact List.ne_of_not_mem_cons hn

theorem get_applyUpdates_of_mem {u : String × String} (hn : (updates.map Prod.fst).Nodup) (h : u ∈ updates) :
    (applyUpdates params updates).get u.1 = some u.2 := by
  induction updates generalizing params
  case nil => cases h
  case cons u' us hi =>
    obtain ⟨hm, hn⟩ := List.nodup_cons.mp hn
    cases h
    case head =>
      have hne : ∀ u' ∈ us, u'.1 ≠ u.1 := fun u' hu' he => hm (he ▸ List.mem_map_of_mem hu')
      have hget := @get_applyUpdates_of_not_mem (params.insert u.1 u.2) us u.1 hne
      exact hget.trans (by rw [OrdMap.get_insert, if_pos rfl])
    case tail h => exact hi hn h

-- A binding is updated, or it is left as it is.
theorem Collected.get (h : Collected f Q params keys updates) (hn : keys.Nodup) (k : String) :
    (∃ v e, k ∈ keys ∧ params.get k = some v ∧ (applyUpdates params updates).get k = some e ∧ Q k v e) ∨
      (k ∈ keys → (params.get k).bind f = none) ∧ (applyUpdates params updates).get k = params.get k := by
  by_cases hk : k ∈ updates.map Prod.fst
  case pos =>
    obtain ⟨u, hu, rfl⟩ := List.mem_map.mp hk
    obtain ⟨v, hv, hq⟩ := h.updated u hu
    exact .inl ⟨v, u.2, h.sublist.subset hk, hv, get_applyUpdates_of_mem (h.sublist.nodup hn) hu, hq⟩
  case neg =>
    refine .inr ⟨fun hm => h.skipped k hm hk, get_applyUpdates_of_not_mem fun u hu he => hk ?_⟩
    exact he ▸ List.mem_map_of_mem hu

-- All secrets of a server are encrypted, one call after the other.
theorem collected_protecting (hl : store.Lawful later)
    (h : secretUpdates store.protecting params keys x = .ok (updates, y)) :
    later x y ∧ Collected store.protecting (fun _ v e => isProtected e = true ∧ store.Opens later y v e) params keys
      updates := by
  induction keys generalizing x updates
  case nil =>
    cases h
    exact ⟨hl.refl _, .slnil, nofun, nofun⟩
  case cons key keys hi =>
    rw [secretUpdates] at h
    cases hk : (params.get key).bind store.protecting <;> rw [hk] at h
    case none =>
      obtain ⟨hlater, hc⟩ := hi h
      exact ⟨hlater, hc.skip hk⟩
    case some c =>
      obtain ⟨v, hv, hp⟩ := Option.bind_eq_some_iff.mp hk
      obtain ⟨e, y₁, he, h⟩ := bind_eq_ok h
      obtain ⟨us, y₂, hus, h⟩ := bind_eq_ok h
      cases h
      rw [protecting] at hp
      split at hp
      case isTrue => cases hp
      case isFalse =>
        cases hp
        obtain ⟨hfirst, hprot, ho⟩ := protectValue_spec hl he
        obtain ⟨hrest, hc⟩ := hi hus
        exact ⟨hl.trans hfirst hrest, hc.take hv ⟨hprot, ho.mono hl hrest⟩⟩

-- Values that can be decrypted are, one call after the other.
theorem exists_unprotecting (hl : store.Lawful later) {clear : OrdMap String String} (hz : later y z)
    (h : ∀ k ∈ keys, ∀ e, params.get k = some e → ∃ v, clear.get k = some v ∧ store.Opens later y v e) :
    ∃ updates z', secretUpdates store.unprotecting params keys z = .ok (updates, z') ∧ later z z' ∧
      Collected store.unprotecting (fun k _ v => clear.get k = some v) params keys updates := by
  induction keys generalizing z
  case nil => exact ⟨[], z, rfl, hl.refl z, .slnil, nofun, nofun⟩
  case cons key keys hi =>
    obtain ⟨hkey, hkeys⟩ := List.forall_mem_cons.mp h
    rw [secretUpdates]
    cases hk : (params.get key).bind store.unprotecting
    case none =>
      obtain ⟨us, z', hus, hlater, hc⟩ := hi hz hkeys
      exact ⟨us, z', hus, hlater, hc.skip hk⟩
    case some c =>
      obtain ⟨e, he, hu⟩ := Option.bind_eq_some_iff.mp hk
      obtain ⟨v, hv, ho⟩ := hkey e he
      obtain ⟨z₁, hcall, hfirst⟩ := ho z hz
      rw [updateValue, hu, Option.getD_some] at hcall
      obtain ⟨us, z', hus, hrest, hc⟩ := hi (hl.trans hz hfirst) hkeys
      exact ⟨_, z', (bind_ok hcall).trans (bind_ok hus), hl.trans hfirst hrest, hc.take he hv⟩

end Updates

-- A server with its secrets encrypted, and what it is read as from a state on.
structure Restores (store : CallStore σ) (later : σ → σ → Prop) (y : σ) (s s' : ServerProfile) : Prop where
  sameBut   : s.SameBut s'
  encrypted : s'.Protected
  opens     : ∀ z, later y z → ∃ z', updateServer store.unprotecting s' z = .ok (s, z') ∧ later z z'

section Servers

variable {s s' : ServerProfile} {ss ss' : List ServerProfile}

theorem Restores.mono (h : store.Restores later y s s') (hl : store.Lawful later) (hz : later y z) :
    store.Restores later z s s' :=
  ⟨h.sameBut, h.encrypted, fun w hw => h.opens w (hl.trans hz hw)⟩

-- No secret is skipped.
theorem secret_of_collected (hc : s.Clear) {us : List (String × String)}
    (h : Collected store.protecting (fun _ v e => isProtected e = true ∧ store.Opens later y v e) s.params
      secretParamKeys us) {k e : String} (hk : k ∈ secretParamKeys) (he : (applyUpdates s.params us).get k = some e) :
    ∃ v, s.params.get k = some v ∧ isProtected e = true ∧ store.Opens later y v e := by
  obtain ⟨v, e', _, hv, he', hq⟩ | ⟨hskip, heq⟩ := h.get secretParamKeys_nodup k
  case inl =>
    cases he.symm.trans he'
    exact ⟨v, hv, hq⟩
  case inr =>
    have hv := heq.symm.trans he
    have hn := hskip hk
    rw [hv, Option.bind_some, protecting_of_clear (hc k hk e hv)] at hn
    cases hn

-- What has been decrypted again is put in the place of what has been encrypted.
theorem applyUpdates_back (hz : later y z) {us us' : List (String × String)}
    (h : Collected store.protecting (fun _ v e => isProtected e = true ∧ store.Opens later y v e) s.params
      secretParamKeys us)
    (hback : Collected store.unprotecting (fun k _ v => s.params.get k = some v) (applyUpdates s.params us)
      secretParamKeys us') : applyUpdates (applyUpdates s.params us) us' = s.params := by
  apply OrdMap.ext_get
  intro k
  obtain ⟨_, v, _, _, hv, hq⟩ | ⟨hskip, heq⟩ := hback.get secretParamKeys_nodup k
  case inl => exact hv.trans hq.symm
  case inr =>
    rw [heq]
    obtain ⟨v, e, hk, hv, he, _, ho⟩ | ⟨_, heq⟩ := h.get secretParamKeys_nodup k
    case inr => exact heq
    case inl =>
      have hn := hskip hk
      rw [he, Option.bind_some] at hn
      obtain ⟨_, hcall, _⟩ := ho z hz
      rw [updateValue, hn] at hcall
      cases hcall
      exact he.trans hv.symm

theorem restores_of_collected (hl : store.Lawful later) (hc : s.Clear) {us : List (String × String)}
    (h : Collected store.protecting (fun _ v e => isProtected e = true ∧ store.Opens later y v e) s.params
      secretParamKeys us) : store.Restores later y s { s with params := applyUpdates s.params us } := by
  have hget := h.get secretParamKeys_nodup
  refine ⟨⟨rfl, fun k hk => ?_, fun k => ?_⟩, fun k hk e he => ?_, fun z hz => ?_⟩
  case refine_1 => exact ((hget k).resolve_left fun ⟨_, _, hm, _⟩ => hk hm).2
  case refine_2 =>
    obtain ⟨v, e, _, hv, he, _⟩ | ⟨_, heq⟩ := hget k
    case inl => simp only [hv, he, Option.isSome_some]
    case inr => exact congrArg Option.isSome heq
  case refine_3 =>
    obtain ⟨_, _, hp, _⟩ := secret_of_collected hc h hk he
    exact hp
  case refine_4 =>
    have hopen (k : String) (hk : k ∈ secretParamKeys) (e : String)
        (he : (applyUpdates s.params us).get k = some e) :
        ∃ v, s.params.get k = some v ∧ store.Opens later y v e := by
      obtain ⟨v, hv, _, ho⟩ := secret_of_collected hc h hk he
      exact ⟨v, hv, ho⟩
    obtain ⟨us', z', hus, hlater, hback⟩ := exists_unprotecting hl hz hopen
    refine ⟨z', (bind_ok hus).trans ?_, hlater⟩
    rw [applyUpdates_back hz h hback]
    rfl

theorem updateServer_spec (hl : store.Lawful later) (hc : s.Clear)
    (h : updateServer store.protecting s x = .ok (s', y)) : later x y ∧ store.Restores later y s s' := by
  obtain ⟨us, y', hus, h⟩ := bind_eq_ok h
  cases h
  obtain ⟨hlater, hcol⟩ := collected_protecting hl hus
  exact ⟨hlater, restores_of_collected hl hc hcol⟩

theorem updateServers_spec (hl : store.Lawful later) (hc : ∀ s ∈ ss, s.Clear)
    (h : updateServers store.protecting ss x = .ok (ss', y)) :
    later x y ∧ List.Forall₂ (store.Restores later y) ss ss' := by
  induction ss generalizing x ss'
  case nil =>
    cases h
    exact ⟨hl.refl _, .nil⟩
  case cons s ss hi =>
    obtain ⟨hs, hss⟩ := List.forall_mem_cons.mp hc
    obtain ⟨s', y₁, hfirst, h⟩ := bind_eq_ok h
    obtain ⟨ss', y₂, hrest, h⟩ := bind_eq_ok h
    cases h
    obtain ⟨hlater₁, hr⟩ := updateServer_spec hl hs hfirst
    obtain ⟨hlater₂, hrs⟩ := hi hss hrest
    exact ⟨hl.trans hlater₁ hlater₂, .cons (hr.mono hl hlater₂) hrs⟩

theorem unprotect_servers (hl : store.Lawful later) (h : List.Forall₂ (store.Restores later y) ss ss')
    (hz : later y z) : ∃ z', updateServers store.unprotecting ss' z = .ok (ss, z') ∧ later z z' := by
  induction h generalizing z
  case nil => exact ⟨z, rfl, hl.refl z⟩
  case cons s s' ss ss' hr _ hi =>
    obtain ⟨z₁, hs, hfirst⟩ := hr.opens z hz
    obtain ⟨z₂, hss, hrest⟩ := hi (hl.trans hz hfirst)
    exact ⟨z₂, (bind_ok hs).trans (bind_ok hss), hl.trans hfirst hrest⟩

theorem secretUpdates_of_protected {params : OrdMap String String} {keys : List String}
    (h : ∀ k ∈ keys, ∀ v, params.get k = some v → isProtected v = true) :
    secretUpdates store.protecting params keys x = .ok ([], x) := by
  induction keys
  case nil => rfl
  case cons key keys hi =>
    obtain ⟨hk, hks⟩ := List.forall_mem_cons.mp h
    have hn : (params.get key).bind store.protecting = none := by
      cases hg : params.get key
      case none   => rfl
      case some v => exact protecting_eq_none_iff.mpr (hk v hg)
    rw [secretUpdates, hn]
    exact hi hks

theorem updateServers_of_protected (h : ∀ s ∈ ss, s.Protected) :
    updateServers store.protecting ss x = .ok (ss, x) := by
  induction ss
  case nil => rfl
  case cons s ss hi =>
    obtain ⟨hs, hss⟩ := List.forall_mem_cons.mp h
    exact (bind_ok (bind_ok (secretUpdates_of_protected hs))).trans (bind_ok (hi hss))

end Servers

section Config

variable {cfg cfg' : AppConfig} {lw lw' : LocalWgConfig}

-- The local server with its secrets encrypted, and what it is read as from a state on.
structure RestoresLocal (store : CallStore σ) (later : σ → σ → Prop) (y : σ) (lw lw' : LocalWgConfig) : Prop where
  sameBut   : lw.SameBut lw'
  encrypted : lw'.Protected
  opens     : ∀ z, later y z → ∃ z', updateLocalWg store.unprotecting lw' z = .ok (lw, z') ∧ later z z'

theorem updateLocalWg_spec (hl : store.Lawful later) (hc : lw.Clear)
    (h : updateLocalWg store.protectingLocal lw x = .ok (lw', y)) :
    later x y ∧ store.RestoresLocal later y lw lw' := by
  obtain ⟨a, y₁, ha, h⟩ := bind_eq_ok h
  obtain ⟨b, y₂, hb, h⟩ := bind_eq_ok h
  obtain ⟨c, y₃, hc', h⟩ := bind_eq_ok h
  cases h
  obtain ⟨hlater₁, hpa, hoa⟩ := protectingLocal_spec hl hc.1 ha
  obtain ⟨hlater₂, hpb, hob⟩ := protectingLocal_spec hl hc.2.1 hb
  obtain ⟨hlater₃, hpc, hoc⟩ := protectingLocal_spec hl hc.2.2 hc'
  refine ⟨hl.trans hlater₁ (hl.trans hlater₂ hlater₃), rfl, ⟨hpa, hpb, hpc⟩, fun z hz => ?_⟩
  obtain ⟨z₁, ha', hz₁⟩ := hoa z (hl.trans hlater₂ (hl.trans hlater₃ hz))
  obtain ⟨z₂, hb', hz₂⟩ := hob z₁ (hl.trans hlater₃ (hl.trans hz hz₁))
  obtain ⟨z₃, hc', hz₃⟩ := hoc z₂ (hl.trans hz (hl.trans hz₁ hz₂))
  exact ⟨z₃, (bind_ok ha').trans ((bind_ok hb').trans (bind_ok hc')), hl.trans hz₁ (hl.trans hz₂ hz₃)⟩

theorem updateLocalWg_of_protected (h : lw.Protected) : updateLocalWg store.protectingLocal lw x = .ok (lw, x) := by
  have hv {v : String} (hv : v ≠ "" → isProtected v = true) : updateValue store.protectingLocal v x = .ok (v, x) := by
    rw [updateValue, protectingLocal_eq_none hv]
    rfl
  exact (bind_ok (hv h.serverPrivate)).trans ((bind_ok (hv h.clientPrivate)).trans (bind_ok (hv h.presharedKey)))

-- What protecting a configuration has done when it has succeeded.
theorem protectConfig_spec (hl : store.Lawful later) (hc : cfg.Clear)
    (h : store.protectConfig cfg x = (cfg', .ok y)) :
    ∃ servers localWg, List.Forall₂ (store.Restores later y) cfg.servers servers ∧
      Option.Rel (store.RestoresLocal later y) cfg.localWg localWg ∧ cfg' = { cfg with servers, localWg } := by
  rw [protectConfig, updateSecrets] at h
  obtain ⟨e, hs⟩ | ⟨servers, y₁, hs⟩ := outcome (updateServers store.protecting cfg.servers) x <;> simp only [hs] at h
  case inl => cases congrArg Prod.snd h
  case inr =>
    obtain ⟨_, hr⟩ := updateServers_spec hl hc.1 hs
    cases hlw : cfg.localWg <;> simp only [hlw] at h
    case none =>
      cases h
      exact ⟨servers, none, hr, .none, by rw [← hlw]⟩
    case some lw =>
      obtain ⟨e, hw⟩ | ⟨lw', y₂, hw⟩ := outcome (updateLocalWg store.protectingLocal lw) y₁ <;> simp only [hw] at h
      case inl => cases congrArg Prod.snd h
      case inr =>
        cases h
        obtain ⟨hlater, hrw⟩ := updateLocalWg_spec hl (hc.2 lw hlw) hw
        exact ⟨servers, some lw', hr.imp fun _ _ hr => hr.mono hl hlater, .some hrw, rfl⟩

-- What was saved is what is loaded.
theorem unprotectConfig_protectConfig (hl : store.Lawful later) (hc : cfg.Clear)
    (h : store.protectConfig cfg x = (cfg', .ok y)) (hz : later y z) :
    ∃ z', store.unprotectConfig cfg' z = (cfg, .ok z') := by
  obtain ⟨servers, localWg, hs, hlw, rfl⟩ := protectConfig_spec hl hc h
  obtain ⟨z₁, hss, hlater⟩ := unprotect_servers hl hs hz
  rw [unprotectConfig, updateSecrets]
  simp only [hss]
  generalize hcfg : cfg.localWg = o at hlw
  cases hlw
  case none => exact ⟨z₁, by simp only [← hcfg]⟩
  case some hw =>
    obtain ⟨z₂, hlocal, _⟩ := hw.opens z₁ (hl.trans hz hlater)
    exact ⟨z₂, by simp only [hlocal, ← hcfg]⟩

theorem protected_of_protectConfig (hl : store.Lawful later) (hc : cfg.Clear)
    (h : store.protectConfig cfg x = (cfg', .ok y)) : cfg'.Protected := by
  obtain ⟨servers, localWg, hs, hlw, rfl⟩ := protectConfig_spec hl hc h
  constructor
  case servers =>
    intro s' hm
    obtain ⟨i, hi, rfl⟩ := List.getElem_of_mem hm
    have hi' : i < cfg.servers.length := hs.length_eq ▸ hi
    exact ((List.forall₂_iff_get.mp hs).2 i hi' hi).encrypted
  case localWg =>
    intro lw' hm
    obtain rfl := Option.mem_def.mp hm
    generalize cfg.localWg = o at hlw
    cases hlw
    case some hw => exact hw.encrypted

theorem sameBut_of_protectConfig (hl : store.Lawful later) (hc : cfg.Clear)
    (h : store.protectConfig cfg x = (cfg', .ok y)) : cfg.SameBut cfg' := by
  obtain ⟨servers, localWg, hs, hlw, rfl⟩ := protectConfig_spec hl hc h
  constructor
  case fields  => rfl
  case servers => exact hs.imp fun _ _ hr => hr.sameBut
  case localWg =>
    dsimp only
    generalize cfg.localWg = o at hlw
    cases hlw
    case none    => exact .none
    case some hw => exact .some hw.sameBut

theorem protectConfig_of_protected (h : cfg.Protected) (x : σ) : store.protectConfig cfg x = (cfg, .ok x) := by
  rw [protectConfig, updateSecrets]
  simp only [updateServers_of_protected h.servers]
  cases hlw : cfg.localWg
  case none    => simp only [← hlw]
  case some lw => simp only [updateLocalWg_of_protected (h.localWg lw hlw), ← hlw]

section Total

-- The store never fails to encrypt.
variable (h : ∀ plain x, ∃ blob y, store.protect plain x = .ok (blob, y))
include h

theorem exists_protectValue (v : String) (x : σ) : ∃ e y, store.protectValue v x = .ok (e, y) := by
  obtain ⟨blob, y, hb⟩ := h (Utf8.encode v.toList) x
  exact ⟨_, y, bind_ok hb⟩

theorem exists_protecting (params : OrdMap String String) (keys : List String) (x : σ) :
    ∃ us y, secretUpdates store.protecting params keys x = .ok (us, y) := by
  induction keys generalizing x
  case nil => exact ⟨[], x, rfl⟩
  case cons key keys hi =>
    rw [secretUpdates]
    cases hk : (params.get key).bind store.protecting
    case none => exact hi x
    case some c =>
      obtain ⟨v, _, hp⟩ := Option.bind_eq_some_iff.mp hk
      rw [protecting] at hp
      split at hp
      case isTrue => cases hp
      case isFalse =>
        cases hp
        obtain ⟨e, y, he⟩ := exists_protectValue h v x
        obtain ⟨us, z, hus⟩ := hi y
        exact ⟨_, z, (bind_ok he).trans (bind_ok hus)⟩

theorem exists_updateServers (ss : List ServerProfile) (x : σ) :
    ∃ ss' y, updateServers store.protecting ss x = .ok (ss', y) := by
  induction ss generalizing x
  case nil => exact ⟨[], x, rfl⟩
  case cons s ss hi =>
    obtain ⟨us, y, hus⟩ := exists_protecting h s.params secretParamKeys x
    obtain ⟨ss', z, hss⟩ := hi y
    exact ⟨_, z, (bind_ok (bind_ok hus)).trans (bind_ok hss)⟩

theorem exists_protectingLocal (v : String) (x : σ) : ∃ e y, updateValue store.protectingLocal v x = .ok (e, y) := by
  rw [updateValue, protectingLocal]
  split
  case isTrue => exact ⟨v, x, rfl⟩
  case isFalse =>
    rw [protecting]
    split
    case isTrue  => exact ⟨v, x, rfl⟩
    case isFalse => exact exists_protectValue h v x

theorem exists_protectConfig (cfg : AppConfig) (x : σ) : ∃ cfg' y, store.protectConfig cfg x = (cfg', .ok y) := by
  obtain ⟨ss, y, hss⟩ := exists_updateServers h cfg.servers x
  rw [protectConfig, updateSecrets]
  simp only [hss]
  cases cfg.localWg
  case none => exact ⟨_, y, rfl⟩
  case some lw =>
    obtain ⟨a, y₁, ha⟩ := exists_protectingLocal h lw.serverPrivate y
    obtain ⟨b, y₂, hb⟩ := exists_protectingLocal h lw.clientPrivate y₁
    obtain ⟨c, y₃, hc⟩ := exists_protectingLocal h lw.presharedKey y₂
    have hw : updateLocalWg store.protectingLocal lw y =
        .ok ({ lw with serverPrivate := a, clientPrivate := b, presharedKey := c }, y₃) :=
      (bind_ok ha).trans ((bind_ok hb).trans (bind_ok hc))
    simp only [hw]
    exact ⟨_, y₃, rfl⟩

end Total

theorem secrets_round_trip (hl : store.Lawful later) (hc : cfg.Clear) (x : σ) :
    (∀ cfg' y, store.protectConfig cfg x = (cfg', .ok y) →
      (∀ z, later y z → ∃ z', store.unprotectConfig cfg' z = (cfg, .ok z')) ∧ cfg'.Protected ∧ cfg.SameBut cfg' ∧
        ∀ z, store.protectConfig cfg' z = (cfg', .ok z)) ∧
    ((∀ plain x, ∃ blob y, store.protect plain x = .ok (blob, y)) →
      ∃ cfg' y, store.protectConfig cfg x = (cfg', .ok y)) := by
  refine ⟨fun cfg' y h => ?_, fun h => exists_protectConfig h cfg x⟩
  have hp := protected_of_protectConfig hl hc h
  refine ⟨fun z hz => ?_, hp, sameBut_of_protectConfig hl hc h, protectConfig_of_protected hp⟩
  exact unprotectConfig_protectConfig hl hc h hz

-- A store that puts a byte of its own, another one every time, in front of what it encrypts.
def saltingStore : CallStore UInt8 where
  protect plain := fun salt => .ok (salt :: plain, salt + 1)
  unprotect
    | _ :: plain => fun salt => .ok (plain, salt)
    | []         => fun _ => .error ⟨"bad blob"⟩

theorem saltingStore_lawful : saltingStore.Lawful fun _ _ => True where
  refl _        := trivial
  trans _ _     := trivial
  protect _     := trivial
  unprotect _   := trivial
  inverts h _   := by
    cases h
    exact ⟨_, rfl⟩

-- Two servers with one password, which is stored as two texts.
def onePassword : AppConfig where
  servers := ["s", "t"].map fun name => {
    name, protocol := .shadowsocks, address := "h", port := 8388,
    params := .ofList [("method", "aes-256-gcm"), ("password", "hunter2")], tags := []
  }
  localWg := some { serverPrivate := "k" }

theorem secrets_round_trip_onePassword :
    ∃ cfg' y, saltingStore.protectConfig onePassword 0 = (cfg', .ok y) ∧ cfg'.Protected ∧
      (∀ z, ∃ z', saltingStore.unprotectConfig cfg' z = (onePassword, .ok z')) ∧
      (cfg'.servers.map fun s => s.params.get "password").Nodup := by
  have hc : onePassword.Clear := by
    have hall : (onePassword.servers.all fun s => secretParamKeys.all fun k =>
        (s.params.get k).all fun v => !isProtected v) = true := by decide
    refine ⟨fun s hs k hk v hv => ?_, fun lw hlw => ?_⟩
    · simpa [hv] using List.all_eq_true.mp (List.all_eq_true.mp hall s hs) k hk
    · cases hlw
      exact ⟨by decide, by decide, by decide⟩
  obtain ⟨hround, hexists⟩ := secrets_round_trip saltingStore_lawful hc 0
  obtain ⟨cfg', y, h⟩ := hexists fun plain x => ⟨_, _, rfl⟩
  obtain ⟨hopen, hp, _⟩ := hround cfg' y h
  refine ⟨cfg', y, h, hp, fun z => hopen z trivial, ?_⟩
  have hnodup : ((saltingStore.protectConfig onePassword 0).1.servers.map fun s => s.params.get "password").Nodup := by
    decide +kernel
  rwa [h] at hnodup

end Config
end CallStore

-- A store without a state: what was saved is what is loaded.
theorem unprotectConfig_protectConfig {store : SecretStore} (h : store.Lawful) {cfg cfg' : AppConfig} (hc : cfg.Clear)
    (hp : protectConfig cfg store = (cfg', .ok ())) : unprotectConfig cfg' store = (cfg, .ok ()) := by
  have hl : store.calls.Lawful fun _ _ => True := by
    refine ⟨fun _ => trivial, fun _ _ => trivial, fun _ => trivial, fun _ => trivial, fun {plain blob x y z} hb _ => ?_⟩
    cases hs : store.protect plain <;> simp only [SecretStore.calls, Calls.ofExcept, hs] at hb
    case error => cases hb
    case ok =>
      cases hb
      refine ⟨(), ?_⟩
      simp only [SecretStore.calls, Calls.ofExcept, h plain blob hs]
      rfl
  obtain ⟨_, hu⟩ := CallStore.unprotectConfig_protectConfig hl hc ((protectConfig_calls cfg).trans hp) trivial
  exact (unprotectConfig_calls cfg').symm.trans hu

end JammVpn
