import JammVpn.Core.SecretCalls

-- What an error of the store leaves of a configuration.
namespace JammVpn.CallStore

variable {σ : Type} {f g : String → Option (Calls σ String)}

-- Secrets that are to be replaced: the value so far, and the call for the new one.
abbrev Secrets (σ : Type) :=
  List (String × Calls σ String)

def calling (l : Secrets σ) : Calls σ (List String) :=
  l.mapM Prod.snd

def paramSecrets (f : String → Option (Calls σ String)) (params : OrdMap String String)
    (keys : List String) : List (String × String × Calls σ String) :=
  keys.filterMap fun key => (params.get key).bind fun value => (f value).map fun call => (key, value, call)

def serverSecrets (f : String → Option (Calls σ String)) (ss : List ServerProfile) : Secrets σ :=
  ss.flatMap fun s => (paramSecrets f s.params secretParamKeys).map Prod.snd

def valueSecrets (g : String → Option (Calls σ String)) (values : List String) : Secrets σ :=
  values.filterMap fun value => (g value).map fun call => (value, call)

def localSecrets (g : String → Option (Calls σ String)) (lw : Option LocalWgConfig) : Secrets σ :=
  lw.toList.flatMap fun lw => valueSecrets g [lw.serverPrivate, lw.clientPrivate, lw.presharedKey]

-- All calls for the servers succeed and change a value, and a later one for the local server fails.
def FailsLate (f g : String → Option (Calls σ String)) (cfg : AppConfig) (x : σ) : Prop :=
  ∃ vs y e, calling (serverSecrets f cfg.servers) x = .ok (vs, y) ∧
    vs ≠ (serverSecrets f cfg.servers).map Prod.fst ∧ calling (localSecrets g cfg.localWg) y = .error e

section Calls

variable {α β : Type} {x y : σ}

-- A value that is made of a result, in the state behind it.
theorem bind_pure_eq (c : Calls σ α) (φ : α → β) (x : σ) :
    (c >>= fun a => pure (φ a)) x = (c x).map fun p => (φ p.1, p.2) := by
  obtain ⟨e, h⟩ | ⟨a, y, h⟩ := outcome c x
  case inl =>
    rw [bind_error h, h]
    rfl
  case inr =>
    rw [bind_ok h, h]
    rfl

theorem calling_cons_error {c : String × Calls σ String} {l : Secrets σ} {e : SecretError}
    (h : c.2 x = .error e) : calling (c :: l) x = .error e := by
  rw [calling, List.mapM_cons]
  exact bind_error h

theorem calling_cons_ok {c : String × Calls σ String} {l : Secrets σ} {v : String}
    (h : c.2 x = .ok (v, y)) : calling (c :: l) x = (calling l y).map fun p => (v :: p.1, p.2) := by
  rw [calling, List.mapM_cons, bind_ok h]
  exact bind_pure_eq (calling l) (v :: ·) y

theorem length_of_calling {l : Secrets σ} {vs : List String} (h : calling l x = .ok (vs, y)) :
    vs.length = l.length := by
  induction l generalizing x vs
  case nil =>
    cases h
    rfl
  case cons c l hi =>
    obtain ⟨e, hc⟩ | ⟨v, z, hc⟩ := outcome c.2 x
    case inl => cases (calling_cons_error hc).symm.trans h
    case inr =>
      rw [calling_cons_ok hc] at h
      obtain ⟨e, hl⟩ | ⟨us, w, hl⟩ := outcome (calling l) z <;> rw [hl] at h
      case inl => cases h
      case inr =>
        cases h
        simp [hi hl]

theorem calling_append_error {l l' : Secrets σ} {e : SecretError} (h : calling l x = .error e) :
    calling (l ++ l') x = .error e := by
  rw [calling, List.mapM_append]
  exact bind_error h

theorem calling_append_ok {l l' : Secrets σ} {vs : List String} (h : calling l x = .ok (vs, y)) :
    calling (l ++ l') x = (calling l' y).map fun p => (vs ++ p.1, p.2) := by
  rw [calling, List.mapM_append]
  exact (bind_ok h).trans (bind_pure_eq (calling l') (vs ++ ·) y)

end Calls

section Params

variable {params : OrdMap String String} {keys : List String} {key : String}

theorem paramSecrets_cons_none (h : (params.get key).bind f = none) :
    paramSecrets f params (key :: keys) = paramSecrets f params keys := by
  apply List.filterMap_cons_none
  cases hv : params.get key
  case none   => rfl
  case some v =>
    have hf : f v = none := by simpa [hv] using h
    simp [hf]

theorem paramSecrets_cons_some {v : String} {c : Calls σ String} (hv : params.get key = some v)
    (hf : f v = some c) :
    paramSecrets f params (key :: keys) = (key, v, c) :: paramSecrets f params keys :=
  List.filterMap_cons_some (by simp [hv, hf])

-- The updates of a server are the results of its calls, in their order.
theorem secretUpdates_eq (x : σ) :
    secretUpdates f params keys x = (calling ((paramSecrets f params keys).map Prod.snd) x).map fun p =>
      (((paramSecrets f params keys).map Prod.fst).zip p.1, p.2) := by
  induction keys generalizing x
  case nil => rfl
  case cons key keys hi =>
    rw [secretUpdates]
    cases hc : (params.get key).bind f
    case none =>
      rw [paramSecrets_cons_none hc]
      exact hi x
    case some c =>
      obtain ⟨v, hv, hf⟩ := Option.bind_eq_some_iff.mp hc
      rw [paramSecrets_cons_some hv hf, List.map_cons, List.map_cons]
      obtain ⟨e, h⟩ | ⟨v', y, h⟩ := outcome c x
      case inl =>
        rw [calling_cons_error h]
        exact bind_error h
      case inr =>
        rw [calling_cons_ok h]
        refine (bind_ok h).trans ((bind_pure_eq _ _ y).trans ?_)
        rw [hi y]
        cases calling ((paramSecrets f params keys).map Prod.snd) y <;> rfl

theorem mem_paramSecrets {p : String × String × Calls σ String} (h : p ∈ paramSecrets f params keys) :
    p.1 ∈ keys ∧ params.get p.1 = some p.2.1 ∧ f p.2.1 = some p.2.2 := by
  have ⟨key, hk, h⟩ := List.mem_filterMap.mp h
  have ⟨v, hv, h⟩ := Option.bind_eq_some_iff.mp h
  have ⟨c, hc, h⟩ := Option.map_eq_some_iff.mp h
  exact h ▸ ⟨hk, hv, hc⟩

theorem nodup_paramSecrets (h : keys.Nodup) : ((paramSecrets f params keys).map Prod.fst).Nodup := by
  induction keys
  case nil => exact .nil
  case cons key keys hi =>
    have ⟨hm, hn⟩ := List.nodup_cons.mp h
    cases hc : (params.get key).bind f
    case none =>
      rw [paramSecrets_cons_none hc]
      exact hi hn
    case some c =>
      obtain ⟨v, hv, hf⟩ := Option.bind_eq_some_iff.mp hc
      rw [paramSecrets_cons_some hv hf, List.map_cons]
      refine List.nodup_cons.mpr ⟨fun hk => hm ?_, hi hn⟩
      have ⟨p, hp, (he : p.1 = key)⟩ := List.mem_map.mp hk
      exact he ▸ (mem_paramSecrets hp).1

end Params

-- Updates that are applied change nothing only if every value is the one that is there.
theorem applyUpdates_zip_eq_iff {params : OrdMap String String}
    {l : List (String × String × Calls σ String)} {vs : List String} (hl : vs.length = l.length)
    (hn : (l.map Prod.fst).Nodup) (hv : ∀ p ∈ l, params.get p.1 = some p.2.1) :
    applyUpdates params ((l.map Prod.fst).zip vs) = params ↔ vs = (l.map Prod.snd).map Prod.fst := by
  induction l generalizing vs
  case nil => simp [List.length_eq_zero_iff.mp hl, applyUpdates]
  case cons p l hi =>
    obtain ⟨v, vs, rfl⟩ := List.exists_cons_of_length_eq_add_one hl
    obtain ⟨hm, hn⟩ := List.nodup_cons.mp hn
    have hp := hv p (.head _)
    -- The first binding is written once.
    have hg : (applyUpdates params ((p.1, v) :: (l.map Prod.fst).zip vs)).get p.1 = some v := by
      have hne : ∀ e ∈ (l.map Prod.fst).zip vs, e.1 ≠ p.1 := fun e he hk => hm (hk ▸ (List.of_mem_zip he).1)
      exact (get_applyUpdates_of_not_mem hne).trans (by simp [OrdMap.get_insert])
    have hs (h : v = p.2.1) : applyUpdates params ((p.1, v) :: (l.map Prod.fst).zip vs) =
        applyUpdates params ((l.map Prod.fst).zip vs) := by
      have : params.insert p.1 v = params := by
        apply OrdMap.ext_get
        intro k
        rw [OrdMap.get_insert]
        split
        case isTrue hk  => rw [hk, hp, h]
        case isFalse hk => rfl
      exact congrArg (fun m => applyUpdates m ((l.map Prod.fst).zip vs)) this
    have hi := hi (Nat.succ.inj hl) hn fun q hq => hv q (.tail _ hq)
    simp only [List.map_cons, List.zip_cons_cons, List.cons.injEq]
    constructor
    case mp =>
      intro h
      have he : v = p.2.1 := by simpa [h, hp] using hg.symm
      exact ⟨he, hi.mp (hs he ▸ h)⟩
    case mpr =>
      rintro ⟨he, h⟩
      exact (hs he).trans (hi.mpr h)

theorem with_params_eq_iff {s : ServerProfile} {params : OrdMap String String} :
    { s with params } = s ↔ params = s.params := by
  cases s
  simp

-- The servers are updated exactly if all calls succeed, and then to what the calls returned.
theorem updateServers_outcome (ss : List ServerProfile) (x : σ) :
    (∃ e, calling (serverSecrets f ss) x = .error e ∧ updateServers f ss x = .error e) ∨
    ∃ vs y ss', calling (serverSecrets f ss) x = .ok (vs, y) ∧ updateServers f ss x = .ok (ss', y) ∧
      (ss' = ss ↔ vs = (serverSecrets f ss).map Prod.fst) := by
  induction ss generalizing x
  case nil => exact .inr ⟨[], x, [], rfl, rfl, by simp [serverSecrets]⟩
  case cons s ss hi =>
    have hs : serverSecrets f (s :: ss) =
        (paramSecrets f s.params secretParamKeys).map Prod.snd ++ serverSecrets f ss := rfl
    rw [hs, updateServers]
    have hu := @secretUpdates_eq _ f s.params secretParamKeys x
    obtain ⟨e, h⟩ | ⟨us, y, h⟩ := outcome (calling ((paramSecrets f s.params secretParamKeys).map Prod.snd)) x <;>
      rw [h] at hu
    case inl => exact .inl ⟨e, calling_append_error h, bind_error (bind_error hu)⟩
    case inr =>
      have hu : updateServer f s x = .ok ({ s with params := applyUpdates s.params _ }, y) := bind_ok hu
      rw [calling_append_ok h, bind_ok hu]
      obtain ⟨e, hc, hl⟩ | ⟨vs, z, ss', hc, hl, he⟩ := hi y
      case inl => exact .inl ⟨e, congrArg _ hc, bind_error hl⟩
      case inr =>
        refine .inr ⟨us ++ vs, z, _, congrArg _ hc, bind_ok hl, ?_⟩
        have hlen : us.length = (paramSecrets f s.params secretParamKeys).length := by
          simpa using length_of_calling h
        have hz := applyUpdates_zip_eq_iff hlen (nodup_paramSecrets secretParamKeys_nodup)
          fun p hp => (mem_paramSecrets hp).2.1
        have happ : us ++ vs = ((paramSecrets f s.params secretParamKeys).map Prod.snd ++
            serverSecrets f ss).map Prod.fst ↔
            us = ((paramSecrets f s.params secretParamKeys).map Prod.snd).map Prod.fst ∧
            vs = (serverSecrets f ss).map Prod.fst := by
          rw [List.map_append]
          constructor
          case mp  => exact fun h => List.append_inj h (by simpa using hlen)
          case mpr =>
            rintro ⟨h, h'⟩
            rw [h, h']
        rw [happ, ← hz, ← he, List.cons.injEq, with_params_eq_iff]

-- The local server is updated exactly if all calls for it succeed.
def Fails {α : Type} (c : Calls σ α) (x : σ) : Prop :=
  ∃ e, c x = .error e

theorem fails_updateValue_bind {α : Type} {v : String} {values : List String} {k : String → Calls σ α}
    (h : ∀ v y, Fails (k v) y ↔ Fails (calling (valueSecrets g values)) y) (x : σ) :
    Fails (updateValue g v >>= k) x ↔ Fails (calling (valueSecrets g (v :: values))) x := by
  rw [updateValue, valueSecrets, List.filterMap_cons]
  cases g v
  case none   => exact h v x
  case some c =>
    obtain ⟨e, hc⟩ | ⟨v', y, hc⟩ := outcome c x
    case inl => exact iff_of_true ⟨e, bind_error hc⟩ ⟨e, calling_cons_error hc⟩
    case inr =>
      refine Iff.trans (iff_of_eq (congrArg (fun r => ∃ e, r = Except.error e) (bind_ok hc))) ((h v' y).trans ?_)
      show _ ↔ ∃ e, calling ((v, c) :: valueSecrets g values) x = .error e
      rw [calling_cons_ok hc, Fails]
      cases calling (valueSecrets g values) y <;> simp [Except.map]

theorem fails_updateLocalWg (lw : LocalWgConfig) (x : σ) :
    Fails (updateLocalWg g lw) x ↔ Fails (calling (localSecrets g (some lw))) x := by
  have hl : localSecrets g (some lw) = valueSecrets g [lw.serverPrivate, lw.clientPrivate, lw.presharedKey] :=
    List.append_nil _
  rw [hl, updateLocalWg]
  refine fails_updateValue_bind (fun _ _ => fails_updateValue_bind (fun _ _ => fails_updateValue_bind ?_ _) _) x
  intro v y
  refine iff_of_false ?_ ?_
  case refine_1 =>
    rintro ⟨e, h⟩
    cases h
  case refine_2 =>
    rintro ⟨e, h⟩
    cases h

-- An error undoes nothing, so the servers must not have been changed before it.
theorem updateSecrets_keeps (cfg : AppConfig) (x : σ) :
    (∀ e, (updateSecrets f g cfg x).2 = .error e → (updateSecrets f g cfg x).1 = cfg) ↔
      ¬FailsLate f g cfg x := by
  obtain ⟨e, hc, hs⟩ | ⟨vs, y, ss', hc, hs, he⟩ := updateServers_outcome (f := f) cfg.servers x
  case inl =>
    have hr : updateSecrets f g cfg x = (cfg, .error e) := by simp only [updateSecrets, hs]
    refine iff_of_true (fun _ _ => by rw [hr]) ?_
    rintro ⟨vs, y, e', h, -⟩
    cases hc.symm.trans h
  case inr =>
    have hf : FailsLate f g cfg x ↔ ss' ≠ cfg.servers ∧ Fails (calling (localSecrets g cfg.localWg)) y := by
      constructor
      case mp =>
        rintro ⟨vs', y', e, h, hn, hl⟩
        cases hc.symm.trans h
        exact ⟨mt he.mp hn, e, hl⟩
      case mpr =>
        rintro ⟨hn, e, hl⟩
        exact ⟨vs, y, e, hc, mt he.mpr hn, hl⟩
    rw [hf]
    cases hl : cfg.localWg
    case none =>
      have hr : (updateSecrets f g cfg x).2 = .ok y := by simp only [updateSecrets, hs, hl]
      refine iff_of_true (fun e h => by cases hr.symm.trans h) ?_
      rintro ⟨-, e, h⟩
      cases h
    case some lw =>
      rw [← fails_updateLocalWg]
      obtain ⟨e, h⟩ | ⟨lw', z, h⟩ := outcome (updateLocalWg g lw) y
      case inl =>
        have hr : updateSecrets f g cfg x = ({ cfg with servers := ss' }, .error e) := by
          simp only [updateSecrets, hs, hl, h]
        have hcfg : { cfg with servers := ss' } = cfg ↔ ss' = cfg.servers := by
          cases cfg
          simp
        rw [hr]
        constructor
        case mp  =>
          rintro hk ⟨hn, -⟩
          exact hn (hcfg.mp (hk e rfl))
        case mpr => exact fun hk _ _ => hcfg.mpr (of_not_not fun hn => hk ⟨hn, e, h⟩)
      case inr =>
        have hr : (updateSecrets f g cfg x).2 = .ok z := by simp only [updateSecrets, hs, hl, h]
        refine iff_of_true (fun e h => by cases hr.symm.trans h) ?_
        rintro ⟨-, e, he⟩
        cases h.symm.trans he

-- A protected value is never the value itself.
theorem protecting_ne {store : CallStore σ} {v v' : String} {c : Calls σ String} {x y : σ}
    (h : store.protecting v = some c) (hc : c x = .ok (v', y)) : v' ≠ v := by
  rw [protecting] at h
  split at h
  case isTrue  => cases h
  case isFalse hp =>
    cases h
    rintro rfl
    obtain ⟨e, hb⟩ | ⟨blob, z, hb⟩ := outcome (store.protect (Utf8.encode v'.toList)) x
    case inl => cases hc.symm.trans (bind_error hb)
    case inr =>
      have hv := congrArg (Except.map Prod.fst) (hc.symm.trans (bind_ok hb))
      have hv : v' = .ofList (encPrefix ++ (Base64.encodeStandard blob).toList) := Except.ok.inj hv
      refine hp (List.isPrefixOf_iff_prefix.mpr ⟨(Base64.encodeStandard blob).toList, ?_⟩)
      rw [hv, String.toList_ofList]

theorem not_failsLate_iff {cfg : AppConfig} {x : σ} :
    ¬FailsLate f g cfg x ↔ ∀ vs y, calling (serverSecrets f cfg.servers) x = .ok (vs, y) →
      vs = (serverSecrets f cfg.servers).map Prod.fst ∨
      ∃ us z, calling (localSecrets g cfg.localWg) y = .ok (us, z) := by
  constructor
  case mp =>
    intro hf vs y h
    refine (outcome _ y).imp_left fun ⟨e, he⟩ => ?_
    exact of_not_not fun hn => hf ⟨vs, y, e, h, hn, he⟩
  case mpr =>
    rintro h ⟨vs, y, e, hc, hn, he⟩
    obtain ⟨us, z, hz⟩ := (h vs y hc).resolve_left hn
    cases he.symm.trans hz

theorem calling_protecting {store : CallStore σ} {ss : List ServerProfile} {vs : List String} {x y : σ}
    (h : calling (serverSecrets store.protecting ss) x = .ok (vs, y)) :
    vs = (serverSecrets store.protecting ss).map Prod.fst ↔ serverSecrets store.protecting ss = [] := by
  have hl : ∀ p ∈ serverSecrets store.protecting ss, store.protecting p.1 = some p.2 := by
    intro p hp
    have ⟨s, _, hp⟩ := List.mem_flatMap.mp hp
    have ⟨q, hq, hp⟩ := List.mem_map.mp hp
    exact hp ▸ (mem_paramSecrets hq).2.2
  cases hs : serverSecrets store.protecting ss
  case nil =>
    rw [hs] at h
    cases h
    simp
  case cons p l =>
    rw [hs] at h hl
    refine iff_of_false (fun he => ?_) (List.cons_ne_nil _ _)
    obtain ⟨e, hc⟩ | ⟨v, z, hc⟩ := outcome p.2 x
    case inl => cases (calling_cons_error hc).symm.trans h
    case inr =>
      rw [calling_cons_ok hc] at h
      obtain ⟨e, hr⟩ | ⟨us, w, hr⟩ := outcome (calling l) z <;> rw [hr] at h
      case inl => cases h
      case inr =>
        have hv : v :: us = p.1 :: l.map Prod.fst := (congrArg Prod.fst (Except.ok.inj h)).trans he
        exact protecting_ne (hl p (.head _)) hc (List.cons.inj hv).1

-- A failed call leaves the configuration as it was, except after all calls for the servers succeeded
-- and some server has a secret that they changed.
theorem failed_config (store : CallStore σ) (cfg : AppConfig) (x : σ) :
    ((∀ e, (protectConfig store cfg x).2 = .error e → (protectConfig store cfg x).1 = cfg) ↔
      ∀ vs y, calling (serverSecrets store.protecting cfg.servers) x = .ok (vs, y) →
        serverSecrets store.protecting cfg.servers = [] ∨
        ∃ us z, calling (localSecrets store.protectingLocal cfg.localWg) y = .ok (us, z)) ∧
    ((∀ e, (unprotectConfig store cfg x).2 = .error e → (unprotectConfig store cfg x).1 = cfg) ↔
      ∀ vs y, calling (serverSecrets store.unprotecting cfg.servers) x = .ok (vs, y) →
        vs = (serverSecrets store.unprotecting cfg.servers).map Prod.fst ∨
        ∃ us z, calling (localSecrets store.unprotecting cfg.localWg) y = .ok (us, z)) := by
  refine ⟨?_, (updateSecrets_keeps cfg x).trans not_failsLate_iff⟩
  refine (updateSecrets_keeps cfg x).trans (not_failsLate_iff.trans ?_)
  exact forall₂_congr fun vs y => forall_congr' fun h => or_congr_left (calling_protecting h)

-- A store that refuses a single byte.
def refusingStore : SecretStore where
  protect plain := if plain = [119] then .error ⟨"CryptProtectData"⟩ else .ok plain
  unprotect blob := if blob = [119] then .error ⟨"CryptUnprotectData"⟩ else .ok blob

theorem password_protected_before_localWg :
    ¬∀ (σ : Type) (store : CallStore σ) (cfg : AppConfig) (x : σ) (e : SecretError),
      (protectConfig store cfg x).2 = .error e → (protectConfig store cfg x).1 = cfg := by
  intro h
  let cfg : AppConfig :=
    { servers := [⟨"A", .trojan, "h", 443, .ofList [("password", "p")], []⟩],
      localWg := some { serverPrivate := "w" } }
  have h := h Unit refusingStore.calls cfg () ⟨"CryptProtectData"⟩
  rw [protectConfig_calls] at h
  have h := congrArg (fun cfg => cfg.servers.map fun s => s.params.get "password") (h (by decide +kernel))
  exact absurd h (by decide +kernel)

end JammVpn.CallStore
