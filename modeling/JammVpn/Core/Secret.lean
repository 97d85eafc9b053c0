import JammVpn.Core.Base64
import JammVpn.Core.Config

namespace JammVpn

open Text

structure SecretError where
  message : String
  deriving DecidableEq

-- Encryption by the operating system; both directions can fail.
structure SecretStore where
  protect   : List UInt8 → Except SecretError (List UInt8)
  unprotect : List UInt8 → Except SecretError (List UInt8)

def noopStore : SecretStore where
  protect := .ok
  unprotect := .ok

-- What was encrypted can be decrypted.
def SecretStore.Lawful (store : SecretStore) : Prop :=
  ∀ plain blob, store.protect plain = .ok blob → store.unprotect blob = .ok plain

def encPrefix : List Char :=
  "enc:".toList

def secretParamKeys : List String :=
  ["password", "username", "uuid", "private_key", "preshared_key", "auth", "obfs-password"]

def isProtected (value : String) : Bool :=
  encPrefix.isPrefixOf value.toList

namespace SecretStore

variable (store : SecretStore)

def protectValue (value : String) : Except SecretError String := do
  let blob ← store.protect (Utf8.encode value.toList)
  return .ofList (encPrefix ++ (Base64.encodeStandard blob).toList)

-- The value behind the marker. The message of the last error is without the position that the source
-- adds to it.
def unprotectValue (b64 : List Char) : Except SecretError String := do
  let blob ← match Base64.decodeLoose (.ofList b64) with
    | .ok blob => .ok blob
    | .error e => .error ⟨"base64: " ++ e.display⟩
  let plain ← store.unprotect blob
  match Utf8.decode plain with
  | some s => .ok (.ofList s)
  | none   => .error ⟨"utf8: invalid utf-8 sequence"⟩

-- What becomes of a value; `none` leaves it as it is.
def protecting (value : String) : Option (Except SecretError String) :=
  if isProtected value then none else some (store.protectValue value)

def unprotecting (value : String) : Option (Except SecretError String) :=
  (stripPrefix encPrefix value.toList).map store.unprotectValue

end SecretStore

-- New values for secrets, by key. They are collected before any of them is applied.
def secretUpdates (f : String → Option (Except SecretError String)) (params : OrdMap String String) :
    List String → Except SecretError (List (String × String))
  | []          => .ok []
  | key :: keys =>
    match (params.get key).bind f with
    | none   => secretUpdates f params keys
    | some r => do
      let value ← r
      let updates ← secretUpdates f params keys
      return (key, value) :: updates

def applyUpdates (params : OrdMap String String) (updates : List (String × String)) :
    OrdMap String String :=
  updates.foldl (fun m e => m.insert e.1 e.2) params

def updateServer (f : String → Option (Except SecretError String)) (s : ServerProfile) :
    Except SecretError ServerProfile := do
  let updates ← secretUpdates f s.params secretParamKeys
  return { s with params := applyUpdates s.params updates }

def updateServers (f : String → Option (Except SecretError String)) :
    List ServerProfile → Except SecretError (List ServerProfile)
  | []      => .ok []
  | s :: ss => do
    let s ← updateServer f s
    let ss ← updateServers f ss
    return s :: ss

def updateLocalWg (f : String → Except SecretError String) (lw : LocalWgConfig) :
    Except SecretError LocalWgConfig := do
  let serverPrivate ← f lw.serverPrivate
  let clientPrivate ← f lw.clientPrivate
  let presharedKey ← f lw.presharedKey
  return { lw with serverPrivate, clientPrivate, presharedKey }

-- The servers are done before the local server: an error there leaves them changed.
def updateSecrets (f : String → Option (Except SecretError String))
    (g : String → Except SecretError String) (cfg : AppConfig) :
    AppConfig × Except SecretError Unit :=
  match updateServers f cfg.servers with
  | .error e    => (cfg, .error e)
  | .ok servers =>
    match cfg.localWg with
    | none    => ({ cfg with servers }, .ok ())
    | some lw =>
      match updateLocalWg g lw with
      | .error e => ({ cfg with servers }, .error e)
      | .ok lw   => ({ cfg with servers, localWg := some lw }, .ok ())

def protectConfig (cfg : AppConfig) (store : SecretStore) : AppConfig × Except SecretError Unit :=
  updateSecrets store.protecting
    (fun v => if v = "" then .ok v else (store.protecting v).getD (.ok v)) cfg

def unprotectConfig (cfg : AppConfig) (store : SecretStore) : AppConfig × Except SecretError Unit :=
  updateSecrets store.unprotecting (fun v => (store.unprotecting v).getD (.ok v)) cfg

-- What collected updates do to a single binding.
section Updates

variable {f : String → Option (Except SecretError String)} {params : OrdMap String String}
variable {keys : List String} {updates : List (String × String)}

theorem get_applyUpdates_of_not_mem {k : String} (h : ∀ e ∈ updates, e.1 ≠ k) :
    (applyUpdates params updates).get k = params.get k := by
  induction updates generalizing params
  case nil => rfl
  case cons e es hi =>
    have hk : k ≠ e.1 := (h e (by simp)).symm
    apply (hi fun e' he => h e' (by simp [he])).trans
    rw [OrdMap.get_insert, if_neg hk]

-- A key is skipped, or its value is updated ahead of the other keys.
theorem secretUpdates_cons {key : String}
    (h : secretUpdates f params (key :: keys) = .ok updates) :
    (params.get key).bind f = none ∧ secretUpdates f params keys = .ok updates ∨
    ∃ v v' us, params.get key = some v ∧ f v = some (.ok v') ∧
      secretUpdates f params keys = .ok us ∧ updates = (key, v') :: us := by
  simp only [secretUpdates] at h
  split at h
  case h_1 hn => exact .inl ⟨hn, h⟩
  case h_2 r hr =>
    have ⟨v, hv, hf⟩ := Option.bind_eq_some_iff.mp hr
    cases r
    case error => contradiction
    case ok v' =>
      cases hu : secretUpdates f params keys <;> simp only [hu] at h
      case error => contradiction
      case ok us => exact .inr ⟨v, v', us, hv, hf, rfl, (Except.ok.inj h).symm⟩

end Updates

-- No secret looks like an encrypted value.
section Clear

theorem stripPrefix_eq_none_of_clear {v : String} (h : isProtected v = false) :
    stripPrefix encPrefix v.toList = none := by
  cases hs : stripPrefix encPrefix v.toList
  case none => rfl
  case some t =>
    rw [stripPrefix_eq_some_iff] at hs
    have : isProtected v = true := List.isPrefixOf_iff_prefix.mpr ⟨t, hs.symm⟩
    exact absurd this (by simp [h])

def ServerProfile.Clear (s : ServerProfile) : Prop :=
  ∀ k ∈ secretParamKeys, ∀ v, s.params.get k = some v → isProtected v = false

def LocalWgConfig.Clear (lw : LocalWgConfig) : Prop :=
  isProtected lw.serverPrivate = false ∧ isProtected lw.clientPrivate = false ∧
  isProtected lw.presharedKey = false

def AppConfig.Clear (cfg : AppConfig) : Prop :=
  (∀ s ∈ cfg.servers, s.Clear) ∧ ∀ lw ∈ cfg.localWg, lw.Clear

theorem secretParamKeys_nodup : secretParamKeys.Nodup := by
  decide

theorem updateLocalWg_eq_ok {f : String → Except SecretError String} {lw lw' : LocalWgConfig}
    (h : updateLocalWg f lw = .ok lw') :
    f lw.serverPrivate = .ok lw'.serverPrivate ∧ f lw.clientPrivate = .ok lw'.clientPrivate ∧
    f lw.presharedKey = .ok lw'.presharedKey ∧
    lw' = { lw with
      serverPrivate := lw'.serverPrivate, clientPrivate := lw'.clientPrivate,
      presharedKey := lw'.presharedKey } := by
  simp only [updateLocalWg] at h
  cases h₁ : f lw.serverPrivate <;> simp only [h₁] at h
  case error => contradiction
  cases h₂ : f lw.clientPrivate <;> simp only [h₂] at h
  case error => contradiction
  cases h₃ : f lw.presharedKey <;> simp only [h₃] at h
  case error => contradiction
  cases h
  exact ⟨rfl, rfl, rfl, rfl⟩

end Clear

-- A store that fails where another one does not makes no other difference.
section Weaker

variable {f f' : String → Option (Except SecretError String)}

theorem secretUpdates_of_weaker (h : ∀ v, (∃ e, f v = some (.error e)) ∨ f' v = f v)
    {params : OrdMap String String} {keys : List String} {updates : List (String × String)}
    (hu : secretUpdates f params keys = .ok updates) : secretUpdates f' params keys = .ok updates := by
  induction keys generalizing updates
  case nil => exact hu
  case cons key keys hi =>
    have hv (v : String) (hf : ∀ e, f v ≠ some (.error e)) : f' v = f v :=
      (h v).resolve_left fun ⟨e, he⟩ => hf e he
    obtain ⟨hn, hs⟩ | ⟨v, v', us, hg, hf, hs, rfl⟩ := secretUpdates_cons hu
    case inl =>
      have hn' : (params.get key).bind f' = none := by
        cases hg : params.get key
        case none   => rfl
        case some v =>
          have hf : f v = none := by simpa [hg] using hn
          simp [hv v (by simp [hf]), hf]
      simp only [secretUpdates, hn', hi hs]
    case inr =>
      have hf' : f' v = some (.ok v') := (hv v (by simp [hf])).trans hf
      simp only [secretUpdates, hg, Option.bind_some, hf', hi hs]
      rfl

theorem updateServers_of_weaker (h : ∀ v, (∃ e, f v = some (.error e)) ∨ f' v = f v)
    {ss ss' : List ServerProfile} (hu : updateServers f ss = .ok ss') :
    updateServers f' ss = .ok ss' := by
  induction ss generalizing ss' <;> simp only [updateServers, updateServer] at hu
  case nil => exact hu
  case cons s ss hi =>
    cases hs : secretUpdates f s.params secretParamKeys <;> simp only [hs] at hu
    case error => contradiction
    case ok us =>
      cases hss : updateServers f ss <;> simp only [hss] at hu
      case error => contradiction
      case ok ss' =>
        cases hu
        simp only [updateServers, updateServer, secretUpdates_of_weaker h hs, hi hss]
        rfl

theorem unprotectConfig_of_weaker {store store' : SecretStore} {cfg cfg' : AppConfig}
    (h : ∀ v, (∃ e, store.unprotecting v = some (.error e)) ∨
      store'.unprotecting v = store.unprotecting v)
    (hu : unprotectConfig cfg store = (cfg', .ok ())) :
    unprotectConfig cfg store' = (cfg', .ok ()) := by
  simp only [unprotectConfig, updateSecrets] at hu
  cases hs : updateServers store.unprotecting cfg.servers <;> simp only [hs] at hu
  case error => simp at hu
  case ok ss =>
    have hs' := updateServers_of_weaker h hs
    cases hl : cfg.localWg <;> simp only [hl] at hu
    case none =>
      simp only [unprotectConfig, updateSecrets, hs', hl]
      exact hu
    case some lw =>
      split at hu
      case h_1 => simp at hu
      case h_2 lw' hw =>
        have hv {v v' : String} (hv : (store.unprotecting v).getD (.ok v) = .ok v') :
            (store'.unprotecting v).getD (.ok v) = .ok v' := by
          obtain ⟨e, he⟩ | he := h v
          case inl => simp [he] at hv
          case inr => rwa [he]
        have ⟨h₁, h₂, h₃, he⟩ := updateLocalWg_eq_ok hw
        have hw' : updateLocalWg (fun v => (store'.unprotecting v).getD (.ok v)) lw = .ok lw' := by
          simp only [updateLocalWg, hv h₁, hv h₂, hv h₃]
          rw [he]
          rfl
        simp only [unprotectConfig, updateSecrets, hs', hl, hw']
        exact hu

end Weaker
end JammVpn
