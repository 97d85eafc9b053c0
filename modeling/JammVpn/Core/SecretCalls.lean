import JammVpn.Core.Secret

-- The same functions with a store that can answer every call differently, and so fail at any of them.
namespace JammVpn

open Text

-- Calls of a store, each of which leaves it in another state.
abbrev Calls (σ α : Type) :=
  StateT σ (Except SecretError) α

def Calls.ofExcept {σ α : Type} (r : Except SecretError α) : Calls σ α :=
  fun x => r.map (·, x)

structure CallStore (σ : Type) where
  protect   : List UInt8 → Calls σ (List UInt8)
  unprotect : List UInt8 → Calls σ (List UInt8)

-- A store that has no state.
def SecretStore.calls (store : SecretStore) : CallStore Unit where
  protect plain := .ofExcept (store.protect plain)
  unprotect blob := .ofExcept (store.unprotect blob)

namespace CallStore

variable {σ : Type}

section Values

variable (store : CallStore σ)

def protectValue (value : String) : Calls σ String := do
  let blob ← store.protect (Utf8.encode value.toList)
  return .ofList (encPrefix ++ (Base64.encodeStandard blob).toList)

def unprotectValue (b64 : List Char) : Calls σ String := do
  let blob ← match Base64.decodeLoose (.ofList b64) with
    | .ok blob => .ofExcept (.ok blob)
    | .error e => .ofExcept (.error ⟨"base64: " ++ e.display⟩)
  let plain ← store.unprotect blob
  match Utf8.decode plain with
  | some s => .ofExcept (.ok (.ofList s))
  | none   => .ofExcept (.error ⟨"utf8: invalid utf-8 sequence"⟩)

def protecting (value : String) : Option (Calls σ String) :=
  if isProtected value then none else some (store.protectValue value)

def unprotecting (value : String) : Option (Calls σ String) :=
  (stripPrefix encPrefix value.toList).map store.unprotectValue

def protectingLocal (value : String) : Option (Calls σ String) :=
  if value = "" then none else store.protecting value

end Values

variable (f g : String → Option (Calls σ String))

def secretUpdates (params : OrdMap String String) : List String → Calls σ (List (String × String))
  | []          => return []
  | key :: keys =>
    match (params.get key).bind f with
    | none   => secretUpdates params keys
    | some c => do
      let value ← c
      let updates ← secretUpdates params keys
      return (key, value) :: updates

def updateServer (s : ServerProfile) : Calls σ ServerProfile := do
  let updates ← secretUpdates f s.params secretParamKeys
  return { s with params := applyUpdates s.params updates }

def updateServers : List ServerProfile → Calls σ (List ServerProfile)
  | []      => return []
  | s :: ss => do
    let s ← updateServer f s
    let ss ← updateServers ss
    return s :: ss

def updateValue (value : String) : Calls σ String :=
  (g value).getD (pure value)

def updateLocalWg (lw : LocalWgConfig) : Calls σ LocalWgConfig := do
  let serverPrivate ← updateValue g lw.serverPrivate
  let clientPrivate ← updateValue g lw.clientPrivate
  let presharedKey ← updateValue g lw.presharedKey
  return { lw with serverPrivate, clientPrivate, presharedKey }

-- The configuration, and an error or the state that the store is left in.
def updateSecrets (cfg : AppConfig) (x : σ) : AppConfig × Except SecretError σ :=
  match updateServers f cfg.servers x with
  | .error e         => (cfg, .error e)
  | .ok (servers, y) =>
    match cfg.localWg with
    | none    => ({ cfg with servers }, .ok y)
    | some lw =>
      match updateLocalWg g lw y with
      | .error e    => ({ cfg with servers }, .error e)
      | .ok (lw, z) => ({ cfg with servers, localWg := some lw }, .ok z)

def protectConfig (store : CallStore σ) : AppConfig → σ → AppConfig × Except SecretError σ :=
  updateSecrets store.protecting store.protectingLocal

def unprotectConfig (store : CallStore σ) : AppConfig → σ → AppConfig × Except SecretError σ :=
  updateSecrets store.unprotecting store.unprotecting

section Calls

variable {α β : Type} {x y : σ}

theorem bind_error {c : Calls σ α} {k : α → Calls σ β} {e : SecretError} (h : c x = .error e) :
    (c >>= k) x = .error e := by
  show (c x).bind _ = _
  rw [h]
  rfl

theorem bind_ok {c : Calls σ α} {k : α → Calls σ β} {a : α} (h : c x = .ok (a, y)) :
    (c >>= k) x = k a y := by
  show (c x).bind _ = _
  rw [h]
  rfl

-- An outcome is an error, or a value in another state.
theorem outcome (c : Calls σ α) (x : σ) : (∃ e, c x = .error e) ∨ ∃ a y, c x = .ok (a, y) := by
  cases h : c x
  case error e => exact .inl ⟨e, rfl⟩
  case ok p    => exact .inr ⟨p.1, p.2, rfl⟩

theorem bind_eq_ok {c : Calls σ α} {k : α → Calls σ β} {b : β} (h : (c >>= k) x = .ok (b, y)) :
    ∃ a z, c x = .ok (a, z) ∧ k a z = .ok (b, y) := by
  obtain ⟨e, hc⟩ | ⟨a, z, hc⟩ := outcome c x
  case inl => cases (bind_error hc).symm.trans h
  case inr => exact ⟨a, z, hc, (bind_ok hc).symm.trans h⟩

end Calls
end CallStore

-- Without a state the functions are those for stores that answer the same call always in the same way.
section Stateless

variable {f : String → Option (Except SecretError String)} {store : SecretStore}

-- The calls that stand for these answers.
def asCalls (f : String → Option (Except SecretError String)) (v : String) : Option (Calls Unit String) :=
  (f v).map .ofExcept

theorem ofExcept_bind {α β : Type} {r : Except SecretError α} {k : α → Except SecretError β}
    {k' : α → Calls Unit β} (h : ∀ a, k' a = .ofExcept (k a)) :
    Calls.ofExcept r >>= k' = .ofExcept (r >>= k) := by
  cases r
  case error => rfl
  case ok a  => exact h a

theorem secretUpdates_asCalls (params : OrdMap String String) (keys : List String) :
    CallStore.secretUpdates (asCalls f) params keys = .ofExcept (secretUpdates f params keys) := by
  induction keys
  case nil => rfl
  case cons key keys hi =>
    rw [CallStore.secretUpdates, secretUpdates]
    cases params.get key
    case none => exact hi
    case some v =>
      simp only [Option.bind_some, asCalls]
      cases f v
      case none => exact hi
      case some r =>
        apply ofExcept_bind
        intro value
        rw [hi]
        exact ofExcept_bind fun _ => rfl

theorem updateServers_asCalls (ss : List ServerProfile) :
    CallStore.updateServers (asCalls f) ss = .ofExcept (updateServers f ss) := by
  induction ss
  case nil => rfl
  case cons s ss hi =>
    have hs : CallStore.updateServer (asCalls f) s = .ofExcept (updateServer f s) := by
      rw [CallStore.updateServer, secretUpdates_asCalls]
      exact ofExcept_bind fun _ => rfl
    rw [CallStore.updateServers, hs]
    apply ofExcept_bind
    intro s'
    rw [hi]
    exact ofExcept_bind fun _ => rfl

theorem updateLocalWg_asCalls (lw : LocalWgConfig) :
    CallStore.updateLocalWg (asCalls f) lw = .ofExcept (updateLocalWg (fun v => (f v).getD (.ok v)) lw) := by
  have hv (v : String) : CallStore.updateValue (asCalls f) v = .ofExcept ((f v).getD (.ok v)) := by
    rw [CallStore.updateValue, asCalls]
    cases f v <;> rfl
  rw [CallStore.updateLocalWg, hv, hv, hv]
  exact ofExcept_bind fun _ => ofExcept_bind fun _ => ofExcept_bind fun _ => rfl

theorem updateSecrets_asCalls {g : String → Option (Except SecretError String)} (cfg : AppConfig) :
    CallStore.updateSecrets (asCalls f) (asCalls g) cfg () =
      updateSecrets f (fun v => (g v).getD (.ok v)) cfg := by
  rw [CallStore.updateSecrets, updateServers_asCalls, updateSecrets]
  cases updateServers f cfg.servers
  case error      => rfl
  case ok servers =>
    cases cfg.localWg
    case none    => rfl
    case some lw =>
      simp only [updateLocalWg_asCalls, Calls.ofExcept, Except.map]
      cases updateLocalWg (fun v => (g v).getD (.ok v)) lw <;> rfl

theorem protectValue_calls (value : String) :
    store.calls.protectValue value = .ofExcept (store.protectValue value) :=
  ofExcept_bind fun _ => rfl

theorem unprotectValue_calls (b64 : List Char) :
    store.calls.unprotectValue b64 = .ofExcept (store.unprotectValue b64) := by
  rw [CallStore.unprotectValue, SecretStore.unprotectValue]
  cases Base64.decodeLoose (.ofList b64)
  case error   => rfl
  case ok blob =>
    refine ofExcept_bind fun _ => ofExcept_bind fun plain => ?_
    cases Utf8.decode plain <;> rfl

theorem protecting_calls : store.calls.protecting = asCalls store.protecting := by
  funext v
  rw [CallStore.protecting, asCalls, SecretStore.protecting, protectValue_calls]
  split <;> rfl

theorem unprotecting_calls : store.calls.unprotecting = asCalls store.unprotecting := by
  funext v
  rw [CallStore.unprotecting, asCalls, SecretStore.unprotecting, Option.map_map]
  congr 1
  exact funext unprotectValue_calls

theorem protectingLocal_calls :
    store.calls.protectingLocal = asCalls fun v => if v = "" then none else store.protecting v := by
  funext v
  rw [CallStore.protectingLocal, protecting_calls]
  simp only [asCalls]
  split <;> rfl

theorem protectConfig_calls (cfg : AppConfig) :
    store.calls.protectConfig cfg () = protectConfig cfg store := by
  rw [CallStore.protectConfig, protecting_calls, protectingLocal_calls, updateSecrets_asCalls, protectConfig]
  congr 1
  funext v
  split <;> rfl

theorem unprotectConfig_calls (cfg : AppConfig) :
    store.calls.unprotectConfig cfg () = unprotectConfig cfg store := by
  rw [CallStore.unprotectConfig, unprotecting_calls, updateSecrets_asCalls, unprotectConfig]

end Stateless
end JammVpn
