import Mathlib.Logic.Function.Basic
import JammVpn.Lib.Ip
import JammVpn.Lib.Machine
import JammVpn.Lib.Maps

namespace JammVpn

open Ip

inductive DnsServer
  | udp (server : SocketAddr)
  | dot (server : SocketAddr) (sni : String)
  | doh (url : String)
  deriving DecidableEq

inductive QueryType
  | a
  | aaaa
  deriving DecidableEq

-- Finished answers have the time at which they become stale; an empty list is a negative answer.
inductive CacheState
  | ready (ips : List IpAddr) (expires : Nat)
  | inFlight (notify : Nat)
  deriving DecidableEq

namespace DnsResolver

-- In nanoseconds.
def positiveTtl : Nat := 300000000000
def negativeTtl : Nat := 3000000000

abbrev Cache := PartialMap String CacheState

-- Names resolve to addresses or fail with a message.
abbrev Answer := Except String (List IpAddr)

-- A failed query counts as one without records.
def Answer.records (r : Answer) : List IpAddr :=
  r.toOption.getD []

@[simp]
theorem Answer.records_ok (ips : List IpAddr) : Answer.records (.ok ips) = ips :=
  rfl

@[simp]
theorem Answer.records_error (err : String) : Answer.records (.error err) = [] :=
  rfl

def noRecords (name : String) : String :=
  "dns: нет записей для " ++ name

-- What a query returns is up to the server and the network.
variable (query : String → QueryType → Answer)

-- Both queries run concurrently, and the records of one of them are enough.
def resolveUncached (name : String) : Answer :=
  let ips := (query name .a).records ++ (query name .aaaa).records
  if ips.isEmpty then .error (noRecords name) else .ok ips

theorem resolveUncached_toOption (name : String) :
    (resolveUncached query name).toOption =
      let ips := (query name .a).records ++ (query name .aaaa).records
      if ips = [] then none else some ips := by
  simp only [resolveUncached, List.isEmpty_iff]
  split <;> rfl

theorem resolveUncached_ne_nil {name : String} {ips : List IpAddr}
    (h : resolveUncached query name = .ok ips) : ips ≠ [] := by
  simp only [resolveUncached] at h
  split at h <;> cases h
  case isFalse hn => simpa using hn

-- The task that found no usable entry asks the server and publishes the answer.
def resolveLeader (name : String) (now : Nat) (cache : Cache) : Answer × Cache :=
  let result := resolveUncached query name
  let entry := match result with
    | .ok ips  => .ready ips (now + positiveTtl)
    | .error _ => .ready [] (now + negativeTtl)
  (result, cache.insert name entry)

end DnsResolver
end JammVpn

namespace JammVpn.DnsResolver

open Ip

-- An empty answer in the cache is a negative one.
def cacheResult (name : String) (ips : List IpAddr) : Answer :=
  if ips.isEmpty then .error ("dns: нет записей для " ++ name ++ " (кэш)") else .ok ips

-- A call of `resolve`. It stands before its next look at the cache, or waits for the notification of
-- another one, or asks the server. The time limit of a wait starts when the wait does; between the
-- look at the cache and the wait a notification can be missed.
inductive Call
  | idle
  | looking (name : String)
  | waiting (name : String) (notify : Nat) (deadline : Option Nat)
  | leading (name : String)
  | returned (name : String) (result : Answer)
  | cancelled

-- `notify_waiters` reaches everyone who has started to wait for this notification.
def Call.wake (notified : Option Nat) : Call → Call
  | waiting name n (some t) => if notified = some n then looking name else waiting name n (some t)
  | c                       => c

-- What a leader has published, and when.
structure Publication where
  name   : String
  result : Answer
  time   : Nat

-- The latest publication comes first.
structure State (ι : Type) where
  now       : Nat := 0
  cache     : Cache := .empty
  calls     : ι → Call := fun _ => .idle
  notifies  : Nat := 0
  published : List Publication := []

-- Calls are cancelled by dropping their futures, which happens wherever they wait.
inductive Event (ι : Type)
  | tick (duration : Nat)
  | call (i : ι) (name : String)
  | lookup (i : ι)
  | wait (i : ι)
  | expire (i : ι)
  | answer (i : ι) (a aaaa : Answer)
  | cancel (i : ι)

variable {ι : Type} [DecidableEq ι]

namespace State

variable (s : State ι) (i : ι)

def setCall (c : Call) : State ι :=
  { s with calls := Function.update s.calls i c }

-- Nobody is asking for the name, and there is no fresh answer.
def lead (name : String) : State ι where
  now := s.now
  cache := s.cache.insert name (.inFlight s.notifies)
  calls := Function.update s.calls i (.leading name)
  notifies := s.notifies + 1
  published := s.published

-- Everything that a call does while it holds the lock.
def lookup (name : String) : State ι :=
  match s.cache.get name with
  | some (.ready ips expires) =>
    if s.now < expires then s.setCall i (.returned name (cacheResult name ips)) else s.lead i name
  | some (.inFlight n)        => s.setCall i (.waiting name n none)
  | none                      => s.lead i name

def notified (name : String) : Option Nat :=
  match s.cache.get name with
  | some (.inFlight n) => some n
  | _                  => none

def publish (name : String) (a aaaa : Answer) : State ι :=
  let query _ qtype := match qtype with
    | .a    => a
    | .aaaa => aaaa
  let (result, cache) := resolveLeader query name s.now s.cache
  { s with
    cache
    calls := Function.update (fun j => (s.calls j).wake (s.notified name)) i (.returned name result)
    published := ⟨name, result, s.now⟩ :: s.published }

end State

-- Waits are limited to the time of a query and two seconds.
def waitLimit (timeout : Nat) : Nat :=
  timeout + 2000000000

def step (timeout : Nat) (s : State ι) : Event ι → Option (State ι)
  | .tick d          => some { s with now := s.now + d }
  | .call i name     =>
    match s.calls i with
    | .idle => some (s.setCall i (.looking name))
    | _     => none
  | .lookup i        =>
    match s.calls i with
    | .looking name => some (s.lookup i name)
    | _             => none
  | .wait i          =>
    match s.calls i with
    | .waiting name n none => some (s.setCall i (.waiting name n (some (s.now + waitLimit timeout))))
    | _                    => none
  | .expire i        =>
    match s.calls i with
    | .waiting name _ (some t) => if t ≤ s.now then some (s.setCall i (.looking name)) else none
    | _                        => none
  | .answer i a aaaa =>
    match s.calls i with
    | .leading name => some (s.publish i name a aaaa)
    | _             => none
  | .cancel i        =>
    match s.calls i with
    | .looking _ | .waiting _ _ _ | .leading _ => some (s.setCall i .cancelled)
    | _                                        => none

-- The steps by what they do to the caller.
theorem step_cases {timeout : Nat} {s s' : State ι} {e : Event ι} (h : step timeout s e = some s') :
    (∃ d, e = .tick d ∧ s' = { s with now := s.now + d }) ∨
    (∃ i name, s.calls i = .looking name ∧ e = .lookup i ∧ s' = s.lookup i name) ∨
    (∃ i name a aaaa, s.calls i = .leading name ∧ e = .answer i a aaaa ∧
      s' = s.publish i name a aaaa) ∨
    (∃ i name, s.calls i = .leading name ∧ e = .cancel i ∧ s' = s.setCall i .cancelled) ∨
    (∃ i c, (∀ name, s.calls i ≠ .leading name) ∧ (∀ name, c ≠ .leading name) ∧
      (∀ name r, c ≠ .returned name r) ∧ s' = s.setCall i c) := by
  cases e <;> simp only [step] at h
  case tick d =>
    exact .inl ⟨d, rfl, (Option.some.inj h).symm⟩
  case call i name =>
    split at h <;> cases h
    case h_1 hc => exact .inr <| .inr <| .inr <| .inr ⟨i, _, by simp [hc], by simp, by simp, rfl⟩
  case lookup i =>
    split at h <;> cases h
    case h_1 name hc => exact .inr <| .inl ⟨i, name, hc, rfl, rfl⟩
  case wait i =>
    split at h <;> cases h
    case h_1 hc => exact .inr <| .inr <| .inr <| .inr ⟨i, _, by simp [hc], by simp, by simp, rfl⟩
  case expire i =>
    split at h
    case h_2 => cases h
    case h_1 hc =>
      split at h <;> cases h
      exact .inr <| .inr <| .inr <| .inr ⟨i, _, by simp [hc], by simp, by simp, rfl⟩
  case answer i a aaaa =>
    split at h <;> cases h
    case h_1 name hc => exact .inr <| .inr <| .inl ⟨i, name, a, aaaa, hc, rfl, rfl⟩
  case cancel i =>
    split at h <;> cases h
    case h_1 hc      => exact .inr <| .inr <| .inr <| .inr ⟨i, _, by simp [hc], by simp, by simp, rfl⟩
    case h_2 hc      => exact .inr <| .inr <| .inr <| .inr ⟨i, _, by simp [hc], by simp, by simp, rfl⟩
    case h_3 name hc => exact .inr <| .inr <| .inr <| .inl ⟨i, name, hc, rfl, rfl⟩

end JammVpn.DnsResolver
