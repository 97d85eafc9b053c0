import JammVpn.Net.Resolver

namespace JammVpn.DnsResolver

open Ip Machine

variable {ι : Type} {s s' : State ι} {i j : ι} {name : String} {timeout : Nat}

theorem Call.wake_eq_leading {c : Call} {n : Option Nat} :
    c.wake n = .leading name ↔ c = .leading name := by
  cases c <;> simp only [wake]
  case waiting m n t => cases t <;> simp only [reduceCtorEq]; split <;> simp

theorem Call.wake_eq_returned {c : Call} {n : Option Nat} {r : Answer} :
    c.wake n = .returned name r ↔ c = .returned name r := by
  cases c <;> simp only [wake]
  case waiting m n t => cases t <;> simp only [reduceCtorEq]; split <;> simp

theorem State.calls_setCall [DecidableEq ι] (c : Call) :
    (s.setCall i c).calls j = if j = i then c else s.calls j := by
  simp [setCall, Function.update_apply]

-- The entries in flight belong to the leaders: every name has at most one, and exactly one if its
-- entry is in flight.
structure Led (s : State ι) : Prop where
  leader   : ∀ {name n}, s.cache.get name = some (.inFlight n) → ∃ i, s.calls i = .leading name
  inFlight : ∀ {i name}, s.calls i = .leading name → ∃ n, s.cache.get name = some (.inFlight n)
  unique   : ∀ {i j name}, s.calls i = .leading name → s.calls j = .leading name → i = j

namespace Led

theorem init : Led ({} : State ι) where
  leader h := by simp at h
  inFlight h := by cases h
  unique h := by cases h

theorem tick (h : Led s) (d : Nat) : Led { s with now := s.now + d } :=
  ⟨h.leader, h.inFlight, h.unique⟩

variable [DecidableEq ι]

-- A call that does not lead changes without leading.
theorem setCall (h : Led s) {c : Call} (hi : ∀ name, s.calls i ≠ .leading name)
    (hc : ∀ name, c ≠ .leading name) : Led (s.setCall i c) := by
  have hl j name : (s.setCall i c).calls j = .leading name ↔ s.calls j = .leading name := by
    rw [State.calls_setCall]
    split
    case isTrue he  => simp [hc, he ▸ hi name]
    case isFalse he => rfl
  refine ⟨fun hn => ?_, fun hj => ?_, fun hj hk => ?_⟩
  · have ⟨j, hj⟩ := h.leader hn
    exact ⟨j, (hl _ _).mpr hj⟩
  · exact h.inFlight ((hl _ _).mp hj)
  · exact h.unique ((hl _ _).mp hj) ((hl _ _).mp hk)

theorem lead (h : Led s) (hi : s.calls i = .looking name)
    (hn : ∀ n, s.cache.get name ≠ some (.inFlight n)) : Led (s.lead i name) := by
  have hl j other : (s.lead i name).calls j = .leading other ↔
      j = i ∧ other = name ∨ s.calls j = .leading other := by
    simp only [State.lead, Function.update_apply]
    split
    case isTrue he  => simp [he, hi, eq_comm]
    case isFalse he => simp [he]
  have hs j : s.calls j ≠ .leading name := by
    intro hj
    obtain ⟨n, he⟩ := h.inFlight hj
    exact hn n he
  refine ⟨fun {other n} ho => ?_, fun {j other} hj => ?_, fun {j k other} hj hk => ?_⟩
  · by_cases he : other = name
    case pos => exact ⟨i, (hl _ _).mpr (.inl ⟨rfl, he⟩)⟩
    case neg =>
      have hn : s.cache.get other = some (.inFlight n) := by
        simpa [State.lead, PartialMap.get_insert, he] using ho
      obtain ⟨j, hj⟩ := h.leader hn
      exact ⟨j, (hl _ _).mpr (.inr hj)⟩
  · simp only [State.lead, PartialMap.get_insert]
    obtain ⟨-, rfl⟩ | hj := (hl _ _).mp hj
    case inl => simp
    case inr =>
      have he : other ≠ name := fun he => hs j (he ▸ hj)
      simpa [he] using h.inFlight hj
  · obtain ⟨hj, he⟩ | hj := (hl _ _).mp hj <;> obtain ⟨hk, he'⟩ | hk := (hl _ _).mp hk
    case inl.inl => rw [hj, hk]
    case inl.inr => exact absurd (he ▸ hk) (hs k)
    case inr.inl => exact absurd (he' ▸ hj) (hs j)
    case inr.inr => exact h.unique hj hk

theorem lookup (h : Led s) (hi : s.calls i = .looking name) : Led (s.lookup i name) := by
  simp only [State.lookup]
  split
  case h_1 ips expires hr =>
    split
    case isTrue  => exact h.setCall (by simp [hi]) (by simp)
    case isFalse => exact h.lead hi (by simp [hr])
  case h_2 => exact h.setCall (by simp [hi]) (by simp)
  case h_3 hr => exact h.lead hi (by simp [hr])

theorem cache_publish (a aaaa : Answer) :
    ∃ ips expires, (s.publish i name a aaaa).cache.get name = some (.ready ips expires) := by
  simp only [State.publish, resolveLeader, PartialMap.get_insert_self]
  split <;> exact ⟨_, _, rfl⟩

-- The answer of a leader ends its flight.
theorem publish (h : Led s) (hi : s.calls i = .leading name) (a aaaa : Answer) :
    Led (s.publish i name a aaaa) := by
  have hl j other : (s.publish i name a aaaa).calls j = .leading other ↔
      j ≠ i ∧ s.calls j = .leading other := by
    simp only [State.publish, Function.update_apply]
    split
    case isTrue he  => simp [he]
    case isFalse he => simp [he, Call.wake_eq_leading]
  have hg other (he : other ≠ name) :
      (s.publish i name a aaaa).cache.get other = s.cache.get other := by
    simp [State.publish, resolveLeader, PartialMap.get_insert, he]
  have hr n : (s.publish i name a aaaa).cache.get name ≠ some (.inFlight n) := by
    obtain ⟨_, _, hc⟩ := @cache_publish _ s i name _ a aaaa
    simp [hc]
  refine ⟨fun {other n} ho => ?_, fun {j other} hj => ?_, fun hj hk => ?_⟩
  · have he : other ≠ name := fun he => hr n (he ▸ ho)
    obtain ⟨j, hj⟩ := h.leader (hg other he ▸ ho)
    have hne : j ≠ i := fun hji => he (by simpa [hji, hi, eq_comm] using hj)
    exact ⟨j, (hl _ _).mpr ⟨hne, hj⟩⟩
  · obtain ⟨hne, hj⟩ := (hl _ _).mp hj
    have he : other ≠ name := fun he => hne (h.unique hj (he ▸ hi))
    exact hg other he ▸ h.inFlight hj
  · exact h.unique ((hl _ _).mp hj).2 ((hl _ _).mp hk).2

end Led

-- A leader is cancelled.
def Orphans (s : State ι) (e : Event ι) : Prop :=
  ∃ i name, e = .cancel i ∧ s.calls i = .leading name

-- Every entry in flight has exactly one leader, and whatever the answers are, they replace the entry.
def NoOrphan [DecidableEq ι] (timeout : Nat) (s : State ι) : Prop :=
  ∀ name n, s.cache.get name = some (.inFlight n) →
    ∃ i, s.calls i = .leading name ∧ (∀ j, s.calls j = .leading name → j = i) ∧
      ∀ a aaaa, ∃ s' ips expires, step timeout s (.answer i a aaaa) = some s' ∧
        s'.cache.get name = some (.ready ips expires)

section

variable [DecidableEq ι]

theorem Led.keeps : Keeps (step timeout) (fun s e => ¬Orphans s e) (Led : State ι → Prop) := by
  intro s e s' h hc hs
  obtain ⟨d, -, rfl⟩ | ⟨i, name, hi, -, rfl⟩ | ⟨i, name, a, aaaa, hi, -, rfl⟩ |
    ⟨i, name, hi, he, -⟩ | ⟨i, c, hi, hc, -, rfl⟩ := step_cases hs
  · exact h.tick d
  · exact h.lookup hi
  · exact h.publish hi a aaaa
  · exact absurd ⟨i, name, he, hi⟩ hc
  · exact h.setCall hi hc

theorem Led.noOrphan (h : Led s) : NoOrphan timeout s := by
  intro name n hn
  have ⟨i, hi⟩ := h.leader hn
  refine ⟨i, hi, fun j hj => h.unique hj hi, fun a aaaa => ?_⟩
  have ⟨ips, expires, hg⟩ := @cache_publish _ s i name _ a aaaa
  exact ⟨_, ips, expires, by simp only [step, hi], hg⟩

-- Nobody takes over from a leader that is cancelled.
theorem Led.not_noOrphan (h : Led s) {e : Event ι} (ho : Orphans s e) (hs : step timeout s e = some s') :
    ¬NoOrphan timeout s' := by
  obtain ⟨i, name, rfl, hi⟩ := ho
  simp only [step, hi, Option.some.injEq] at hs
  subst hs
  intro hn
  obtain ⟨n, hf⟩ := h.inFlight hi
  obtain ⟨j, hj, _⟩ := hn name n hf
  rw [State.calls_setCall] at hj
  split at hj
  case isTrue     => cases hj
  case isFalse hne => exact hne (h.unique hj hi)

-- No entry is orphaned in a run exactly if no leader is cancelled.
theorem no_orphan_iff (es : List (Event ι)) :
    Always (step timeout) (NoOrphan timeout) {} es ↔ Each (step timeout) (fun s e => ¬Orphans s e) {} es :=
  always_iff_each Led.keeps (fun _ h => h.noOrphan)
    (fun _ _ _ h ho hs => h.not_noOrphan (Classical.not_not.mp ho) hs) Led.init

end

-- The request that needed the name is dropped while the name is being resolved.
theorem cancelled_leader_orphans :
    ¬Always (step 5000000000) (NoOrphan 5000000000) ({} : State Unit)
      [.call () "a.example", .lookup (), .cancel ()] := by
  intro h
  have h : NoOrphan 5000000000 _ := ((h.2 _ rfl).2 _ rfl).2 _ rfl
  have ⟨_, hi, _⟩ := h "a.example" 0 rfl
  cases hi

-- The time from which on a published answer is stale.
def Publication.expires (p : Publication) : Nat :=
  match p.result with
  | .ok _    => p.time + positiveTtl
  | .error _ => p.time + negativeTtl

def State.latest (s : State ι) (name : String) : Option Publication :=
  s.published.find? (·.name == name)

-- The result is what the latest leader of the name has published, and this is not stale.
def Agrees (s : State ι) (name : String) (result : Answer) : Prop :=
  ∃ p, s.latest name = some p ∧ s.now < p.expires ∧ ∀ ips, p.result = .ok ips ↔ result = .ok ips

-- The finished entries are the latest publications; only failures are stored as empty lists.
def Published (s : State ι) : Prop :=
  ∀ name ips expires, s.cache.get name = some (.ready ips expires) →
    ∃ p, s.latest name = some p ∧ expires = p.expires ∧
      ∀ ips', p.result = .ok ips' ↔ cacheResult name ips = .ok ips'

section

variable [DecidableEq ι]

theorem Published.publish (h : Published s) (a aaaa : Answer) :
    Published (s.publish i name a aaaa) := by
  intro other ips expires hc
  simp only [State.publish, resolveLeader, PartialMap.get_insert] at hc
  simp only [State.latest, State.publish, resolveLeader, List.find?_cons]
  by_cases he : other = name
  case neg =>
    rw [if_neg he] at hc
    have hn : (name == other) = false := by simpa using Ne.symm he
    simp only [hn]
    exact h other ips expires hc
  case pos =>
    subst he
    simp only [if_true, Option.some.injEq, beq_self_eq_true, exists_eq_left', Publication.expires] at hc ⊢
    cases hr : resolveUncached _ other <;> simp only [hr] at hc ⊢ <;> cases hc
    case error => simp [cacheResult]
    case ok    => simp [cacheResult, resolveUncached_ne_nil _ hr]

theorem Published.lead (h : Published s) : Published (s.lead i name) := by
  intro other ips expires hc
  simp only [State.lead, PartialMap.get_insert] at hc
  split at hc
  case isTrue  => cases hc
  case isFalse => exact h other ips expires hc

theorem Published.lookup (h : Published s) : Published (s.lookup i name) := by
  simp only [State.lookup]
  split
  case h_1 =>
    split
    case isTrue  => exact h
    case isFalse => exact h.lead
  case h_2 => exact h
  case h_3 => exact h.lead

theorem Published.keeps {C : State ι → Event ι → Prop} :
    Keeps (step timeout) C (Published : State ι → Prop) := by
  intro s e s' h _ hs
  obtain ⟨d, -, rfl⟩ | ⟨i, name, -, -, rfl⟩ | ⟨i, name, a, aaaa, -, -, rfl⟩ |
    ⟨i, name, -, -, rfl⟩ | ⟨i, c, -, -, -, rfl⟩ := step_cases hs
  · exact h
  · exact h.lookup
  · exact h.publish a aaaa
  · exact h
  · exact h

-- A call that finds a result in the cache agrees with the latest leader.
theorem Published.agrees (h : Published s) {r : Answer}
    (hr : (s.lookup i name).calls i = .returned name r) : Agrees s name r := by
  simp only [State.lookup] at hr
  split at hr
  case h_1 ips expires hc =>
    split at hr
    case isFalse => simp [State.lead] at hr
    case isTrue ht =>
      obtain ⟨p, hp, he, hi⟩ := h name ips expires hc
      rw [State.calls_setCall, if_pos rfl] at hr
      cases hr
      exact ⟨p, hp, he ▸ ht, hi⟩
  case h_2 => simp [State.calls_setCall] at hr
  case h_3 => simp [State.lead] at hr

theorem calls_lookup : ∃ c, (s.lookup i name).calls = Function.update s.calls i c ∧
    ∀ other r, c = .returned other r → other = name := by
  simp only [State.lookup]
  split
  case h_1 =>
    split
    case isTrue  => exact ⟨_, rfl, fun _ _ hc => (Call.returned.inj hc).1.symm⟩
    case isFalse => exact ⟨_, rfl, by simp⟩
  case h_2 => exact ⟨_, rfl, by simp⟩
  case h_3 => exact ⟨_, rfl, by simp⟩

-- Calls return because they have led, or by looking at the cache.
theorem returned_cases {e : Event ι} {r : Answer} (hs : step timeout s e = some s')
    (hr : s'.calls i = .returned name r) (hn : s.calls i ≠ .returned name r) :
    s.calls i = .leading name ∨ s.calls i = .looking name ∧ s' = s.lookup i name := by
  obtain ⟨d, -, rfl⟩ | ⟨j, other, hj, -, rfl⟩ | ⟨j, other, a, aaaa, hj, -, rfl⟩ |
    ⟨j, other, -, -, rfl⟩ | ⟨j, c, -, -, hc, rfl⟩ := step_cases hs
  case inl => exact absurd hr hn
  case inr.inl =>
    obtain ⟨c, he, hc⟩ := @calls_lookup _ s j other _
    rw [he, Function.update_apply] at hr
    split at hr
    case isFalse     => exact absurd hr hn
    case isTrue heq =>
      obtain rfl := hc name r hr
      exact .inr ⟨heq ▸ hj, heq ▸ rfl⟩
  case inr.inr.inl =>
    simp only [State.publish, Function.update_apply] at hr
    split at hr
    case isFalse     => exact absurd (Call.wake_eq_returned.mp hr) hn
    case isTrue heq =>
      rw [(Call.returned.inj hr).1] at hj
      exact .inl (heq ▸ hj)
  case inr.inr.inr.inl =>
    rw [State.calls_setCall] at hr
    split at hr
    case isFalse => exact absurd hr hn
    case isTrue  => cases hr
  case inr.inr.inr.inr =>
    rw [State.calls_setCall] at hr
    split at hr
    case isFalse => exact absurd hr hn
    case isTrue  => exact absurd hr (hc name r)

-- At most one call at a time asks for a name, and the others return what it has published.
theorem single_flight {es : List (Event ι)} (hc : ∀ e ∈ es, ∀ i, e ≠ .cancel i)
    (hr : run (step timeout) {} es = some s) :
    (∀ i j name, s.calls i = .leading name → s.calls j = .leading name → i = j) ∧
    ∀ e s' i name r, step timeout s e = some s' → s'.calls i = .returned name r →
      s.calls i ≠ .returned name r →
        s.calls i = .leading name ∨ s.calls i = .looking name ∧ Agrees s name r := by
  have he : Each (step timeout) (fun s e => ¬Orphans s e) {} es :=
    each_of_forall fun e hm s ⟨i, _, hi, _⟩ => hc e hm i hi
  have hl : Led s := he.invariant Led.keeps Led.init hr
  have hp : Published s := he.invariant Published.keeps (by simp [Published]) hr
  refine ⟨fun i j name hi hj => hl.unique hi hj, fun e s' i name r hs hr hn => ?_⟩
  obtain hi | ⟨hi, rfl⟩ := returned_cases hs hr hn
  case inl => exact .inl hi
  case inr => exact .inr ⟨hi, hp.agrees hr⟩

end

-- Two calls for one name. The second one finds the first one in flight and waits for it.
theorem single_flight_two :
    ∃ s : State Bool,
      run (step 5000000000) {} [.call false "a.example", .call true "a.example", .lookup false,
        .lookup true, .wait true, .answer false (.ok [.v4 0x01020304]) (.error "timeout")] = some s ∧
      ∃ s', step 5000000000 s (.lookup true) = some s' ∧
        s'.calls true = .returned "a.example" (.ok [.v4 0x01020304]) ∧
        Agrees s "a.example" (.ok [.v4 0x01020304]) := by
  refine ⟨_, rfl, _, rfl, rfl, ?_⟩
  have h := (@single_flight Bool _ 5000000000 _ [.call false "a.example", .call true "a.example",
    .lookup false, .lookup true, .wait true, .answer false (.ok [.v4 0x01020304]) (.error "timeout")]
    (by simp) rfl).2 (.lookup true) _ true "a.example" (.ok [.v4 0x01020304]) rfl rfl (by rintro ⟨⟩)
  obtain h | ⟨_, h⟩ := h
  case inl => cases h
  case inr => exact h

end JammVpn.DnsResolver
