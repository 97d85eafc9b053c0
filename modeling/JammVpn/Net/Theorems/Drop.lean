import JammVpn.Net.Registry

namespace JammVpn.Registry

open Machine

-- The signal can be received, or there is nothing left to be stopped.
def Conn.Hears (c : Conn) : Prop :=
  c.kill ≠ .absent ∨ c.phase = .ended

def State.Hears (s : State) (n : Nat) : Prop :=
  ∀ c, s.conns.get n = some c → c.Hears

-- The relay waits for more, and no signal is on its way to it.
def State.Waits (s : State) (n : Nat) : Prop :=
  ∃ c, s.conns.get n = some c ∧ c.phase = .waiting ∧ c.kill ≠ .woken

-- Before the relay starts there is no future for the signal, and while it waits there is one.
def Conn.Sound (c : Conn) : Prop :=
  match c.phase with
  | .registered    => c.kill = .absent
  | .polling false => True
  | .polling true  => c.kill ≠ .absent
  | .waiting       => c.kill ≠ .absent
  | .ended         => c.kill = .absent

-- The relay has been stopped, or will be when the signal is looked at.
def Conn.Doomed (c : Conn) : Prop :=
  c.kill = .woken ∨ c.phase = .ended

-- How often the relay of a doomed connection can still be woken up.
def Conn.polls (c : Conn) : Nat :=
  match c.phase with
  | .polling true | .waiting => 1
  | _                        => 0

section Conn

variable {c c' : Conn} {a : Action}

theorem Conn.Sound.act (h : c.Sound) (ha : c.act a = some c') : c'.Sound := by
  cases a <;> simp only [Conn.act] at ha
  case start =>
    obtain ⟨-, ha⟩ := Option.ite_none_right_eq_some.mp ha
    cases ha
    trivial
  case transfer up down =>
    split at ha
    case h_2         => cases ha
    case h_1 b hp =>
      cases ha
      rw [Sound] at h ⊢
      simpa only [hp] using h
  case check =>
    obtain ⟨-, ha⟩ := Option.ite_none_right_eq_some.mp ha
    split at ha <;> cases ha
    case h_1.refl => rfl
    case h_2.refl => exact Notified.noConfusion
  case park =>
    obtain ⟨hp, ha⟩ := Option.ite_none_right_eq_some.mp ha
    cases ha
    rw [Sound, hp] at h
    exact h
  case wake =>
    obtain ⟨-, ha⟩ := Option.ite_none_right_eq_some.mp ha
    cases ha
    trivial
  case finish =>
    split at ha <;> cases ha
    rfl

-- What a doomed relay can still do.
theorem Conn.Doomed.act (h : c.Doomed) (hs : c.Sound) (ha : c.act a = some c') :
    c'.Doomed ∧ c'.polls + (if a = .wake then 1 else 0) ≤ c.polls := by
  have hend : ∀ p, c.phase = p → p ≠ .ended → c.kill = .woken := by
    rintro p rfl hp
    exact h.resolve_right hp
  cases a <;> simp only [Conn.act] at ha
  case start =>
    obtain ⟨hp, ha⟩ := Option.ite_none_right_eq_some.mp ha
    have hk := hend _ hp Phase.noConfusion
    simp only [Sound, hp] at hs
    rw [hs] at hk
    cases hk
  case transfer up down =>
    split at ha
    case h_2      => cases ha
    case h_1 b hp =>
      cases ha
      exact ⟨h, Nat.le_refl _⟩
  case check =>
    obtain ⟨hp, ha⟩ := Option.ite_none_right_eq_some.mp ha
    rw [hend _ hp Phase.noConfusion] at ha
    cases ha
    exact ⟨.inr rfl, Nat.zero_le _⟩
  case park =>
    obtain ⟨hp, ha⟩ := Option.ite_none_right_eq_some.mp ha
    cases ha
    refine ⟨.inl (hend _ hp Phase.noConfusion), ?_⟩
    rw [polls, polls, hp]
    exact Nat.le_refl 1
  case wake =>
    obtain ⟨hp, ha⟩ := Option.ite_none_right_eq_some.mp ha
    cases ha
    refine ⟨.inl (hend _ hp Phase.noConfusion), ?_⟩
    rw [polls, polls, hp]
    exact Nat.le_refl 1
  case finish =>
    split at ha <;> cases ha
    exact ⟨.inr rfl, Nat.zero_le _⟩

end Conn

-- What becomes of one connection in a step: it is new, or its task acts, or it is signalled, or nothing.
inductive Stepped (s : State) (n : Nat) (c' : Conn) : Event → Prop
  | new {target via proto src} : n = s.next → c' = { target, via, proto, src } →
    Stepped s n c' (.register target via proto src)
  | acts {c a} : s.conns.get n = some c → c.act a = some c' → Stepped s n c' (.task n a)
  | killed {c id} : s.conns.get n = some c → c' = { c with kill := c.kill.notifyWaiters } →
    Stepped s n c' (.dropConnection id)
  | same {e} : s.conns.get n = some c' → (∀ a, e ≠ .task n a) → Stepped s n c' e

section State

variable {s t : State} {e : Event} {n id : Nat} {c c' : Conn}

structure State.Sound (s : State) : Prop where
  conns   : ∀ n c, s.conns.get n = some c → n < s.next ∧ c.Sound
  entries : ∀ id n, s.entries.get id = some n → (s.conns.get n).isSome ∧ id = idOf n

theorem conn_kill {m : Nat} (hc : (s.kill m).conns.get n = some c') :
    s.conns.get n = some c' ∨ ∃ c, s.conns.get n = some c ∧ c' = { c with kill := c.kill.notifyWaiters } := by
  rw [State.kill] at hc
  split at hc
  case h_2      => exact .inl hc
  case h_1 c hm =>
    rw [State.set, PartialMap.get_insert] at hc
    split at hc
    case isFalse   => exact .inl hc
    case isTrue hn =>
      cases hc
      exact .inr ⟨c, hn ▸ hm, rfl⟩

theorem stepped (h : step s e = some t) (hc : t.conns.get n = some c') : Stepped s n c' e := by
  cases e <;> simp only [step] at h
  case register target via proto src =>
    cases h
    rw [State.register, PartialMap.get_insert] at hc
    split at hc
    case isTrue hn => exact .new hn (Option.some.inj hc).symm
    case isFalse   => exact .same hc fun a h => by cases h
  case task m a =>
    obtain ⟨c, hm, hs⟩ := Option.map_eq_some_iff.mp h
    obtain ⟨c₀, hg, ha⟩ := Option.bind_eq_some_iff.mp hm
    cases hs
    rw [State.set, PartialMap.get_insert] at hc
    split at hc
    case isTrue hn =>
      cases hc
      subst hn
      exact .acts hg ha
    case isFalse hn =>
      refine .same hc fun a' h => hn ?_
      cases h
      rfl
  case release m =>
    obtain ⟨-, h⟩ := Option.ite_none_right_eq_some.mp h
    cases h
    rw [State.release, PartialMap.get_erase_eq_some] at hc
    exact .same hc.1 fun a h => by cases h
  case dropConnection id =>
    cases h
    rw [State.dropConnection] at hc
    split at hc
    case h_2 => exact .same hc fun a h => by cases h
    case h_1 =>
      rcases conn_kill hc with hc | ⟨c, hg, he⟩
      case inl => exact .same hc fun a h => by cases h
      case inr => exact .killed hg he

theorem isSome_set {m : Nat} (h : (s.conns.get n).isSome) : ((s.set m c).conns.get n).isSome := by
  rw [State.set, PartialMap.get_insert]
  split
  case isTrue  => rfl
  case isFalse => exact h

theorem isSome_kill {m : Nat} (h : (s.conns.get n).isSome) : ((s.kill m).conns.get n).isSome := by
  rw [State.kill]
  split
  case h_1 => exact isSome_set h
  case h_2 => exact h

theorem entries_kill (m : Nat) : (s.kill m).entries = s.entries := by
  rw [State.kill]
  split <;> rfl

theorem next_kill (m : Nat) : (s.kill m).next = s.next := by
  rw [State.kill]
  split <;> rfl

theorem next_le (h : step s e = some t) : s.next ≤ t.next := by
  cases e <;> simp only [step] at h
  case register =>
    cases h
    exact Nat.le_succ _
  case task m a =>
    obtain ⟨c, -, rfl⟩ := Option.map_eq_some_iff.mp h
    exact Nat.le_refl _
  case release m =>
    obtain ⟨-, h⟩ := Option.ite_none_right_eq_some.mp h
    cases h
    exact Nat.le_refl _
  case dropConnection id =>
    cases h
    rw [State.dropConnection]
    split
    case h_1 => rw [next_kill]
    case h_2 => exact Nat.le_refl _

theorem State.Sound.entries_step (hs : s.Sound) (h : step s e = some t) (hi : t.entries.get id = some n) :
    (t.conns.get n).isSome ∧ id = idOf n := by
  cases e <;> simp only [step] at h
  case register =>
    cases h
    rw [State.register, PartialMap.get_insert] at hi
    rw [State.register, PartialMap.get_insert]
    split at hi
    case isTrue he =>
      cases hi
      exact ⟨by rw [if_pos rfl]; rfl, he⟩
    case isFalse =>
      obtain ⟨hc, he⟩ := hs.entries id n hi
      refine ⟨?_, he⟩
      split
      case isTrue  => rfl
      case isFalse => exact hc
  case task m a =>
    obtain ⟨c, -, rfl⟩ := Option.map_eq_some_iff.mp h
    obtain ⟨hc, he⟩ := hs.entries id n hi
    exact ⟨isSome_set hc, he⟩
  case release m =>
    obtain ⟨-, h⟩ := Option.ite_none_right_eq_some.mp h
    cases h
    rw [State.release, PartialMap.get_erase_eq_some] at hi
    obtain ⟨hc, he⟩ := hs.entries id n hi.1
    refine ⟨?_, he⟩
    have hne : n ≠ m := by
      rintro rfl
      exact hi.2 he
    rw [State.release, PartialMap.get_erase, if_neg hne]
    exact hc
  case dropConnection id' =>
    cases h
    rw [State.dropConnection] at hi ⊢
    split
    case h_2 hn =>
      rw [hn] at hi
      exact hs.entries id n hi
    case h_1 m hm =>
      rw [hm, entries_kill] at hi
      obtain ⟨hc, he⟩ := hs.entries id n hi
      exact ⟨isSome_kill hc, he⟩

theorem Conn.Sound.killed (h : c.Sound) : Sound { c with kill := c.kill.notifyWaiters } := by
  rw [Sound] at h ⊢
  split at h
  all_goals
    rename_i hp
    simp only [hp]
  case h_1 => rw [h]; rfl
  case h_3 => exact Notified.notifyWaiters_ne_absent.mpr h
  case h_4 => exact Notified.notifyWaiters_ne_absent.mpr h
  case h_5 => rw [h]; rfl

theorem State.Sound.step (hs : s.Sound) (h : step s e = some t) : t.Sound where
  entries id n hi := hs.entries_step h hi
  conns n c' hc := by
    have hle := next_le h
    cases stepped h hc
    case new he hc' =>
      cases h
      subst he hc'
      exact ⟨Nat.lt_succ_self _, rfl⟩
    case acts c a hg ha =>
      obtain ⟨hn, hs⟩ := hs.conns n c hg
      exact ⟨hn.trans_le hle, hs.act ha⟩
    case killed c id hg he =>
      obtain ⟨hn, hs⟩ := hs.conns n c hg
      exact ⟨hn.trans_le hle, he ▸ hs.killed⟩
    case same hg _ =>
      obtain ⟨hn, hs⟩ := hs.conns n c' hg
      exact ⟨hn.trans_le hle, hs⟩

theorem State.Sound.of_run {es : List Event} (hr : run Registry.step {} es = some s) : s.Sound := by
  have hinit : ({} : State).Sound := ⟨fun n c h => (by cases h), fun id n h => (by cases h)⟩
  have hk : Keeps Registry.step (fun _ _ => True) State.Sound := fun s e t hs _ h => hs.step h
  exact (each_of_forall fun _ _ _ => trivial).invariant hk hinit hr

theorem Stepped.doomed (hs : s.Sound) (hn : n < s.next) (hd : ∀ c, s.conns.get n = some c → c.Doomed)
    (h : Stepped s n c' e) : c'.Doomed ∧ ∃ c, s.conns.get n = some c ∧
      c'.polls + (if e = .task n .wake then 1 else 0) ≤ c.polls := by
  cases h
  case new he _ => exact absurd hn (he ▸ Nat.lt_irrefl _)
  case acts c a hg ha =>
    obtain ⟨hd, hp⟩ := (hd c hg).act (hs.conns n c hg).2 ha
    refine ⟨hd, c, hg, ?_⟩
    by_cases hw : a = .wake
    case pos => simpa [hw] using hp
    case neg => simpa [hw] using hp
  case killed c id hg he =>
    subst he
    refine ⟨?_, c, hg, by simp [Conn.polls]⟩
    rcases hd c hg with hk | hk
    · exact .inl (by rw [hk]; rfl)
    · exact .inr hk
  case same hg hne => exact ⟨hd c' hg, c', hg, by simp [hne .wake]⟩

-- A doomed relay stays doomed, and is woken up once at most.
theorem doomed_run (hs : s.Sound) (hn : n < s.next) (hd : ∀ c, s.conns.get n = some c → c.Doomed)
    {fs : List Event} (hr : run step s fs = some t) :
    (∀ c, t.conns.get n = some c → c.Doomed) ∧
      ∀ k, (∀ c, s.conns.get n = some c → c.polls ≤ k) → fs.count (.task n .wake) ≤ k := by
  induction fs generalizing s
  case nil =>
    cases hr
    exact ⟨hd, fun k _ => Nat.zero_le k⟩
  case cons e fs hi =>
    obtain ⟨s₁, h, hr⟩ := run_cons hr
    have hstep : ∀ c', s₁.conns.get n = some c' → c'.Doomed ∧ ∃ c, s.conns.get n = some c ∧
        c'.polls + (if e = .task n .wake then 1 else 0) ≤ c.polls :=
      fun c' hc => (stepped h hc).doomed hs hn hd
    obtain ⟨hd', hk'⟩ := hi (hs.step h) (hn.trans_le (next_le h)) (fun c hc => (hstep c hc).1) hr
    refine ⟨hd', fun k hk => ?_⟩
    by_cases hw : e = .task n .wake
    case pos =>
      subst hw
      obtain ⟨c', hc', hs₁⟩ := Option.map_eq_some_iff.mp h
      have hget : s₁.conns.get n = some c' := by rw [← hs₁]; exact PartialMap.get_insert_self _ _ _
      obtain ⟨-, c, hc, hp⟩ := hstep c' hget
      rw [if_pos rfl] at hp
      have hle := hk' (k - 1) fun c'' hc'' => by
        cases hget.symm.trans hc''
        exact Nat.le_sub_of_add_le (hp.trans (hk c hc))
      rw [List.count_cons_self]
      exact Nat.add_le_of_le_sub ((Nat.le_add_left 1 _).trans (hp.trans (hk c hc))) hle
    case neg =>
      rw [List.count_cons_of_ne hw]
      refine hk' k fun c' hc' => ?_
      obtain ⟨-, c, hc, hp⟩ := hstep c' hc'
      exact (Nat.le_of_add_right_le hp).trans (hk c hc)

theorem step_task {a : Action} (hc : s.conns.get n = some c) (ha : c.act a = some c') :
    step s (.task n a) = some (s.set n c') := by
  rw [step, hc, Option.bind_some, ha, Option.map_some]

theorem get_set : (s.set n c).conns.get n = some c :=
  PartialMap.get_insert_self _ _ _

theorem run_two {a b : Action} {c₁ c₂ : Conn} (hc : s.conns.get n = some c) (ha : c.act a = some c₁)
    (hb : c₁.act b = some c₂) : run step s [.task n a, .task n b] = some ((s.set n c₁).set n c₂) := by
  rw [run, step_task hc ha]
  show run step (s.set n c₁) [.task n b] = _
  rw [run, step_task get_set hb]
  rfl

-- A poll that finds no signal ends with the relay waiting.
theorem waits_of_polling (hc : s.conns.get n = some c) (hp : c.phase = .polling false) (hk : c.kill ≠ .woken) :
    ∃ t, run step s [.task n .check, .task n .park] = some t ∧ t.Waits n := by
  have hcheck : c.act .check = some { c with kill := .waiting, phase := .polling true } := by
    rw [Conn.act, if_pos hp]
    cases hw : c.kill
    case woken   => exact absurd hw hk
    case absent  => rfl
    case waiting => rfl
  exact ⟨_, run_two hc hcheck rfl, _, get_set, rfl, Notified.noConfusion⟩

-- A relay that has not heard the signal goes on to wait.
theorem waits_of_not_hears (hs : c.Sound) (hk : c.kill = .absent) (hp : c.phase ≠ .ended)
    (hc : s.conns.get n = some c) : ∃ fs t, run step s fs = some t ∧ t.Waits n := by
  rw [Conn.Sound] at hs
  split at hs
  case h_1 hr =>
    have hstart : ∃ c₁, c.act .start = some c₁ ∧ c₁.phase = .polling false ∧ c₁.kill ≠ .woken := by
      rw [Conn.act, if_pos hr]
      cases c.proto
      case tcp => exact ⟨_, rfl, rfl, Notified.noConfusion⟩
      case udp => exact ⟨_, rfl, rfl, Notified.noConfusion⟩
    obtain ⟨c₁, ha, hp₁, hk₁⟩ := hstart
    obtain ⟨t, hr, hw⟩ := waits_of_polling (@get_set s n c₁) hp₁ hk₁
    refine ⟨.task n .start :: [.task n .check, .task n .park], t, ?_, hw⟩
    rw [run, step_task hc ha]
    exact hr
  case h_2 hr =>
    obtain ⟨t, hr, hw⟩ := waits_of_polling hc hr (by rw [hk]; exact Notified.noConfusion)
    exact ⟨_, t, hr, hw⟩
  case h_3 => exact absurd hk hs
  case h_4 => exact absurd hk hs
  case h_5 hr => exact absurd hr hp

end State

-- After every run: a drop request for a connection stops its relay, which is woken up once more at most
-- and never waits again, just when the relay already listens for it or has ended.
theorem drop_heard_iff {es : List Event} {s : State} {id n : Nat} (hr : run step {} es = some s)
    (hid : s.entries.get id = some n) :
    (∀ fs t, run step s (.dropConnection id :: fs) = some t → ¬t.Waits n ∧ fs.count (.task n .wake) ≤ 1) ↔
      s.Hears n := by
  have hs := State.Sound.of_run hr
  obtain ⟨c, hc⟩ := Option.isSome_iff_exists.mp (hs.entries id n hid).1
  obtain ⟨hn, hsc⟩ := hs.conns n c hc
  have hdrop : step s (.dropConnection id) = some (s.set n { c with kill := c.kill.notifyWaiters }) := by
    rw [step, State.dropConnection, hid]
    show some (s.kill n) = _
    rw [State.kill, hc]
  have hs₁ := hs.step hdrop
  constructor
  case mpr =>
    intro hh fs t hrun
    rw [run, hdrop] at hrun
    have hd : ∀ c', (s.set n { c with kill := c.kill.notifyWaiters }).conns.get n = some c' → c'.Doomed := by
      intro c' hc'
      cases get_set.symm.trans hc'
      exact (hh c hc).imp Notified.notifyWaiters_of_ne fun h => h
    obtain ⟨hdoom, hcount⟩ := doomed_run hs₁ hn hd hrun
    refine ⟨?_, hcount 1 fun c' _ => ?_⟩
    · rintro ⟨c', hc', hp, hk⟩
      rcases hdoom c' hc' with h | h
      · exact hk h
      · rw [hp] at h
        cases h
    · rw [Conn.polls]
      split
      case h_3 => exact Nat.zero_le 1
      all_goals exact Nat.le_refl 1
  case mp =>
    intro hall c' hc'
    cases hc.symm.trans hc'
    refine or_iff_not_and_not.mpr ?_
    rintro ⟨hk, hp⟩
    have hk₁ : c.kill.notifyWaiters = .absent := by
      rw [not_not.mp hk]
      rfl
    obtain ⟨fs, t, hrun, hw⟩ := waits_of_not_hears (hs₁.conns n _ get_set).2 hk₁ hp get_set
    refine absurd hw (hall fs t ?_).1
    rw [run, hdrop]
    exact hrun

section Example

def oneConnection (proto : Proto) : Event :=
  .register "h:1" "proxy" proto none

-- A TCP connection is dropped while it relays.
theorem drop_heard_iff_relaying :
    ∃ s, run step {} [oneConnection .tcp, .task 0 .start] = some s ∧ s.entries.get 1 = some 0 ∧
      ((∀ fs t, run step s (.dropConnection 1 :: fs) = some t →
        ¬t.Waits 0 ∧ fs.count (.task 0 .wake) ≤ 1) ↔ s.Hears 0) :=
  ⟨_, rfl, rfl, @drop_heard_iff [oneConnection .tcp, .task 0 .start] _ _ _ rfl rfl⟩

-- The request comes when the connection is in the registry and its relay has not started. The reply is
-- true, and the relay waits for data.
theorem drop_lost :
    (∃ s t, run step {} [oneConnection .tcp] = some s ∧ (s.dropConnection 1).2 = true ∧
      run step s [.dropConnection 1, .task 0 .start, .task 0 .check, .task 0 .park] = some t ∧ t.Waits 0) ∧
    ∃ s t, run step {} [oneConnection .udp, .task 0 .start, .task 0 (.transfer 5 0)] = some s ∧
      (s.dropConnection 1).2 = true ∧
      run step s [.dropConnection 1, .task 0 .check, .task 0 .park] = some t ∧ t.Waits 0 :=
  ⟨⟨_, _, rfl, rfl, rfl, _, rfl, rfl, Notified.noConfusion⟩,
    ⟨_, _, rfl, rfl, rfl, _, rfl, rfl, Notified.noConfusion⟩⟩

end Example
end JammVpn.Registry
