import JammVpn.Net.UdpRelay

namespace JammVpn.UdpRelay

open Machine Netstack

-- The signal of `cancel` has reached the loop.
def Loop.Cancelled (l : Loop) : Prop :=
  ∃ since, l = .select since true

-- The loop is in its `select!`.
def Loop.Listens (l : Loop) : Prop :=
  ∃ since cancelled, l = .select since cancelled

-- The egress runs or is about to, or the end of the flow is next: both loops have ended, or the signal
-- has come to the ingress.
def Flow.Live (f : Flow) : Prop :=
  f.phase = .relaying → f.egress = .ended → f.ingress = .ended ∨ f.ingress.Cancelled

def Live (s : State) : Prop :=
  ∀ key f, s.flows.get key = some f → f.Live

-- The egress times out after the ingress only, its error finds the ingress in its `select!`, and the
-- ingress takes no reply when the signal has come.
def Flow.Safe (f : Flow) : Action → Prop
  | .egressIdle => f.ingress = .ended
  | .sent false => f.ingress = .ended ∨ f.ingress.Listens
  | .replied    => f.ingress.Cancelled → ∀ data ∈ f.inbox.head?, data = none
  | _           => True

def Safe (s : State) (e : Event) : Prop :=
  ∀ key a, e = .act key a → ∀ f, s.flows.get key = some f → f.Safe a

-- A loop gets the signal from the other one, which has ended then.
structure Flow.Paired (f : Flow) : Prop where
  egress  : f.egress.Cancelled → f.ingress = .ended
  ingress : f.ingress.Cancelled → f.egress = .ended

-- What an action does with the loops.
inductive Moves (f g : Flow) : Action → Prop
  | opens {ok} : g.egress = .fresh → g.ingress = .fresh → Moves f g (.opened ok)
  | closes {a} : g.phase = .closing → g.egress = f.egress → g.ingress = f.ingress → f.Safe a → Moves f g a
  | stays {a} : g.phase = f.phase → g.egress = f.egress → g.ingress = f.ingress → f.Safe a → Moves f g a
  | egressRuns {a} : f.egress ≠ .ended → g.egress ≠ .ended → ¬g.egress.Cancelled → g.ingress = f.ingress →
    f.Safe a → Moves f g a
  | egressFails : g.phase = .relaying → g.egress = .ended → g.ingress = f.ingress.cancel →
    Moves f g (.sent false)
  | egressIdle : g.phase = .relaying → f.egress ≠ .ended → g.egress = .ended → g.ingress = f.ingress →
    Moves f g .egressIdle
  | egressCancelled : f.egress.Cancelled → g.egress = .ended → g.ingress = f.ingress →
    Moves f g .egressCancelled
  | ingressRuns {a} : f.phase = .relaying → f.ingress ≠ .ended → ¬f.ingress.Cancelled →
    g.egress = f.egress → ¬g.ingress.Cancelled → f.Safe a → Moves f g a
  | replies {data} : f.phase = .relaying → g.phase = .relaying → f.inbox.head? = some (some data) →
    f.ingress ≠ .ended → g.egress = f.egress → g.ingress = .busy data → Moves f g .replied
  | ingressFails : g.ingress = .ended → g.egress = f.egress.cancel → f.Safe .replied → Moves f g .replied
  | ingressEnds {a} : g.ingress = .ended → g.egress = f.egress → f.Safe a → Moves f g a

section Flow

variable {f g : Flow} {now : Nat} {a : Action}

theorem cancelled_iff {since : Nat} {c : Bool} : (Loop.select since c).Cancelled ↔ c = true := by
  constructor
  case mp =>
    rintro ⟨since', h⟩
    cases h
    rfl
  case mpr =>
    rintro rfl
    exact ⟨since, rfl⟩

theorem not_cancelled {l : Loop} (h : ¬l.Listens) : ¬l.Cancelled := by
  rintro ⟨since, hs⟩
  exact h ⟨since, true, hs⟩

theorem not_listens_ended : ¬Loop.ended.Listens := by
  rintro ⟨since, c, h⟩
  cases h

theorem not_listens_busy (data : Payload) : ¬(Loop.busy data).Listens := by
  rintro ⟨since, c, h⟩
  cases h

theorem not_listens_fresh : ¬Loop.fresh.Listens := by
  rintro ⟨since, c, h⟩
  cases h

theorem cancelled_cancel_iff {l : Loop} : l.cancel.Cancelled ↔ l.Listens := by
  cases l
  case select since c => exact iff_of_true ⟨since, rfl⟩ ⟨since, c, rfl⟩
  case fresh          => exact iff_of_false (not_cancelled not_listens_fresh) not_listens_fresh
  case busy data      => exact iff_of_false (not_cancelled (not_listens_busy data)) (not_listens_busy data)
  case ended          => exact iff_of_false (not_cancelled not_listens_ended) not_listens_ended

theorem cancel_eq_ended_iff {l : Loop} : l.cancel = .ended ↔ l = .ended := by
  cases l <;> simp [Loop.cancel]

theorem Flow.relayed_eq_some {o : Option Flow} (h : f.relayed o = some g) : f.phase = .relaying ∧ o = some g :=
  Option.ite_none_right_eq_some.mp h

theorem moves (h : f.act now a = some g) : Moves f g a := by
  cases a <;> simp only [Flow.act] at h
  case opened ok =>
    obtain ⟨-, h⟩ := Option.ite_none_right_eq_some.mp h
    cases ok <;> cases h
    case true  => exact .opens rfl rfl
    case false => exact .closes rfl rfl rfl trivial
  all_goals
    replace h := Flow.relayed_eq_some h
    obtain ⟨hp, h⟩ := h
  case answered r =>
    cases h
    exact .stays rfl rfl rfl trivial
  case killed =>
    cases h
    exact .closes rfl rfl rfl trivial
  case joined =>
    obtain ⟨-, h⟩ := Option.ite_none_right_eq_some.mp h
    cases h
    exact .closes rfl rfl rfl trivial
  case egressStarts =>
    obtain ⟨he, h⟩ := Option.ite_none_right_eq_some.mp h
    cases h
    exact .egressRuns (by rw [he]; exact Loop.noConfusion) Loop.noConfusion
      (cancelled_iff.not.mpr Bool.false_ne_true) rfl trivial
  case received =>
    split at h <;> cases h
    case h_1.refl he _ =>
      exact .egressRuns (by rw [he]; exact Loop.noConfusion) Loop.noConfusion
        (not_cancelled (not_listens_busy _)) rfl trivial
  case sent ok =>
    split at h
    case h_2 => cases h
    case h_1 he =>
      cases ok <;> cases h
      case true =>
        exact .egressRuns (by rw [he]; exact Loop.noConfusion) Loop.noConfusion
          (cancelled_iff.not.mpr Bool.false_ne_true) rfl trivial
      case false => exact .egressFails hp rfl rfl
  case egressIdle =>
    split at h
    case h_2 => cases h
    case h_1 he _ =>
      obtain ⟨-, h⟩ := Option.ite_none_right_eq_some.mp h
      cases h
      exact .egressIdle hp (by rw [he]; exact Loop.noConfusion) rfl rfl
  case egressCancelled =>
    split at h <;> cases h
    case h_1.refl he => exact .egressCancelled ⟨_, he⟩ rfl rfl
  case ingressStarts =>
    obtain ⟨he, h⟩ := Option.ite_none_right_eq_some.mp h
    cases h
    exact .ingressRuns hp (by rw [he]; exact Loop.noConfusion)
      (by rw [he]; exact not_cancelled not_listens_fresh) rfl (cancelled_iff.not.mpr Bool.false_ne_true) trivial
  case replied =>
    split at h <;> cases h
    case h_1.refl he hi =>
      exact .replies hp hp (by rw [hi]; rfl) (by rw [he]; exact Loop.noConfusion) rfl rfl
    case h_2.refl he hi =>
      exact .ingressFails rfl rfl fun _ data hd => by rw [hi] at hd; exact (Option.some.inj hd).symm
  case delivered ok =>
    split at h <;> cases h
    case h_1.refl he =>
      exact .ingressRuns hp (by rw [he]; exact Loop.noConfusion)
        (by rw [he]; exact not_cancelled (not_listens_busy _)) rfl (cancelled_iff.not.mpr Bool.false_ne_true)
        trivial
  case ingressIdle =>
    split at h
    case h_2 => cases h
    case h_1 =>
      obtain ⟨-, h⟩ := Option.ite_none_right_eq_some.mp h
      cases h
      exact .ingressEnds rfl rfl trivial
  case ingressCancelled =>
    split at h <;> cases h
    case h_1.refl => exact .ingressEnds rfl rfl trivial

theorem Flow.Paired.act (hp : f.Paired) (hm : Moves f g a) : g.Paired := by
  have hne : ∀ {l : Loop}, l = .ended → ¬l.Cancelled := by
    rintro l rfl
    exact not_cancelled not_listens_ended
  cases hm
  case opens he hi =>
    exact ⟨fun h => absurd (he ▸ h) (not_cancelled not_listens_fresh),
      fun h => absurd (hi ▸ h) (not_cancelled not_listens_fresh)⟩
  case closes he hi _ => exact ⟨fun h => hi.trans (hp.egress (he ▸ h)), fun h => he.trans (hp.ingress (hi ▸ h))⟩
  case stays he hi _  => exact ⟨fun h => hi.trans (hp.egress (he ▸ h)), fun h => he.trans (hp.ingress (hi ▸ h))⟩
  case egressRuns hf _ hc hi _ =>
    exact ⟨fun h => absurd h hc, fun h => absurd (hp.ingress (hi ▸ h)) hf⟩
  case egressFails he _        => exact ⟨fun h => absurd h (hne he), fun _ => he⟩
  case egressIdle he _         => exact ⟨fun h => absurd h (hne he), fun _ => he⟩
  case egressCancelled _ he _  => exact ⟨fun h => absurd h (hne he), fun _ => he⟩
  case ingressRuns hf _ he hc _ =>
    exact ⟨fun h => absurd (hp.egress (he ▸ h)) hf, fun h => absurd h hc⟩
  case replies hf he hi =>
    exact ⟨fun h => absurd (hp.egress (he ▸ h)) hf,
      fun h => absurd (hi ▸ h) (not_cancelled (not_listens_busy _))⟩
  case ingressFails hi _ _ => exact ⟨fun _ => hi, fun h => absurd h (hne hi)⟩
  case ingressEnds hi _ _  => exact ⟨fun _ => hi, fun h => absurd h (hne hi)⟩

theorem Flow.Live.act (hl : f.Live) (hp : f.Paired) (hs : f.Safe a) (hm : Moves f g a) : g.Live := by
  cases hm <;> intro hr hend
  case opens he _ =>
    rw [he] at hend
    cases hend
  case closes hc _ _ _ =>
    rw [hc] at hr
    cases hr
  case stays hph he hi _            => exact hi ▸ hl (hph ▸ hr) (he ▸ hend)
  case egressRuns hg _ _ _          => exact absurd hend hg
  case egressFails _ hi             => exact hi ▸ hs.imp cancel_eq_ended_iff.mpr cancelled_cancel_iff.mpr
  case egressIdle _ _ hi            => exact .inl (hi.trans hs)
  case egressCancelled hc _ hi      => exact .inl (hi.trans (hp.egress hc))
  case ingressRuns hph hf hc he _ _ => exact absurd (hl hph (he ▸ hend)) (not_or.mpr ⟨hf, hc⟩)
  case replies hph _ hd hf he _     =>
    refine absurd (hl hph (he ▸ hend)) (not_or.mpr ⟨hf, fun hc => ?_⟩)
    cases hs hc _ hd
  case ingressFails hi _ _          => exact .inl hi
  case ingressEnds hi _ _           => exact .inl hi

theorem not_live_of_not_safe (hp : f.Paired) (hs : ¬f.Safe a) (hm : Moves f g a) : ¬g.Live := by
  intro hl
  cases hm
  case opens            => exact hs trivial
  case closes h         => exact hs h
  case stays h          => exact hs h
  case egressRuns h     => exact hs h
  case egressFails hr he hi =>
    have := hl hr he
    rw [hi] at this
    exact hs (this.imp cancel_eq_ended_iff.mp cancelled_cancel_iff.mp)
  case egressIdle hr hf he hi =>
    have := hl hr he
    rw [hi] at this
    rcases this with h | h
    · exact hs h
    · exact hf (hp.ingress h)
  case egressCancelled  => exact hs trivial
  case ingressRuns h    => exact hs h
  case replies hr _ _ he hi =>
    refine hs fun hc => absurd (hl hr (he.trans (hp.ingress hc))) ?_
    rw [hi]
    exact not_or.mpr ⟨Loop.noConfusion, not_cancelled (not_listens_busy _)⟩
  case ingressFails h   => exact hs h
  case ingressEnds h    => exact hs h

end Flow

-- What becomes of a flow in a step.
inductive Stepped (s : State) (key : Key) (g : Flow) : Event → Prop
  | same {e} (f : Flow) : s.flows.get key = some f → g.phase = f.phase → g.egress = f.egress →
    g.ingress = f.ingress → Stepped s key g e
  | new {e} : g.phase = .connecting → g.egress = .fresh → g.ingress = .fresh → Stepped s key g e
  | acts {a} (f : Flow) : s.flows.get key = some f → f.act s.now a = some g → Stepped s key g (.act key a)

section State

variable {s t : State} {e : Event} {key : Key} {f g : Flow}

theorem stepped_demuxAndEnqueue {d : Datagram} (hg : (s.demuxAndEnqueue d).flows.get key = some g) :
    Stepped s key g e := by
  simp only [State.demuxAndEnqueue] at hg
  split at hg
  case isFalse => exact .same g hg rfl rfl rfl
  case isTrue  =>
    rw [State.set, PartialMap.get_insert] at hg
    split at hg
    case isFalse => exact .same g hg rfl rfl rfl
    case isTrue  =>
      cases hg
      exact .new rfl rfl rfl

theorem stepped_socketIngress {taker : Option Key} (h : s.socketIngress taker = some t)
    (hg : t.flows.get key = some g) : Stepped s key g e := by
  cases taker <;> simp only [State.socketIngress] at h
  case none =>
    obtain ⟨-, h⟩ := Option.ite_none_left_eq_some.mp h
    cases h
    exact .same g hg rfl rfl rfl
  case some key' =>
    split at h
    case h_2 => cases h
    case h_1 d rx f _ hf =>
      obtain ⟨-, h⟩ := Option.ite_none_right_eq_some.mp h
      cases h
      rw [State.set, PartialMap.get_insert] at hg
      split at hg
      case isFalse   => exact .same g hg rfl rfl rfl
      case isTrue hk =>
        cases hg
        exact .same f (hk ▸ hf) rfl rfl rfl

theorem stepped (h : step s e = some t) (hg : t.flows.get key = some g) : Stepped s key g e := by
  cases e <;> simp only [step] at h
  case tick ms =>
    cases h
    exact .same g hg rfl rfl rfl
  case inject d =>
    cases h
    exact stepped_demuxAndEnqueue hg
  case ingress taker => exact stepped_socketIngress h hg
  case act key' a =>
    obtain ⟨g', hb, rfl⟩ := Option.map_eq_some_iff.mp h
    obtain ⟨f, hf, ha⟩ := Option.bind_eq_some_iff.mp hb
    rw [State.set, PartialMap.get_insert] at hg
    split at hg
    case isFalse   => exact .same g hg rfl rfl rfl
    case isTrue hk =>
      cases hg
      subst hk
      exact .acts f hf ha
  case teardown key' =>
    obtain ⟨-, h⟩ := Option.ite_none_right_eq_some.mp h
    cases h
    exact .same g (PartialMap.get_erase_eq_some.mp hg).1 rfl rfl rfl

-- Between steps of runs that are safe, every flow has this.
def Sound (s : State) : Prop :=
  ∀ key f, s.flows.get key = some f → f.Live ∧ f.Paired

theorem Sound.step (hs : Sound s) (hc : Safe s e) (h : step s e = some t) : Sound t := by
  intro key g hg
  cases stepped h hg
  case same f hf hp he hi =>
    obtain ⟨hl, hpair⟩ := hs key f hf
    exact ⟨fun hr hend => hi ▸ hl (hp ▸ hr) (he ▸ hend),
      fun hc => hi.trans (hpair.egress (he ▸ hc)), fun hc => he.trans (hpair.ingress (hi ▸ hc))⟩
  case new hp he hi =>
    refine ⟨fun hr => ?_, fun hc => absurd (he ▸ hc) (not_cancelled not_listens_fresh),
      fun hc => absurd (hi ▸ hc) (not_cancelled not_listens_fresh)⟩
    rw [hp] at hr
    cases hr
  case acts a f hf ha =>
    obtain ⟨hl, hpair⟩ := hs key f hf
    exact ⟨hl.act hpair (hc key a rfl f hf) (moves ha), hpair.act (moves ha)⟩

theorem not_live_of_step (hs : Sound s) (hc : ¬Safe s e) (h : step s e = some t) : ¬Live t := by
  simp only [Safe, not_forall] at hc
  obtain ⟨key, a, rfl, f, hf, hsafe⟩ := hc
  obtain ⟨g, hb, ht⟩ := Option.map_eq_some_iff.mp h
  obtain ⟨f', hf', ha⟩ := Option.bind_eq_some_iff.mp hb
  cases hf.symm.trans hf'
  have hg : t.flows.get key = some g := by
    rw [← ht]
    exact PartialMap.get_insert_self _ _ _
  exact fun hl => not_live_of_not_safe (hs key f hf).2 hsafe (moves ha) (hl key g hg)

end State

-- In every run, every flow in the table has a live egress or ends next in all states just when all steps
-- are safe.
theorem egress_live_iff (es : List Event) : Always step Live {} es ↔ Each step Safe {} es := by
  have hk : Keeps step Safe Sound := fun s e t hs hc h => hs.step hc h
  refine always_iff_each hk (fun s hs key f hf => (hs key f hf).1)
    (fun s e t hs hc h => not_live_of_step hs hc h) fun key f hf => ?_
  cases hf

section Example

def request : Datagram where
  src := ⟨.v4 0x0a000002, 5000⟩
  dst := ⟨.v4 0x01010101, 443⟩
  payload := [1]

def asks (a : Action) : Event :=
  .act request.key a

-- The client asks once, and replies come every half a minute. After a minute the egress is gone, and
-- the next datagram of the client stays in the socket.
def download : List Event :=
  [.inject request, .ingress (some request.key), asks (.opened true), asks .egressStarts, asks .ingressStarts,
    asks .received, asks (.sent true), .tick 30000, asks (.answered (some [2])), asks .replied,
    asks (.delivered true), .tick 30000, asks .egressIdle, .inject { request with payload := [3] },
    .ingress (some request.key), .tick 20000, asks (.answered (some [4])), asks .replied,
    asks (.delivered true)]

theorem egress_gone :
    ∃ t f, run step {} download = some t ∧ t.flows.get request.key = some f ∧ f.phase = .relaying ∧
      f.egress = .ended ∧ f.ingress = .select 80000 false ∧ f.forwarded = [[1]] ∧ f.rx = [[3]] ∧ ¬Live t := by
  refine ⟨_, _, rfl, rfl, rfl, rfl, rfl, rfl, rfl, fun hl => ?_⟩
  rcases hl request.key _ rfl rfl rfl with h | ⟨since, h⟩
  · cases h
  · cases h

end Example
end JammVpn.UdpRelay
