import JammVpn.Net.Wireguard
import Mathlib.Data.Nat.ModEq

namespace JammVpn.Wireguard

open Machine

-- Whether an event opens a socket, and of which kind.
def Event.opens : Event → Option Bool
  | connect true => some true
  | connectUdp   => some false
  | _            => none

-- Sockets of a kind that are bound have different ports.
def Unique (t : WgTunnel) : Prop :=
  ∀ i j a b, t.sockets.get i = some a → t.sockets.get j = some b → a.bound → b.bound →
    a.isTcp = b.isTcp → a.localPort = b.localPort → i = j

-- When a socket is opened, none of its kind is bound that was opened a multiple of 16384 allocations
-- before.
def NoTwin (t : WgTunnel) (e : Event) : Prop :=
  ∀ tcp, e.opens = some tcp → ∀ i a, t.sockets.get i = some a → a.bound → a.isTcp = tcp →
    ¬portSpan ∣ t.allocs - a.serial

-- The port of a socket comes from the number of its allocation.
def Numbered (t : WgTunnel) : Prop :=
  ∀ i a, t.sockets.get i = some a → a.serial < t.allocs ∧ a.localPort = portBase + a.serial % portSpan

-- Sockets stay what they are, or close, or go.
structure Shrinks (t t' : WgTunnel) : Prop where
  allocs  : t.allocs ≤ t'.allocs
  sockets : ∀ i a', t'.sockets.get i = some a' → ∃ a, t.sockets.get i = some a ∧ a'.isTcp = a.isTcp ∧
    a'.localPort = a.localPort ∧ a'.serial = a.serial ∧ (a'.bound → a.bound)

-- A new socket, in a slot that was free.
structure Opened (t t' : WgTunnel) (tcp : Bool) : Prop where
  allocs  : t'.allocs = t.allocs + 1
  sockets : ∃ a, t'.sockets = t.sockets.add a ∧ a.bound ∧ a.isTcp = tcp ∧ a.serial = t.allocs ∧
    a.localPort = t.port

section Step

variable {t t' : WgTunnel} {e : Event}

theorem port_eq (t : WgTunnel) : t.port = portBase + t.allocs % portSpan := by
  have h : portSpan ∣ 2 ^ 32 := by decide
  rw [WgTunnel.port, WgTunnel.nextPort, Nat.mod_mod_of_dvd _ h]

theorem Shrinks.of_sockets (hs : t'.sockets = t.sockets) (ha : t.allocs ≤ t'.allocs) : Shrinks t t' where
  allocs := ha
  sockets _ a h := ⟨a, hs ▸ h, rfl, rfl, rfl, id⟩

theorem Shrinks.of_remove {handle : Nat} (hs : t'.sockets = t.sockets.remove handle)
    (ha : t'.allocs = t.allocs) : Shrinks t t' where
  allocs := ha.ge
  sockets i a h := by
    rw [hs, Slots.get_remove] at h
    split at h
    case isTrue  => cases h
    case isFalse => exact ⟨a, h, rfl, rfl, rfl, id⟩

theorem bound_close {a : Socket} (h : a.close.bound) : a.bound := by
  obtain ⟨tcp, port, serial⟩ := a
  cases tcp
  case none       => rfl
  case some state => cases state <;> first | rfl | exact h

theorem Shrinks.of_close {handle : Nat} (hs : t'.sockets = t.sockets.update handle Socket.close)
    (ha : t'.allocs = t.allocs) : Shrinks t t' where
  allocs := ha.ge
  sockets i a' h := by
    rw [hs, Slots.get_update] at h
    split at h
    case isFalse => exact ⟨a', h, rfl, rfl, rfl, id⟩
    case isTrue =>
      obtain ⟨a, ha, rfl⟩ := Option.map_eq_some_iff.mp h
      exact ⟨a, ha, Option.isSome_map, rfl, rfl, bound_close⟩

theorem bound_poll {next : TcpState} {a : Socket} (h : (a.poll next).bound) : a.bound := by
  obtain ⟨tcp, port, serial⟩ := a
  cases tcp
  case none       => rfl
  case some state => cases state <;> first | rfl | exact h

theorem Shrinks.drive (t : WgTunnel) (next : Nat → TcpState) : Shrinks t (t.drive next) where
  allocs := Nat.le_refl _
  sockets i a' h := by
    have h := Slots.get_of_foldl_remove h
    rw [Slots.get_mapIdx] at h
    obtain ⟨a, ha, rfl⟩ := Option.map_eq_some_iff.mp h
    exact ⟨a, ha, Option.isSome_map, rfl, rfl, bound_poll⟩

theorem step_cases (h : step t e = some t') :
    (∃ tcp, e.opens = some tcp ∧ Opened t t' tcp) ∨ e.opens = none ∧ Shrinks t t' := by
  cases e <;> simp only [step] at h
  case connect accepted =>
    cases accepted <;> cases h
    case true  => exact .inl ⟨true, rfl, rfl, _, rfl, rfl, rfl, rfl, rfl⟩
    case false => exact .inr ⟨rfl, .of_sockets rfl (Nat.le_succ _)⟩
  case connectUdp =>
    cases h
    exact .inl ⟨false, rfl, rfl, _, rfl, rfl, rfl, rfl, rfl⟩
  case drive next =>
    cases h
    exact .inr ⟨rfl, .drive t next⟩
  all_goals
    obtain ⟨-, h⟩ := Option.ite_none_right_eq_some.mp h
    cases h
  case connected.refl      => exact .inr ⟨rfl, .of_sockets rfl (Nat.le_refl _)⟩
  case connectDropped.refl => exact .inr ⟨rfl, .of_sockets rfl (Nat.le_refl _)⟩
  case connectFailed.refl  => exact .inr ⟨rfl, .of_remove rfl rfl⟩
  case dropUdp.refl        => exact .inr ⟨rfl, .of_remove rfl rfl⟩
  case shutdown.refl       => exact .inr ⟨rfl, .of_close rfl rfl⟩
  case dropStream.refl     => exact .inr ⟨rfl, .of_close rfl rfl⟩

-- What a socket of the same kind and port needs.
theorem twin_iff (hn : Numbered t) {i : Nat} {a : Socket} (ha : t.sockets.get i = some a) :
    a.localPort = t.port ↔ portSpan ∣ t.allocs - a.serial := by
  obtain ⟨hs, hp⟩ := hn i a ha
  rw [hp, port_eq, Nat.add_right_inj]
  exact Nat.modEq_iff_dvd' hs.le

theorem Numbered.step (hn : Numbered t) (h : step t e = some t') : Numbered t' := by
  rcases step_cases h with ⟨tcp, -, ho⟩ | ⟨-, hs⟩
  case inl =>
    obtain ⟨new, hadd, -, -, hser, hport⟩ := ho.sockets
    intro i a hi
    rw [hadd, Slots.get_add] at hi
    split at hi
    case isTrue =>
      cases hi
      rw [ho.allocs, hser, hport, port_eq]
      exact ⟨Nat.lt_succ_self _, rfl⟩
    case isFalse =>
      obtain ⟨hlt, hp⟩ := hn i a hi
      exact ⟨ho.allocs ▸ Nat.lt_succ_of_lt hlt, hp⟩
  case inr =>
    intro i a' hi
    obtain ⟨a, ha, -, hp, hser, -⟩ := hs.sockets i a' hi
    obtain ⟨hlt, hport⟩ := hn i a ha
    rw [hser, hp]
    exact ⟨hlt.trans_le hs.allocs, hport⟩

theorem Unique.shrinks (hu : Unique t) (hs : Shrinks t t') : Unique t' := by
  intro i j a' b' hi hj hba hbb hk hp
  obtain ⟨a, ha, hka, hpa, -, hbda⟩ := hs.sockets i a' hi
  obtain ⟨b, hb, hkb, hpb, -, hbdb⟩ := hs.sockets j b' hj
  exact hu i j a b ha hb (hbda hba) (hbdb hbb) (hka ▸ hkb ▸ hk) (hpa ▸ hpb ▸ hp)

theorem Unique.opened {tcp : Bool} (hu : Unique t) (ho : Opened t t' tcp)
    (hn : ∀ i a, t.sockets.get i = some a → a.bound → a.isTcp = tcp → a.localPort ≠ t.port) : Unique t' := by
  obtain ⟨new, hadd, -, hk, -, hport⟩ := ho.sockets
  intro i j a b hi hj hba hbb hkk hp
  rw [hadd, Slots.get_add] at hi hj
  split at hi <;> split at hj
  case isTrue.isTrue hi' hj'  => rw [hi', hj']
  case isTrue.isFalse =>
    cases hi
    exact absurd (hp.symm.trans hport) (hn j b hj hbb (hkk.symm.trans hk))
  case isFalse.isTrue =>
    cases hj
    exact absurd (hp.trans hport) (hn i a hi hba (hkk.trans hk))
  case isFalse.isFalse => exact hu i j a b hi hj hba hbb hkk hp

theorem not_unique_of_twin (hn : Numbered t) (hc : ¬NoTwin t e) (h : step t e = some t') : ¬Unique t' := by
  intro hu
  simp only [NoTwin, not_forall, not_not] at hc
  obtain ⟨tcp, ho, i, a, ha, hb, hk, hd⟩ := hc
  rcases step_cases h with ⟨tcp', ho', hopen⟩ | ⟨hno, -⟩
  case inr => exact absurd (ho.symm.trans hno) (Option.some_ne_none tcp)
  case inl =>
    cases Option.some.inj (ho.symm.trans ho')
    obtain ⟨new, hadd, hbn, hkn, -, hport⟩ := hopen.sockets
    have hne : i ≠ t.sockets.free := by
      rintro rfl
      rw [Slots.get_free] at ha
      cases ha
    have hi : t'.sockets.get i = some a := by rw [hadd, Slots.get_add, if_neg hne, ha]
    have hf : t'.sockets.get t.sockets.free = some new := by rw [hadd, Slots.get_add, if_pos rfl]
    have hp : a.localPort = new.localPort := ((twin_iff hn ha).mpr hd).trans hport.symm
    exact hne (hu i _ a new hi hf hb hbn (hk.trans hkn.symm) hp)

end Step

-- In every run of a tunnel, the ports of the sockets of each kind are different in all states just when
-- no socket is opened a multiple of 16384 allocations after one of its kind that is still bound.
theorem ports_unique_iff (es : List Event) : Always step Unique {} es ↔ Each step NoTwin {} es := by
  have hk : Keeps step NoTwin fun t => Unique t ∧ Numbered t := by
    intro t e t' hp hc h
    obtain ⟨hu, hn⟩ := hp
    refine ⟨?_, hn.step h⟩
    rcases step_cases h with ⟨tcp, ho, hopen⟩ | ⟨-, hs⟩
    case inl => exact hu.opened hopen fun i a ha hb hk hp => hc tcp ho i a ha hb hk ((twin_iff hn ha).mp hp)
    case inr => exact hu.shrinks hs
  have hempty : ∀ i a, ({} : WgTunnel).sockets.get i ≠ some a := by
    intro i a h
    cases h
  refine always_iff_each hk (fun t hp => hp.1) (fun t e t' hp hc h => not_unique_of_twin hp.2 hc h) ⟨?_, ?_⟩
  case refine_1 => exact fun i j a b hi => absurd hi (hempty i a)
  case refine_2 => exact fun i a hi => absurd hi (hempty i a)

section Example

def session : List Event :=
  [.connectUdp, .dropUdp 1]

-- A UDP session stays open while 16383 others come and go, and then one more is opened.
def wrapRun : List Event :=
  .connectUdp :: ((List.replicate 16383 session).flatten ++ [.connectUdp])

def firstSocket : Socket where
  tcp := none
  localPort := 49152
  serial := 0

def afterSessions (n : Nat) : WgTunnel where
  sockets := ⟨[some firstSocket, none]⟩
  allocs := n
  sessions := [0]

theorem run_sessions (n k : Nat) :
    run step (afterSessions n) (List.replicate k session).flatten = some (afterSessions (n + k)) := by
  induction k generalizing n
  case zero => rfl
  case succ k hi =>
    rw [List.replicate_succ, List.flatten_cons, run_append]
    have hone : run step (afterSessions n) session = some (afterSessions (n + 1)) := rfl
    rw [hone, Option.bind_some, hi, Nat.add_right_comm, Nat.add_assoc]

theorem two_sessions_one_port :
    ∃ t b, run step {} wrapRun = some t ∧ t.sockets.get 0 = some firstSocket ∧ t.sockets.get 1 = some b ∧
      firstSocket.bound ∧ b.bound ∧ firstSocket.isTcp = b.isTcp ∧ firstSocket.localPort = b.localPort ∧
      ¬Unique t := by
  have hfirst : run step {} (.connectUdp :: session) = some (afterSessions 2) := rfl
  have hrun : run step {} (.connectUdp :: (List.replicate 16383 session).flatten) =
      some (afterSessions 16384) := by
    rw [List.replicate_succ, List.flatten_cons, ← List.cons_append, run_append, hfirst, Option.bind_some,
      run_sessions]
  let t := { (afterSessions 16384).addSocket none with sessions := [1, 0] }
  let b : Socket := { tcp := none, localPort := 49152, serial := 16384 }
  have hb : t.sockets.get 1 = some b := by decide
  refine ⟨t, b, ?_, rfl, hb, rfl, rfl, rfl, rfl, ?_⟩
  · rw [wrapRun, ← List.cons_append, run_append, hrun]
    rfl
  · exact fun hu => absurd (hu 0 1 firstSocket b rfl hb rfl rfl rfl rfl) (by decide)

end Example
end JammVpn.Wireguard
