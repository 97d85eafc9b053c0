import JammVpn.Net.TuicUdp

namespace JammVpn.TuicUdp

open Machine

section

variable {flows : PartialMap UInt16 Nat} {n : Nat} {next next' id : UInt16}

theorem freeId_of_free (hn : 0 < n) (h0 : next ≠ 0) (hf : flows.get next = none) :
    freeId flows n next = (some next, next + 1) := by
  cases n
  case zero   => exact absurd hn (Nat.lt_irrefl 0)
  case succ n => simp [freeId, h0, hf]

theorem freeId_free (h : (freeId flows n next).1 = some id) : id ≠ 0 ∧ flows.get id = none := by
  induction n generalizing next
  case zero => cases h
  case succ n hi =>
    simp only [freeId] at h
    split at h
    case isTrue hf => exact Option.some.inj h ▸ hf
    case isFalse   => exact hi h

-- A try that fails brings the counter one step closer to the other ids.
theorem toNat_sub_succ (h : id ≠ next) : (id - (next + 1)).toNat + 1 = (id - next).toNat := by
  have hid : id.toNat ≠ next.toNat := fun he => h (UInt16.toNat_inj.mp he)
  have := id.toNat_lt
  have := next.toNat_lt
  simp only [UInt16.toNat_sub, UInt16.toNat_add, UInt16.toNat_one]
  omega

theorem freeId_ne_none (h0 : id ≠ 0) (hf : flows.get id = none) (hn : (id - next).toNat < n) :
    (freeId flows n next).1 ≠ none := by
  induction n generalizing next
  case zero => exact absurd hn (Nat.not_lt_zero _)
  case succ n hi =>
    rw [freeId]
    split
    case isTrue => exact Option.some_ne_none next
    case isFalse hused =>
      have hne : id ≠ next := by
        rintro rfl
        exact hused ⟨h0, hf⟩
      have := toNat_sub_succ hne
      exact hi (by omega)

theorem freeId_eq_none_iff :
    (freeId flows 65536 next).1 = none ↔ ∀ id, id ≠ 0 → flows.get id ≠ none := by
  constructor
  case mp  => exact fun h id h0 hf => freeId_ne_none h0 hf (id - next).toNat_lt h
  case mpr =>
    intro h
    cases hid : (freeId flows 65536 next).1
    case none => rfl
    case some id =>
      obtain ⟨h0, hf⟩ := freeId_free hid
      exact absurd hf (h id h0)

theorem freeId_none_next (h : freeId flows n next = (none, next')) : next' = next + .ofNat n := by
  induction n generalizing next
  case zero =>
    cases h
    exact (UInt16.add_zero _).symm
  case succ n hi =>
    rw [freeId] at h
    split at h
    case isTrue  => cases h
    case isFalse => rw [hi h, UInt16.ofNat_add, UInt16.add_assoc, UInt16.add_comm 1]; rfl

theorem freeId_some_next (h : freeId flows n next = (some id, next')) : next' = id + 1 := by
  induction n generalizing next
  case zero => cases h
  case succ n hi =>
    rw [freeId] at h
    split at h
    case isTrue  => cases h; rfl
    case isFalse => exact hi h

end

namespace State

variable {s : State} {id : UInt16} {tx rx : Nat} {c : Channel}

theorem nextId_eq_none_iff : s.nextId = none ↔ ∀ id, id ≠ 0 → s.flows.get id ≠ none :=
  freeId_eq_none_iff

-- The counter has gone all the way round.
theorem register_of_none (h : s.nextId = none) : s.register = s := by
  rw [nextId] at h
  rw [register]
  cases hf : freeId s.flows 65536 s.nextAssoc
  case mk o next =>
    rw [hf] at h
    cases h
    have hnext : next = s.nextAssoc := (freeId_none_next hf).trans (UInt16.add_zero _)
    rw [hnext]

theorem register_of_some (h : s.nextId = some id) :
    s.register = { s with
      nextAssoc := id + 1
      flows := s.flows.insert id s.channels.length
      channels := s.channels ++ [.new]
    } := by
  rw [nextId] at h
  rw [register]
  cases hf : freeId s.flows 65536 s.nextAssoc
  case mk o next =>
    rw [hf] at h
    cases h
    rw [freeId_some_next hf]

-- An id is found unless all of them are taken, and it is the only one whose registration changes.
theorem register_fresh (s : State) :
    (s.nextId = none ↔ ∀ id, id ≠ 0 → s.flows.get id ≠ none) ∧ (s.nextId = none → s.register = s) ∧
      ∀ id, s.nextId = some id →
        id ≠ 0 ∧ s.flows.get id = none ∧ s.register.flows.get id = some s.channels.length ∧
          s.register.channels = s.channels ++ [.new] ∧
          ∀ id', id' ≠ id → s.register.flows.get id' = s.flows.get id' := by
  refine ⟨nextId_eq_none_iff, register_of_none, ?_⟩
  intro id h
  obtain ⟨h0, hf⟩ := freeId_free h
  rw [register_of_some h]
  exact ⟨h0, hf, PartialMap.get_insert_self _ _ _, rfl, fun id' => PartialMap.get_insert_of_ne _ _⟩

-- A registration takes an id that is free, for a new channel.
theorem register_cases (s : State) :
    (∃ next, s.register = { s with nextAssoc := next }) ∨
    (∃ id next, s.nextId = some id ∧ s.flows.get id = none ∧ s.register = { s with
      nextAssoc := next
      flows := s.flows.insert id s.channels.length
      channels := s.channels ++ [.new]
    }) := by
  cases h : s.nextId
  case none    => exact .inl ⟨s.nextAssoc, register_of_none h⟩
  case some id => exact .inr ⟨id, id + 1, rfl, (freeId_free h).2, register_of_some h⟩

theorem alive_setChannel (hc : s.channels[rx]? = some c) {c' : Channel} (h : c'.alive = true → c.alive = true)
    (ha : (s.setChannel rx c').Alive tx) : s.Alive tx := by
  have ⟨d, hd, hda⟩ := ha
  simp only [setChannel, List.getElem?_set] at hd
  split at hd
  case isTrue he =>
    split at hd
    case isTrue  => exact ⟨c, he ▸ hc, h (Option.some.inj hd ▸ hda)⟩
    case isFalse => cases hd
  case isFalse   => exact ⟨d, hd, hda⟩

-- What the loop has cloned is what is registered for its id, as long as that is registered.
structure Inv (s : State) : Prop where
  bounded : ∀ {id tx}, s.flows.get id = some tx → tx < s.channels.length
  cloned  : ∀ {id tx}, s.loop.sender = some (id, tx) → tx < s.channels.length
  sender  : ∀ {id tx tx'}, s.loop.sender = some (id, tx) → s.flows.get id = some tx' → tx' = tx
  failed  : ∀ {id tx}, s.loop = .failed id tx → ¬s.Alive tx

theorem Inv.start : Inv start where
  bounded h := by cases h
  cloned h := by cases h
  sender h := by cases h
  failed h := by cases h

-- Steps of the flows leave the loop where it is.
theorem Inv.of_channels {s' : State} (h : s.Inv) (hf : s'.flows = s.flows) (hl : s'.loop = s.loop)
    (hn : s'.channels.length = s.channels.length) (ha : ∀ tx, s'.Alive tx → s.Alive tx) : s'.Inv where
  bounded hg := hn ▸ h.bounded (hf ▸ hg)
  cloned hs := hn ▸ h.cloned (hl ▸ hs)
  sender hs hg := h.sender (hl ▸ hs) (hf ▸ hg)
  failed hs := fun hd => h.failed (hl ▸ hs) (ha _ hd)

theorem Inv.of_erase (h : s.Inv) : (s.dissociate id).Inv where
  bounded hg := h.bounded (PartialMap.get_erase_eq_some.mp hg).1
  cloned hs := h.cloned hs
  sender hs hg := h.sender hs (PartialMap.get_erase_eq_some.mp hg).1
  failed hs := h.failed hs

theorem Inv.idle (h : s.Inv) : Inv { s with loop := .idle } where
  bounded hg := h.bounded hg
  cloned hs := by cases hs
  sender hs := by cases hs
  failed hs := by cases hs

theorem Inv.register (h : s.Inv) (hn : ∀ id, s.loop.serving = some id → s.nextId ≠ some id) :
    s.register.Inv := by
  obtain ⟨next, hr⟩ | ⟨id, next, hid, -, hr⟩ := s.register_cases
  case inl => exact hr ▸ h.of_channels rfl rfl rfl fun _ ha => ha
  case inr =>
    rw [hr]
    constructor
    case bounded =>
      intro id' tx hg
      simp only [PartialMap.get_insert] at hg
      simp only [List.length_append, List.length_singleton]
      split at hg
      case isTrue  => exact Option.some.inj hg ▸ Nat.lt_succ_self _
      case isFalse => exact Nat.lt_succ_of_lt (h.bounded hg)
    case cloned =>
      intro id' tx hs
      have := h.cloned hs
      simp only [List.length_append]
      omega
    case sender =>
      intro id' tx tx' hs hg
      have hne : id' ≠ id := by
        intro he
        exact hn id' (by simp only [Loop.serving, show s.loop.sender = _ from hs, Option.map]) (he ▸ hid)
      exact h.sender hs (PartialMap.get_insert_of_ne _ _ hne ▸ hg)
    case failed =>
      rintro id' tx hs ⟨c, hc, ha⟩
      have hsender : s.loop.sender = some (id', tx) := by simp only [show s.loop = _ from hs, Loop.sender]
      have hlt := h.cloned hsender
      rw [List.getElem?_append_left hlt] at hc
      exact h.failed hs ⟨c, hc, ha⟩

theorem drop_inv {s' : State} (h : s.Inv) (hs : s.drop rx = some s') : s'.Inv := by
  obtain ⟨c, hc, hs⟩ := Option.bind_eq_some_iff.mp hs
  split at hs
  case isFalse => cases hs
  case isTrue =>
    cases hs
    exact h.of_channels rfl rfl (by simp [setChannel]) fun _ => alive_setChannel hc nofun

theorem recv_inv {s' : State} (h : s.Inv) (hs : s.recv rx = some s') : s'.Inv := by
  obtain ⟨c, hc, hs⟩ := Option.bind_eq_some_iff.mp hs
  split at hs
  case h_2 => cases hs
  case h_1 =>
    cases hs
    exact h.of_channels rfl rfl (by simp [setChannel]) fun _ => alive_setChannel hc id

-- The loop has cloned nothing between two payloads.
theorem Inv.of_no_sender {s' : State} (h : s.Inv) (hf : s'.flows = s.flows)
    (hc : s'.channels = s.channels) (hl : s'.loop.sender = none) : s'.Inv where
  bounded hg := hc ▸ h.bounded (hf ▸ hg)
  cloned hs := by rw [hl] at hs; cases hs
  sender hs := by rw [hl] at hs; cases hs
  failed hs := by rw [hs] at hl; cases hl

theorem datagram_inv {s' : State} {now tie : Nat} {dg : List UInt8} (h : s.Inv)
    (hs : s.datagram now tie dg = some s') : s'.Inv := by
  simp only [datagram] at hs
  split at hs
  case h_2    => cases hs
  case h_1 hl =>
    split at hs <;> cases hs
    case h_1 => exact h.of_no_sender rfl rfl (by simp [hl, Loop.sender])
    case h_2 => exact h.of_no_sender rfl rfl rfl

theorem lookup_inv {s' : State} (h : s.Inv) (hs : s.lookup = some s') : s'.Inv := by
  simp only [lookup] at hs
  split at hs
  case h_2 => cases hs
  case h_1 =>
    split at hs <;> cases hs
    case h_1    => exact h.idle
    case h_2 hg =>
      constructor
      case bounded => exact fun hg => h.bounded hg
      case failed  => exact fun hs => by cases hs
      case cloned  =>
        intro id tx hs
        cases hs
        exact h.bounded hg
      case sender =>
        intro id tx tx' hs hg'
        cases hs
        exact Option.some.inj (hg'.symm.trans hg)

theorem send_inv {s' : State} (h : s.Inv) (hs : s.send = some s') : s'.Inv := by
  simp only [send] at hs
  split at hs
  case h_2 => cases hs
  case h_1 id tx payload hl =>
    obtain ⟨c, hc, hs⟩ := Option.bind_eq_some_iff.mp hs
    have hsend : s.loop.sender = some (id, tx) := by rw [hl, Loop.sender]
    split at hs
    case isTrue ha =>
      cases hs
      constructor
      case bounded => exact fun hg => h.bounded hg
      case cloned  => exact fun hs => h.cloned (hsend.trans hs)
      case sender  => exact fun hs => h.sender (hsend.trans hs)
      case failed  =>
        intro id' tx' hs ⟨d, hd, hda⟩
        cases hs
        have := Option.some.inj (hc.symm.trans hd)
        simp [this, hda] at ha
    case isFalse ha =>
      split at hs <;> cases hs
      have hset : Inv (s.setChannel tx { c with queue := c.queue ++ [payload] }) :=
        h.of_channels rfl rfl (by simp [setChannel]) fun _ => alive_setChannel hc (·)
      exact hset.idle

theorem remove_inv {s' : State} (h : s.Inv) (hs : s.remove = some s') : s'.Inv := by
  simp only [remove] at hs
  split at hs <;> cases hs
  exact h.of_erase.idle

-- No flow is registered while the loop serves another flow under the same id, and the connection
-- is open.
def Fresh (s : State) : Event → Prop
  | .register => ∀ id, s.loop.serving = some id → s.nextId ≠ some id
  | .close    => False
  | _         => True

theorem inv_keeps : Keeps step Fresh Inv := by
  intro s e s' h hf hs
  cases e
  case register => exact Option.some.inj hs ▸ h.register hf
  case dissociate id => exact Option.some.inj hs ▸ h.of_erase
  case drop rx => exact drop_inv h hs
  case recv rx => exact recv_inv h hs
  case datagram => exact datagram_inv h hs
  case lookup => exact lookup_inv h hs
  case send => exact send_inv h hs
  case remove => exact remove_inv h hs
  case close => exact absurd hf not_false

-- A step of the loop removes no registration of a flow that still has its receiver.
def KeepsLive (s : State) (e : Event) : Prop :=
  ∀ s', step s e = some s' → e.ofLoop → ∀ id tx, s.Live id tx → s'.flows.get id = some tx

theorem Inv.keepsLive {e : Event} (h : s.Inv) (hf : Fresh s e) : KeepsLive s e := by
  intro s' hs he id tx hl
  cases e
  case register   => cases he
  case dissociate => cases he
  case drop       => cases he
  case recv       => cases he
  case datagram =>
    simp only [step, datagram] at hs
    split at hs
    case h_1 => split at hs <;> cases hs <;> exact hl.1
    case h_2 => cases hs
  case lookup =>
    simp only [step, lookup] at hs
    split at hs
    case h_1 => split at hs <;> cases hs <;> exact hl.1
    case h_2 => cases hs
  case send =>
    simp only [step, send] at hs
    split at hs
    case h_1 =>
      obtain ⟨c, -, hs⟩ := Option.bind_eq_some_iff.mp hs
      split at hs
      case isTrue  => cases hs; exact hl.1
      case isFalse => split at hs <;> cases hs; exact hl.1
    case h_2 => cases hs
  case remove =>
    simp only [step, remove] at hs
    split at hs <;> cases hs
    case h_1 id' tx' hloop =>
      -- The flow that is registered is the one whose receiver was found dropped.
      refine PartialMap.get_erase_eq_some.mpr ⟨hl.1, fun hid => ?_⟩
      have htx := h.sender (by rw [hloop, Loop.sender]) (hid ▸ hl.1)
      exact h.failed hloop (htx ▸ hl.2)
  case close => exact absurd hf not_false

end State

open State

theorem live_registrations_kept (es : List Event) (h : Each step Fresh .start es) :
    Each step KeepsLive .start es :=
  h.imp inv_keeps .start fun _ _ => Inv.keepsLive

-- A packet of one fragment without an address, for the association with the id 1.
def packetForOne : List UInt8 :=
  [0x05, 0x02, 0, 1, 0, 0, 1, 0, 0, 0, 0xff]

-- A flow drops its receiver, and the loop removes its registration after that.
def droppedFlow : List Event :=
  [.register, .datagram 0 0 packetForOne, .lookup, .drop 0, .send, .remove]

theorem droppedFlow_fresh : Each step Fresh .start droppedFlow := by
  intro s _
  refine ⟨nofun, each_of_forall fun e he s => ?_⟩
  cases e
  case register => simp at he
  case close    => simp at he
  all_goals trivial

theorem live_registrations_kept_droppedFlow :
    Each step Fresh .start droppedFlow ∧ Each step KeepsLive .start droppedFlow :=
  ⟨droppedFlow_fresh, live_registrations_kept droppedFlow droppedFlow_fresh⟩

theorem receive_packetForOne (m : Tuic.Pending) :
    Tuic.receive 0 0 packetForOne m = (some (1, []), m) := by
  rfl

-- Registers and closes flow after flow, from an id on.
def cycles : Nat → UInt16 → List Event
  | 0,     _  => []
  | n + 1, id => .register :: .dissociate id :: cycles n (id + 1)

theorem close_not_mem_cycles {n : Nat} {id : UInt16} : .close ∉ cycles n id := by
  induction n generalizing id
  case zero      => exact List.not_mem_nil
  case succ n hi => simp [cycles, hi]

theorem register_dissociate {s : State} (hf : s.flows = .empty) (h0 : s.nextAssoc ≠ 0) :
    s.register.dissociate s.nextAssoc =
      { s with nextAssoc := s.nextAssoc + 1, channels := s.channels ++ [.new] } := by
  have hr : freeId s.flows 65536 s.nextAssoc = (some s.nextAssoc, s.nextAssoc + 1) :=
    freeId_of_free (by decide) h0 (by rw [hf, PartialMap.get_empty])
  have he : (s.flows.insert s.nextAssoc s.channels.length).erase s.nextAssoc = s.flows := by
    funext id
    simp only [PartialMap.erase, PartialMap.insert]
    split
    case isTrue  => rw [hf]; rfl
    case isFalse => rfl
  simp only [register, hr, dissociate, he]

theorem run_cycles {n : Nat} {s : State} (hf : s.flows = .empty) (h0 : 0 < s.nextAssoc.toNat)
    (hn : s.nextAssoc.toNat + n ≤ 65536) :
    run step s (cycles n s.nextAssoc) = some { s with
      nextAssoc := s.nextAssoc + .ofNat n
      channels := s.channels ++ List.replicate n .new
    } := by
  induction n generalizing s
  case zero => simp [cycles, run]
  case succ n hi =>
    have hne : s.nextAssoc ≠ 0 := fun h => by simp [h] at h0
    simp only [cycles, run, step, register_dissociate hf hne]
    cases n
    case zero => simp [cycles, run]
    case succ n =>
      have hnext : (s.nextAssoc + 1).toNat = s.nextAssoc.toNat + 1 := by
        rw [UInt16.toNat_add]
        exact Nat.mod_eq_of_lt (by simp only [UInt16.toNat_one]; omega)
      have := @hi { s with nextAssoc := s.nextAssoc + 1, channels := s.channels ++ [.new] } hf
        (by rw [hnext]; omega) (by rw [hnext]; omega)
      rw [this]
      simp only [List.append_assoc, List.singleton_append, ← List.replicate_succ]
      have hsum : s.nextAssoc + 1 + .ofNat (n + 1) = s.nextAssoc + .ofNat (n + 1 + 1) := by
        rw [UInt16.add_assoc, UInt16.ofNat_add (n + 1) 1, UInt16.add_comm 1]
        rfl
      rw [hsum]

-- The loop has cloned the sender of the first flow when that flow closes. Its id comes around and
-- is given to another flow before the loop finds that the receiver is gone.
def reusedId : List Event :=
  [.register, .datagram 0 0 packetForOne, .lookup, .drop 0, .dissociate 1] ++ cycles 65534 2 ++
    [.register, .send]

def beforeReuse : State where
  nextAssoc := 2
  flows := .empty
  channels := [.dropped]
  reasm := .empty
  loop := .sending 1 0 []

-- The channels when all other ids have been used once.
def usedChannels : List Channel :=
  [.dropped] ++ List.replicate 65534 .new

theorem usedChannels_length : usedChannels.length = 65535 := by
  rw [usedChannels, List.length_append, List.length_replicate, List.length_singleton]

def atReuse : State where
  nextAssoc := 0
  flows := .empty
  channels := usedChannels
  reasm := .empty
  loop := .sending 1 0 []

def afterReuse : State where
  nextAssoc := 2
  flows := PartialMap.empty.insert 1 65535
  channels := usedChannels ++ [.new]
  reasm := .empty
  loop := .failed 1 0

theorem register_of_free {s : State} {id next : UInt16}
    (h : freeId s.flows 65536 s.nextAssoc = (some id, next)) : s.register = { s with
      nextAssoc := next
      flows := s.flows.insert id s.channels.length
      channels := s.channels ++ [.new]
    } := by
  simp only [register, h]

theorem run_to_beforeReuse :
    run step .start [.register, .datagram 0 0 packetForOne, .lookup, .drop 0, .dissociate 1] =
      some beforeReuse := by
  have hr : start.register = _ :=
    register_of_free (freeId_of_free (by decide) (by decide) rfl)
  have he : ((PartialMap.empty : PartialMap UInt16 Nat).insert 1 0).erase 1 = .empty := by
    funext id
    simp only [PartialMap.erase, PartialMap.insert]
    split <;> rfl
  simp only [run, step, hr]
  simp [start, datagram, receive_packetForOne, lookup, drop, setChannel, dissociate, he, beforeReuse,
    Channel.new]

-- The id 0 is passed over.
theorem freeId_zero {flows : PartialMap UInt16 Nat} (h : flows.get 1 = none) :
    freeId flows 65536 0 = (some 1, 2) := by
  rw [freeId, if_neg (by simp)]
  exact freeId_of_free (by decide) (by decide) h

theorem run_reusedId : run step .start reusedId = some afterReuse := by
  have hc : run step beforeReuse (cycles 65534 2) = some atReuse :=
    run_cycles rfl (by decide) (by decide)
  have hr : atReuse.register = { afterReuse with loop := .sending 1 0 [] } := by
    rw [@register_of_free atReuse 1 2 (freeId_zero rfl)]
    simp only [atReuse, afterReuse, usedChannels_length]
  have hs : State.send { afterReuse with loop := .sending 1 0 [] } = some afterReuse := rfl
  rw [reusedId, run_append, run_append, run_to_beforeReuse, Option.bind_some, hc, Option.bind_some]
  simp only [run, step, hr, hs]

theorem live_registration_removed :
    run step .start reusedId = some afterReuse ∧ .close ∉ reusedId ∧
      ∃ s, step afterReuse .remove = some s ∧ afterReuse.Live 1 65535 ∧ s.flows.get 1 = none := by
  have hnew : afterReuse.channels[65535]? = some .new := by
    rw [afterReuse, ← usedChannels_length]
    exact List.getElem?_concat_length
  refine ⟨run_reusedId, ?_, _, rfl, ⟨rfl, .new, hnew, rfl⟩, rfl⟩
  simp [reusedId, close_not_mem_cycles]

end JammVpn.TuicUdp
