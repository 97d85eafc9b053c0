import JammVpn.Core.Cidr
import JammVpn.Lib.Maps

namespace JammVpn

open Ip

-- Synthetic addresses for domains. The cursor is the offset of the next address; offset 0 is the
-- address of the network and is never given out. Every method holds the lock on the fields behind
-- `count`, so that one call is one step.
structure FakeIp where
  base    : BitVec 32
  count   : Nat
  cursor  : Nat
  domToIp : PartialMap String (BitVec 32)
  ipToDom : PartialMap (BitVec 32) String

namespace FakeIp

def new (cidr : String) : Except String FakeIp :=
  match IpCidr.parse cidr with
  | .error e => .error e.display
  | .ok c    =>
    match c.base with
    | .v6 _      => .error "fakeip: нужен IPv4-диапазон"
    | .v4 baseIp =>
      if c.prefixLen = 0 then .error "fakeip: слишком широкий диапазон"
      else
        let count := if 32 ≤ c.prefixLen then 1 else 2 ^ (32 - c.prefixLen)
        if count < 3 then .error "fakeip: диапазон слишком мал (нужно ≥2 пригодных адресов)"
        else .ok {
          base := baseIp &&& BitVec.allOnes 32 <<< (32 - c.prefixLen)
          count
          cursor := 1
          domToIp := .empty
          ipToDom := .empty
        }

def nextIp (f : FakeIp) : BitVec 32 :=
  f.base + BitVec.ofNat 32 f.cursor

def nextCursor (f : FakeIp) : Nat :=
  if f.count ≤ f.cursor + 1 then 1 else f.cursor + 1

-- Gives the next address to a domain that has none, and takes it from the domain that had it.
def bind (f : FakeIp) (domain : String) : FakeIp where
  base := f.base
  count := f.count
  cursor := f.nextCursor
  domToIp :=
    match f.ipToDom.get f.nextIp with
    | some old => (if old ≠ domain then f.domToIp.erase old else f.domToIp).insert domain f.nextIp
    | none     => f.domToIp.insert domain f.nextIp
  ipToDom := f.ipToDom.insert f.nextIp domain

def allocate (f : FakeIp) (domain : String) : BitVec 32 × FakeIp :=
  match f.domToIp.get domain with
  | some ip => (ip, f)
  | none    => (f.nextIp, f.bind domain)

def domainOf (f : FakeIp) : IpAddr → Option String
  | .v4 v => f.ipToDom.get v
  | .v6 _ => none

def rangeContains (f : FakeIp) : IpAddr → Bool
  | .v4 v => (v - f.base).toNat < f.count
  | .v6 _ => false

-- The state after a sequence of allocations.
def run (f : FakeIp) (domains : List String) : FakeIp :=
  domains.foldl (fun f d => (f.allocate d).2) f

-- How many allocations of the sequence meet a domain without a binding.
def freshCount (f : FakeIp) : List String → Nat
  | []      => 0
  | d :: ds => (if f.domToIp.get d = none then 1 else 0) + (f.allocate d).2.freshCount ds

structure Wf (f : FakeIp) : Prop where
  three_le   : 3 ≤ f.count
  fits       : f.base.toNat + f.count ≤ 2 ^ 32
  cursor_pos : 1 ≤ f.cursor
  cursor_lt  : f.cursor < f.count
  inverse    : PartialMap.Inverse f.domToIp f.ipToDom
  bound      : ∀ d ip, f.domToIp.get d = some ip →
    ∃ off, 1 ≤ off ∧ off < f.count ∧ ip = f.base + BitVec.ofNat 32 off

inductive Reachable : FakeIp → Prop
  | new {cidr : String} {f : FakeIp} : FakeIp.new cidr = .ok f → Reachable f
  | allocate {f : FakeIp} (d : String) : Reachable f → Reachable (f.allocate d).2

theorem allocate_cases (f : FakeIp) (d : String) :
    (∃ ip, f.domToIp.get d = some ip ∧ f.allocate d = (ip, f)) ∨
    (f.domToIp.get d = none ∧ f.allocate d = (f.nextIp, f.bind d)) := by
  cases h : f.domToIp.get d
  case none    => exact .inr ⟨rfl, by simp [allocate, h]⟩
  case some ip => exact .inl ⟨ip, rfl, by simp [allocate, h]⟩

@[simp]
theorem allocate_base (f : FakeIp) (d : String) : (f.allocate d).2.base = f.base := by
  obtain ⟨_, -, h⟩ | ⟨-, h⟩ := f.allocate_cases d <;> simp [h, bind]

@[simp]
theorem allocate_count (f : FakeIp) (d : String) : (f.allocate d).2.count = f.count := by
  obtain ⟨_, -, h⟩ | ⟨-, h⟩ := f.allocate_cases d <;> simp [h, bind]

theorem wf_of_new {cidr : String} {f : FakeIp} (h : new cidr = .ok f) : f.Wf := by
  unfold new at h
  split at h
  case h_1 => contradiction
  case h_2 c _ =>
    split at h
    case h_1 => contradiction
    case h_2 baseIp _ =>
      split at h
      case isTrue => contradiction
      case isFalse hp =>
        by_cases h32 : 32 ≤ c.prefixLen <;> simp only [h32, if_true, if_false] at h
        case pos => contradiction
        case neg =>
          split at h
          case isTrue => contradiction
          case isFalse hc =>
            have := toNat_and_shiftLeft_allOnes_add_le baseIp (show 32 - c.prefixLen ≤ 32 by omega)
            cases h
            exact {
              three_le := Nat.le_of_not_lt hc
              fits := this
              cursor_pos := le_rfl
              cursor_lt := by simp only; omega
              inverse := .empty
              bound := by simp
            }

namespace Wf

variable {f : FakeIp}

theorem nextCursor_pos (f : FakeIp) : 1 ≤ f.nextCursor := by
  unfold nextCursor
  split <;> omega

theorem nextCursor_lt (h : f.Wf) : f.nextCursor < f.count := by
  have := h.three_le
  unfold nextCursor
  split <;> omega

theorem toNat_add (h : f.Wf) {off : Nat} (ho : off < f.count) :
    (f.base + BitVec.ofNat 32 off).toNat = f.base.toNat + off := by
  have := h.fits
  rw [BitVec.toNat_add, BitVec.toNat_ofNat, Nat.mod_eq_of_lt (a := off) (by omega),
    Nat.mod_eq_of_lt (by omega)]

theorem add_inj (h : f.Wf) {off off' : Nat} (ho : off < f.count) (ho' : off' < f.count)
    (he : f.base + BitVec.ofNat 32 off = f.base + BitVec.ofNat 32 off') : off = off' := by
  have := congrArg BitVec.toNat he
  rw [h.toNat_add ho, h.toNat_add ho'] at this
  omega

theorem rangeContains (h : f.Wf) {off : Nat} (ho : off < f.count) :
    f.rangeContains (.v4 (f.base + BitVec.ofNat 32 off)) = true := by
  have := h.fits
  simp only [FakeIp.rangeContains, decide_eq_true_eq]
  rwa [BitVec.add_comm, BitVec.add_sub_cancel, BitVec.toNat_ofNat, Nat.mod_eq_of_lt (by omega)]

-- The owner of the next address is never the domain that asks for it: that domain has no address.
theorem bind_domToIp (h : f.Wf) {d : String} (hd : f.domToIp.get d = none) :
    (f.bind d).domToIp =
      match f.ipToDom.get f.nextIp with
      | some old => (f.domToIp.erase old).insert d f.nextIp
      | none     => f.domToIp.insert d f.nextIp := by
  simp only [FakeIp.bind]
  split
  case h_1 old ho =>
    have : old ≠ d := by
      intro he
      have := (h.inverse old _).mpr ho
      simp [he, hd] at this
    simp [this]
  case h_2 => rfl

theorem bind_inverse (h : f.Wf) {d : String} (hd : f.domToIp.get d = none) :
    PartialMap.Inverse (f.bind d).domToIp (f.bind d).ipToDom := by
  rw [h.bind_domToIp hd]
  split
  case h_1 old ho => exact h.inverse.insert_evict hd ho
  case h_2 hn     => exact h.inverse.insert_free hd hn

theorem bind_bound (h : f.Wf) {d : String} (hd : f.domToIp.get d = none) :
    ∀ d' ip, (f.bind d).domToIp.get d' = some ip →
      ∃ off, 1 ≤ off ∧ off < f.count ∧ ip = f.base + BitVec.ofNat 32 off := by
  intro d' ip hb
  rw [h.bind_domToIp hd] at hb
  have hn : d' = d ∧ f.nextIp = ip ∨ f.domToIp.get d' = some ip := by
    split at hb <;> grind [PartialMap.get_insert, PartialMap.get_erase]
  cases hn
  case inl hn => exact ⟨f.cursor, h.cursor_pos, h.cursor_lt, hn.right.symm⟩
  case inr hn => exact h.bound d' ip hn

theorem bind (h : f.Wf) {d : String} (hd : f.domToIp.get d = none) : (f.bind d).Wf where
  three_le := h.three_le
  fits := h.fits
  cursor_pos := nextCursor_pos f
  cursor_lt := h.nextCursor_lt
  inverse := h.bind_inverse hd
  bound := h.bind_bound hd

theorem allocate (h : f.Wf) (d : String) : (f.allocate d).2.Wf := by
  obtain ⟨_, -, he⟩ | ⟨hd, he⟩ := f.allocate_cases d <;> rw [he]
  · exact h
  · exact h.bind hd

end Wf

theorem Reachable.wf {f : FakeIp} (h : f.Reachable) : f.Wf := by
  induction h
  case new h           => exact wf_of_new h
  case allocate d _ hi => exact hi.allocate d

theorem Reachable.run {f : FakeIp} (h : f.Reachable) (ds : List String) : (f.run ds).Reachable := by
  induction ds generalizing f
  case nil           => exact h
  case cons d ds hi  => exact hi (h.allocate d)

@[simp]
theorem run_base (f : FakeIp) (ds : List String) : (f.run ds).base = f.base := by
  induction ds generalizing f
  case nil          => rfl
  case cons d ds hi => exact (hi _).trans (f.allocate_base d)

@[simp]
theorem run_count (f : FakeIp) (ds : List String) : (f.run ds).count = f.count := by
  induction ds generalizing f
  case nil          => rfl
  case cons d ds hi => exact (hi _).trans (f.allocate_count d)

-- An allocated domain has its address, in both directions.
theorem allocate_bound (f : FakeIp) (d : String) :
    (f.allocate d).2.domToIp.get d = some (f.allocate d).1 := by
  obtain ⟨ip, hd, he⟩ | ⟨_, he⟩ := f.allocate_cases d <;> rw [he]
  · exact hd
  · simp only [bind]
    split <;> simp

theorem Wf.domainOf_allocate {f : FakeIp} (h : f.Wf) (d : String) :
    (f.allocate d).2.domainOf (.v4 (f.allocate d).1) = some d :=
  ((h.allocate d).inverse d _).mp (f.allocate_bound d)

-- Eviction in the order of allocation: the cursor has to pass every other offset before it comes to
-- `off`, and only then can the address of `off` change hands.
section Fifo

variable {f : FakeIp} {d : String} {off n : Nat}

-- The number of new bindings before the one that takes the address of `off`.
def ahead (f : FakeIp) (off : Nat) : Nat :=
  if f.cursor ≤ off then off - f.cursor else off + (f.count - 1) - f.cursor

-- `d` keeps the address of `off` for the next `n` bindings.
structure Holds (f : FakeIp) (d : String) (off n : Nat) : Prop where
  bound : f.domToIp.get d = some (f.base + BitVec.ofNat 32 off)
  pos   : 1 ≤ off
  lt    : off < f.count
  ahead : n ≤ f.ahead off

theorem ahead_bind (h : f.Wf) (ho : 1 ≤ off) (hl : off < f.count) (ha : f.ahead off ≠ 0) (d : String) :
    (f.bind d).ahead off + 1 = f.ahead off := by
  have := h.three_le
  have := h.cursor_pos
  have := h.cursor_lt
  simp only [ahead, bind, nextCursor] at ha ⊢
  split_ifs at ha ⊢ <;> omega

theorem Holds.bind (h : f.Wf) (hh : f.Holds d off (n + 1)) {d' : String}
    (hd : f.domToIp.get d' = none) : (f.bind d').Holds d off n := by
  have ha := hh.ahead
  have hc : off ≠ f.cursor := by
    intro he
    simp [FakeIp.ahead, he] at ha
  have hip : f.base + BitVec.ofNat 32 off ≠ f.nextIp := fun he =>
    hc (h.add_inj hh.lt h.cursor_lt he)
  refine ⟨?_, hh.pos, hh.lt, ?_⟩
  · rw [h.bind_domToIp hd]
    have hb := hh.bound
    have hne : d ≠ d' := fun he => by simp [he, hd] at hb
    split
    case h_1 old ho =>
      have : d ≠ old := by
        intro he
        have := (h.inverse old _).mpr ho
        exact hip <| Option.some.inj <| hb.symm.trans (he ▸ this)
      rw [PartialMap.get_insert_of_ne _ _ hne, PartialMap.get_erase, if_neg this]
      exact hb
    case h_2 =>
      rw [PartialMap.get_insert_of_ne _ _ hne]
      exact hb
  · have := ahead_bind h hh.pos hh.lt (by omega) d'
    omega

theorem Holds.run (h : f.Wf) (hh : f.Holds d off n) {ds : List String} (hn : f.freshCount ds ≤ n) :
    (f.run ds).domToIp.get d = some (f.base + BitVec.ofNat 32 off) := by
  induction ds generalizing f n
  case nil => exact hh.bound
  case cons d' ds hi =>
    have hr n := hi (n := n) (h.allocate d')
    rw [f.allocate_base d'] at hr
    obtain ⟨ip, hd, he⟩ | ⟨hd, he⟩ := f.allocate_cases d' <;> simp only [freshCount, hd] at hn
    case inl => exact hr n (by rwa [he]) (by simpa using hn)
    case inr =>
      obtain ⟨n, rfl⟩ : ∃ m, n = m + 1 := ⟨n - 1, by simp at hn; omega⟩
      exact hr n (by rw [he]; exact hh.bind h hd) (by simp at hn; omega)

theorem holds_of_fresh (h : f.Wf) (hd : f.domToIp.get d = none) :
    (f.allocate d).2.Holds d f.cursor (f.count - 2) := by
  have hb := f.allocate_bound d
  have := h.three_le
  have := h.cursor_pos
  have := h.cursor_lt
  simp only [allocate, hd] at hb ⊢
  refine ⟨hb, h.cursor_pos, h.cursor_lt, ?_⟩
  simp only [ahead, bind, nextCursor]
  split_ifs <;> omega

end Fifo
-- Over every run: the two maps are a partial bijection onto addresses of the range, and bindings are
-- recycled in the order in which they were made.
theorem run_bounded_bijection {cidr : String} {f₀ : FakeIp} (h : new cidr = .ok f₀)
    (ds : List String) :
    let f := f₀.run ds
    PartialMap.Inverse f.domToIp f.ipToDom ∧
    (1 ≤ f.cursor ∧ f.cursor < f₀.count) ∧
    f₀.base.toNat + f.cursor < 2 ^ 32 ∧
    (∀ d ip, f.domToIp.get d = some ip →
      ∃ off, 1 ≤ off ∧ off < f₀.count ∧ f₀.base.toNat + off < 2 ^ 32 ∧
        ip = f₀.base + BitVec.ofNat 32 off ∧ ip.toNat = f₀.base.toNat + off ∧
        f.rangeContains (.v4 ip)) ∧
    (∀ d, (f.allocate d).2.domainOf (.v4 (f.allocate d).1) = some d) ∧
    (∀ d, f.domToIp.get d = none → ∀ ds', (f.allocate d).2.freshCount ds' ≤ f₀.count - 2 →
      ((f.allocate d).2.run ds').domToIp.get d = some (f.allocate d).1) := by
  intro f
  have hw : f.Wf := ((Reachable.new h).run ds).wf
  have hb : f.base = f₀.base := f₀.run_base ds
  have hc : f.count = f₀.count := f₀.run_count ds
  have hf := hw.fits
  have hl := hw.cursor_lt
  rw [← hb, ← hc]
  refine ⟨hw.inverse, ⟨hw.cursor_pos, hl⟩, by omega, ?_, hw.domainOf_allocate, ?_⟩
  · intro d ip hd
    have ⟨off, ho, hlt, he⟩ := hw.bound d ip hd
    exact ⟨off, ho, hlt, by omega, he, he ▸ hw.toNat_add hlt, he ▸ hw.rangeContains hlt⟩
  · intro d hd ds' hn
    have hh := (holds_of_fresh hw hd).run (hw.allocate d) hn
    rw [hh, allocate_base]
    simp [allocate, hd, nextIp]

theorem run_bounded_bijection_slash30 :
    ∃ f₀, new "10.0.0.0/30" = .ok f₀ ∧
      (f₀.run ["a", "b", "c", "d"]).domToIp.get "a" = none ∧
      PartialMap.Inverse (f₀.run ["a", "b", "c", "d"]).domToIp
        (f₀.run ["a", "b", "c", "d"]).ipToDom := by
  have h : new "10.0.0.0/30" = .ok ⟨0x0a000000, 4, 1, .empty, .empty⟩ := rfl
  exact ⟨_, h, rfl, (run_bounded_bijection h ["a", "b", "c", "d"]).1⟩

end FakeIp
end JammVpn
