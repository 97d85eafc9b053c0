-- Values in numbered slots. A new value takes the first slot that is free.
structure Slots (α : Type) where
  slots : List (Option α) := []

namespace Slots

variable {α : Type}

def get (s : Slots α) (i : Nat) : Option α :=
  s.slots[i]?.join

def free (s : Slots α) : Nat :=
  s.slots.findIdx Option.isNone

def add (s : Slots α) (a : α) : Slots α where
  slots := if s.free < s.slots.length then s.slots.set s.free (some a) else s.slots ++ [some a]

def remove (s : Slots α) (i : Nat) : Slots α where
  slots := s.slots.set i none

def update (s : Slots α) (i : Nat) (f : α → α) : Slots α where
  slots := s.slots.modify i (Option.map f)

def mapAll (s : Slots α) (f : α → α) : Slots α where
  slots := s.slots.map (Option.map f)

def mapIdx (s : Slots α) (f : Nat → α → α) : Slots α where
  slots := s.slots.mapIdx fun i => Option.map (f i)

def values (s : Slots α) : List α :=
  s.slots.filterMap id

-- The first slot with a value of a kind.
def first (s : Slots α) (p : α → Bool) : Option Nat :=
  s.slots.findIdx? (Option.any p)

section

variable {s : Slots α} {i : Nat} {a : α}

theorem get_eq_some : s.get i = some a ↔ s.slots[i]? = some (some a) := by
  simp [get, Option.join_eq_some_iff]

theorem get_free (s : Slots α) : s.get s.free = none := by
  cases h : s.slots[s.free]?
  case none => simp [get, h]
  case some o =>
    have ⟨hl, ho⟩ := List.getElem?_eq_some_iff.mp h
    have hn : s.slots[s.free].isNone = true := List.findIdx_getElem (w := hl)
    rw [ho, Option.isNone_iff_eq_none] at hn
    simp [get, h, hn]

theorem get_add (s : Slots α) (a : α) (i : Nat) :
    (s.add a).get i = if i = s.free then some a else s.get i := by
  simp only [add, get]
  split
  case isTrue hl =>
    by_cases hi : i = s.free
    case pos => simp [hi, hl]
    case neg => simp [hi, List.getElem?_set_ne (Ne.symm hi)]
  case isFalse hl =>
    have he : s.free = s.slots.length :=
      Nat.le_antisymm List.findIdx_le_length (Nat.le_of_not_lt hl)
    by_cases hi : i = s.free
    case pos => simp [hi, he]
    case neg =>
      rw [if_neg hi, List.getElem?_append]
      split
      case isTrue  => rfl
      case isFalse hle =>
        have hgt : s.slots.length < i := Nat.lt_of_le_of_ne (Nat.le_of_not_lt hle) (he ▸ Ne.symm hi)
        rw [List.getElem?_eq_none (Nat.le_of_not_lt hle), List.getElem?_eq_none]
        exact Nat.sub_pos_of_lt hgt

theorem get_remove (s : Slots α) (i j : Nat) :
    (s.remove i).get j = if j = i then none else s.get j := by
  simp only [remove, get]
  by_cases hj : j = i
  case pos =>
    rw [if_pos hj, hj, List.getElem?_set_self']
    cases s.slots[i]? <;> rfl
  case neg => rw [if_neg hj, List.getElem?_set_ne (Ne.symm hj)]

theorem get_update (s : Slots α) (i : Nat) (f : α → α) (j : Nat) :
    (s.update i f).get j = if j = i then (s.get j).map f else s.get j := by
  simp only [update, get, List.getElem?_modify]
  by_cases hj : j = i
  case pos => cases h : s.slots[j]? <;> simp [hj]
  case neg => cases h : s.slots[j]? <;> simp [hj, Ne.symm hj]

theorem get_mapAll (s : Slots α) (f : α → α) (i : Nat) : (s.mapAll f).get i = (s.get i).map f := by
  simp only [mapAll, get, List.getElem?_map]
  cases s.slots[i]? <;> rfl

theorem get_mapIdx (s : Slots α) (f : Nat → α → α) (i : Nat) : (s.mapIdx f).get i = (s.get i).map (f i) := by
  simp only [mapIdx, get, List.getElem?_mapIdx]
  cases s.slots[i]? <;> rfl

-- What is left after some are removed was there before.
theorem get_of_foldl_remove {l : List Nat} (h : (l.foldl remove s).get i = some a) : s.get i = some a := by
  induction l generalizing s
  case nil => exact h
  case cons j l hi =>
    have := hi h
    rw [get_remove] at this
    split at this
    case isTrue  => cases this
    case isFalse => exact this

theorem get_of_mem_values (h : a ∈ s.values) : ∃ i, s.get i = some a := by
  simp only [values, List.mem_filterMap, id_eq, exists_eq_right] at h
  have ⟨i, hi⟩ := List.mem_iff_getElem?.mp h
  exact ⟨i, get_eq_some.mpr hi⟩

theorem get_of_first {p : α → Bool} (h : s.first p = some i) :
    (∃ a, s.get i = some a ∧ p a = true) ∧ ∀ j < i, ∀ a, s.get j = some a → p a = false := by
  have ⟨hl, hp, hn⟩ := List.findIdx?_eq_some_iff_getElem.mp h
  have ⟨a, ha, hp⟩ := (Option.any_eq_true _ _).mp hp
  refine ⟨⟨a, get_eq_some.mpr (List.getElem?_eq_some_iff.mpr ⟨hl, ha⟩), hp⟩, fun j hj b hb => ?_⟩
  have ⟨_, hb⟩ := List.getElem?_eq_some_iff.mp (get_eq_some.mp hb)
  have := hn j hj
  rw [hb] at this
  simpa using this

end
end Slots
