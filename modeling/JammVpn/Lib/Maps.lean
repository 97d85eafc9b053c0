import Mathlib.Data.List.Lex
import Mathlib.Data.String.Basic
import Mathlib.Data.List.Nodup
import Mathlib.Data.List.Pairwise
import Mathlib.Order.Basic

-- Partial functions with finite updates, used for hash maps: nothing depends on their iteration
-- order.
def PartialMap (α β : Type) :=
  α → Option β

namespace PartialMap

variable {α β : Type}

def empty : PartialMap α β :=
  fun _ => none

def get (m : PartialMap α β) (a : α) : Option β :=
  m a

@[simp]
theorem get_empty (a : α) : (empty : PartialMap α β).get a = none :=
  rfl

section

variable [DecidableEq α]

def insert (m : PartialMap α β) (a : α) (b : β) : PartialMap α β :=
  fun x => if x = a then some b else m x

def erase (m : PartialMap α β) (a : α) : PartialMap α β :=
  fun x => if x = a then none else m x

theorem get_insert (m : PartialMap α β) (a x : α) (b : β) :
    (m.insert a b).get x = if x = a then some b else m.get x :=
  rfl

@[simp]
theorem get_insert_self (m : PartialMap α β) (a : α) (b : β) : (m.insert a b).get a = some b := by
  simp [get_insert]

theorem get_insert_of_ne (m : PartialMap α β) {a x : α} (b : β) (h : x ≠ a) :
    (m.insert a b).get x = m.get x := by
  simp [get_insert, h]

theorem get_insert_ne_none {m : PartialMap α β} {x : α} (h : m.get x ≠ none) (a : α) (b : β) :
    (m.insert a b).get x ≠ none := by
  rw [get_insert]
  split
  case isTrue  => exact Option.some_ne_none b
  case isFalse => exact h

theorem get_erase (m : PartialMap α β) (a x : α) :
    (m.erase a).get x = if x = a then none else m.get x :=
  rfl

theorem get_erase_eq_some {m : PartialMap α β} {a x : α} {b : β} :
    (m.erase a).get x = some b ↔ m.get x = some b ∧ x ≠ a := by
  rw [get_erase]
  split
  case isTrue h  => simp [h]
  case isFalse h => simp [h]

end

-- Two partial maps that undo each other: a partial bijection.
def Inverse (f : PartialMap α β) (g : PartialMap β α) : Prop :=
  ∀ a b, f.get a = some b ↔ g.get b = some a

namespace Inverse

variable {f : PartialMap α β} {g : PartialMap β α}

theorem empty : Inverse (empty : PartialMap α β) PartialMap.empty := by
  simp [Inverse]

theorem injective (h : Inverse f g) {a a' : α} {b : β} (ha : f.get a = some b)
    (ha' : f.get a' = some b) : a = a' :=
  Option.some.inj <| (h a b).mp ha ▸ (h a' b).mp ha'

variable [DecidableEq α] [DecidableEq β]

-- Binding a new `a` to a free `b`.
theorem insert_free (h : Inverse f g) {a : α} {b : β} (ha : f.get a = none) (hb : g.get b = none) :
    Inverse (f.insert a b) (g.insert b a) := by
  intro x y
  simp only [get_insert]
  by_cases hx : x = a
  case pos =>
    have := (h a y).mpr.mt (by simp [ha])
    by_cases hy : y = b
    case pos => simp [hx, hy]
    case neg => simp [hx, hy, this, Ne.symm hy]
  case neg =>
    have := (h x b).mp.mt (by simp [hb])
    by_cases hy : y = b
    case pos => simp [hx, hy, this, Ne.symm hx]
    case neg => simp [hx, hy, h x y]

-- Binding a new `a` to a taken `b`, whose old owner loses its binding.
theorem insert_evict (h : Inverse f g) {a old : α} {b : β} (ha : f.get a = none)
    (hb : g.get b = some old) : Inverse ((f.erase old).insert a b) (g.insert b a) := by
  intro x y
  have ho : f.get old = some b := (h old b).mpr hb
  simp only [get_insert, get_erase]
  by_cases hx : x = a
  case pos =>
    have := (h a y).mpr.mt (by simp [ha])
    by_cases hy : y = b
    case pos => simp [hx, hy]
    case neg => simp [hx, hy, this, Ne.symm hy]
  case neg =>
    by_cases hy : y = b
    case pos =>
      have : (if x = old then none else f.get x) ≠ some b := by
        split
        case isTrue     => simp
        case isFalse he => exact fun hf => he (h.injective hf ho)
      simp [hx, hy, this, Ne.symm hx]
    case neg =>
      by_cases he : x = old
      case pos =>
        have := (h old y).mpr.mt (by simp [ho, Ne.symm hy])
        simp [he, hy, this, he ▸ hx]
      case neg => simp [hx, hy, he, h x y]

end Inverse
end PartialMap

-- Maps with a linear order on their keys, as sorted lists of entries: maps with the same bindings
-- are equal, and the entries come in the order of their keys.
@[ext]
structure OrdMap (α β : Type) [LinearOrder α] where
  entries : List (α × β)
  sorted  : entries.Pairwise (·.1 < ·.1)
  deriving DecidableEq

namespace OrdMap

variable {α β : Type} [LinearOrder α]

def empty : OrdMap α β where
  entries := []
  sorted := .nil

def lookup (a : α) : List (α × β) → Option β
  | []     => none
  | e :: l => if a = e.1 then some e.2 else lookup a l

def get (m : OrdMap α β) (a : α) : Option β :=
  lookup a m.entries

def insertEntry (a : α) (b : β) : List (α × β) → List (α × β)
  | []     => [(a, b)]
  | e :: l =>
    if a < e.1 then (a, b) :: e :: l
    else if a = e.1 then (a, b) :: l
    else e :: insertEntry a b l

theorem mem_insertEntry {a : α} {b : β} {l : List (α × β)} {e : α × β}
    (h : e ∈ insertEntry a b l) : e.1 = a ∨ e ∈ l := by
  induction l
  case nil => simp_all [insertEntry]
  case cons hd tl hi =>
    simp only [insertEntry] at h
    split at h
    case isTrue =>
      cases h
      case head   => exact .inl rfl
      case tail h => exact .inr h
    case isFalse =>
      split at h <;> cases h
      case isTrue.head => exact .inl rfl
      case isTrue.tail h => exact .inr (.tail _ h)
      case isFalse.head => exact .inr (.head _)
      case isFalse.tail h => exact (hi h).imp id (.tail _)

theorem insertEntry_sorted {a : α} {b : β} {l : List (α × β)} (h : l.Pairwise (·.1 < ·.1)) :
    (insertEntry a b l).Pairwise (·.1 < ·.1) := by
  induction l
  case nil => simp [insertEntry]
  case cons hd tl hi =>
    have ⟨hh, ht⟩ := List.pairwise_cons.mp h
    simp only [insertEntry]
    split
    case isTrue hl =>
      refine List.pairwise_cons.mpr ⟨fun e he => ?_, h⟩
      cases he
      case head => exact hl
      case tail he => exact hl.trans (hh e he)
    case isFalse hl =>
      split
      case isTrue he => exact List.pairwise_cons.mpr ⟨fun e h' => he ▸ hh e h', ht⟩
      case isFalse he =>
        refine List.pairwise_cons.mpr ⟨fun e h' => ?_, hi ht⟩
        cases mem_insertEntry h'
        case inl h' => exact h' ▸ lt_of_le_of_ne (not_lt.mp hl) (Ne.symm he)
        case inr h' => exact hh e h'

def insert (m : OrdMap α β) (a : α) (b : β) : OrdMap α β where
  entries := insertEntry a b m.entries
  sorted := insertEntry_sorted m.sorted

def ofList (l : List (α × β)) : OrdMap α β :=
  l.foldl (fun m e => m.insert e.1 e.2) empty

@[simp]
theorem get_empty (a : α) : (empty : OrdMap α β).get a = none :=
  rfl

theorem lookup_insertEntry (a x : α) (b : β) (l : List (α × β)) :
    lookup x (insertEntry a b l) = if x = a then some b else lookup x l := by
  induction l
  case nil => rfl
  case cons hd tl hi =>
    simp only [insertEntry]
    split
    · rfl
    split
    case isTrue he =>
      simp only [lookup, ← he]
      split <;> rfl
    case isFalse he =>
      simp only [lookup, hi]
      split
      case isTrue hx => simp [hx, Ne.symm he]
      case isFalse   => rfl

theorem get_insert (m : OrdMap α β) (a x : α) (b : β) :
    (m.insert a b).get x = if x = a then some b else m.get x :=
  lookup_insertEntry a x b m.entries

theorem lookup_eq_none {a : α} {l : List (α × β)} (h : ∀ e ∈ l, a < e.1) : lookup a l = none := by
  induction l
  case nil => rfl
  case cons hd tl hi =>
    simp [lookup, (h hd (by simp)).ne, hi fun e he => h e (by simp [he])]

theorem entries_eq_of_lookup {l l' : List (α × β)} (hs : l.Pairwise (·.1 < ·.1))
    (hs' : l'.Pairwise (·.1 < ·.1)) (h : ∀ a, lookup a l = lookup a l') : l = l' := by
  induction l generalizing l' <;> cases l'
  case nil.nil => rfl
  case nil.cons e tl => simpa [lookup] using h e.1
  case cons.nil e tl hi => simpa [lookup] using h e.1
  case cons.cons e tl hi e' tl' =>
    have ⟨hh, ht⟩ := List.pairwise_cons.mp hs
    have ⟨hh', ht'⟩ := List.pairwise_cons.mp hs'
    have hk : e.1 = e'.1 := by
      apply le_antisymm <;> apply le_of_not_gt <;> intro hl
      · have hn : lookup e'.1 (e :: tl) = none := lookup_eq_none fun x hx => by
          cases hx
          case head    => exact hl
          case tail hx => exact hl.trans (hh x hx)
        simpa [lookup] using hn.symm.trans (h e'.1)
      · have hn : lookup e.1 (e' :: tl') = none := lookup_eq_none fun x hx => by
          cases hx
          case head    => exact hl
          case tail hx => exact hl.trans (hh' x hx)
        simpa [lookup] using (h e.1).trans hn
    have hv : e.2 = e'.2 := by simpa [lookup, hk] using h e.1
    refine congrArg₂ _ (Prod.ext hk hv) (hi ht ht' fun a => ?_)
    by_cases ha : a = e.1
    case pos =>
      rw [ha, lookup_eq_none hh, lookup_eq_none (hk ▸ hh')]
    case neg => simpa [lookup, ha, hk ▸ ha] using h a

theorem lookup_append (a : α) (l l' : List (α × β)) :
    lookup a (l ++ l') = (lookup a l).or (lookup a l') := by
  induction l
  case nil => rfl
  case cons e l hi =>
    rw [List.cons_append, lookup, lookup, hi]
    split <;> rfl

theorem get_foldl_insert (m : OrdMap α β) (l : List (α × β)) (a : α) :
    (l.foldl (fun m e => m.insert e.1 e.2) m).get a = (lookup a l.reverse).or (m.get a) := by
  induction l generalizing m
  case nil => rfl
  case cons e l hi =>
    rw [List.foldl_cons, hi, get_insert, List.reverse_cons, lookup_append, Option.or_assoc, lookup]
    split <;> rfl

-- Of several bindings of a key the last one counts.
theorem get_ofList (l : List (α × β)) (a : α) : (ofList l).get a = lookup a l.reverse := by
  rw [ofList, get_foldl_insert, get_empty, Option.or_none]

theorem lookup_eq_some_iff {a : α} {b : β} {l : List (α × β)} (h : (l.map Prod.fst).Nodup) :
    lookup a l = some b ↔ (a, b) ∈ l := by
  induction l
  case nil => simp [lookup]
  case cons e l hi =>
    obtain ⟨he, hl⟩ := List.nodup_cons.mp h
    rw [lookup, List.mem_cons]
    by_cases ha : a = e.1
    case pos =>
      have hn : (a, b) ∉ l := fun hm => he (ha ▸ List.mem_map_of_mem hm)
      rw [if_pos ha, Option.some.injEq, Prod.ext_iff, or_iff_left hn]
      exact ⟨fun hb => ⟨ha, hb.symm⟩, fun hb => hb.2.symm⟩
    case neg =>
      have hn : (a, b) ≠ e := fun he => ha (congrArg Prod.fst he)
      rw [if_neg ha, hi hl, or_iff_right hn]

-- Without repetitions all bindings count.
theorem get_ofList_eq_some_iff {l : List (α × β)} (h : (l.map Prod.fst).Nodup) {a : α} {b : β} :
    (ofList l).get a = some b ↔ (a, b) ∈ l := by
  rw [get_ofList, lookup_eq_some_iff, List.mem_reverse]
  rwa [List.map_reverse, List.nodup_reverse]

-- A map is given by its bindings.
theorem ext_get {m m' : OrdMap α β} (h : ∀ a, m.get a = m'.get a) : m = m' :=
  OrdMap.ext (entries_eq_of_lookup m.sorted m'.sorted h)

end OrdMap

-- Hash maps whose entries are counted and gone through. Their order is of no meaning.
structure AssocMap (α β : Type) where
  entries : List (α × β)
  nodup   : (entries.map (·.1)).Nodup

namespace AssocMap

variable {α β : Type}

def empty : AssocMap α β where
  entries := []
  nodup := .nil

def size (m : AssocMap α β) : Nat :=
  m.entries.length

-- `HashMap::retain`.
def filter (m : AssocMap α β) (p : α × β → Bool) : AssocMap α β where
  entries := m.entries.filter p
  nodup := m.nodup.sublist (List.filter_sublist.map _)

variable [DecidableEq α]

def get (m : AssocMap α β) (a : α) : Option β :=
  (m.entries.find? (·.1 = a)).map (·.2)

def erase (m : AssocMap α β) (a : α) : AssocMap α β :=
  m.filter (·.1 ≠ a)

def insert (m : AssocMap α β) (a : α) (b : β) : AssocMap α β where
  entries := (a, b) :: (m.erase a).entries
  nodup := by
    refine List.nodup_cons.mpr ⟨fun h => ?_, (m.erase a).nodup⟩
    have ⟨e, he, ha⟩ := List.mem_map.mp h
    have := (List.mem_filter.mp he).2
    simp [ha] at this

variable (m : AssocMap α β) {a x : α} {b : β}

theorem get_eq_some_iff : m.get a = some b ↔ (a, b) ∈ m.entries := by
  constructor
  case mp =>
    intro h
    have ⟨e, he, hb⟩ := Option.map_eq_some_iff.mp h
    have ha : e.1 = a := by simpa using List.find?_some he
    have hm := List.mem_of_find?_eq_some he
    rwa [← ha, ← hb]
  case mpr =>
    intro h
    cases hf : m.entries.find? (·.1 = a)
    case none =>
      have := List.find?_eq_none.mp hf (a, b) h
      simp at this
    case some e =>
      have he : e.1 = a := by simpa using List.find?_some hf
      have hm := List.mem_of_find?_eq_some hf
      have := List.inj_on_of_nodup_map m.nodup hm h he
      simp [get, hf, this]

@[simp]
theorem get_empty : (empty : AssocMap α β).get a = none :=
  rfl

theorem get_filter (p : α × β → Bool) : (m.filter p).get a = (m.get a).filter fun b => p (a, b) := by
  apply Option.ext
  intro b
  simp [get_eq_some_iff, Option.filter_eq_some_iff, filter, List.mem_filter]

theorem get_erase : (m.erase a).get x = if x = a then none else m.get x := by
  rw [erase, get_filter]
  by_cases h : x = a
  case pos => simp [h]
  case neg => cases m.get x <;> simp [h]

theorem get_insert : (m.insert a b).get x = if x = a then some b else m.get x := by
  by_cases h : x = a
  case pos => simp [get, insert, h]
  case neg =>
    have he : (m.insert a b).get x = (m.erase a).get x := by simp [get, insert, Ne.symm h]
    rw [he, get_erase, if_neg h, if_neg h]

theorem get_insert_self : (m.insert a b).get a = some b := by
  rw [get_insert, if_pos rfl]

omit [DecidableEq α] in
theorem size_filter_le (p : α × β → Bool) : (m.filter p).size ≤ m.size :=
  List.length_filter_le _ _

theorem erase_insert : (m.insert a b).erase a = m.erase a := by
  have he : ((m.insert a b).erase a).entries = (m.erase a).entries := by
    simp [insert, erase, filter]
  generalize hi : (m.insert a b).erase a = m₁ at he
  cases m₁
  cases he
  rfl

theorem size_erase_insert_le : ((m.insert a b).erase a).size ≤ m.size := by
  rw [erase_insert]
  exact m.size_filter_le _

theorem size_insert_le : (m.insert a b).size ≤ m.size + 1 :=
  Nat.succ_le_succ (m.size_filter_le _)

theorem size_erase_lt (h : m.get a ≠ none) : (m.erase a).size < m.size := by
  obtain ⟨b, hb⟩ := Option.ne_none_iff_exists'.mp h
  apply List.length_filter_lt_length_iff_exists.mpr
  exact ⟨(a, b), (m.get_eq_some_iff).mp hb, by simp⟩

theorem size_insert_le_of_mem (h : m.get a ≠ none) : (m.insert a b).size ≤ m.size :=
  m.size_erase_lt h

variable {γ : Type} (f : β → γ)

omit [DecidableEq α] in
def mapValues (m : AssocMap α β) : AssocMap α γ where
  entries := m.entries.map fun e => (e.1, f e.2)
  nodup := by
    rw [List.map_map]
    exact m.nodup

omit [DecidableEq α] in
theorem size_mapValues : (m.mapValues f).size = m.size :=
  List.length_map _

omit [DecidableEq α] in
theorem filter_mapValues (p : α × γ → Bool) :
    (m.mapValues f).filter p = (m.filter fun e => p (e.1, f e.2)).mapValues f := by
  simp only [filter, mapValues, List.filter_map, Function.comp_def]

theorem erase_mapValues : (m.mapValues f).erase a = (m.erase a).mapValues f :=
  m.filter_mapValues f _

theorem insert_mapValues : (m.mapValues f).insert a (f b) = (m.insert a b).mapValues f := by
  have h : ((m.mapValues f).erase a).entries = ((m.erase a).mapValues f).entries :=
    congrArg entries (m.erase_mapValues f)
  simp only [insert, h]
  rfl

theorem get_mapValues : (m.mapValues f).get a = (m.get a).map f := by
  rw [get, get, mapValues, List.find?_map, Option.map_map, Option.map_map]
  rfl

end AssocMap
