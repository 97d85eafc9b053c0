import Mathlib.Data.Set.Basic

-- Ladders of rules: the first rung that an element stands on decides about it.
namespace Ladder

variable {α β : Type}

structure Rung (α β : Type) where
  scope   : Set α
  verdict : β

inductive Decides : List (Rung α β) → α → β → Prop
  | here {r : Rung α β} {rs : List (Rung α β)} {a : α} : a ∈ r.scope → Decides (r :: rs) a r.verdict
  | next {r : Rung α β} {rs : List (Rung α β)} {a : α} {b : β} :
    a ∉ r.scope → Decides rs a b → Decides (r :: rs) a b

def Undecided (rs : List (Rung α β)) (a : α) : Prop :=
  ∀ r ∈ rs, a ∉ r.scope

variable {r : Rung α β} {rs rs' : List (Rung α β)} {a : α} {b b' : β}

theorem decides_cons :
    Decides (r :: rs) a b ↔ a ∈ r.scope ∧ r.verdict = b ∨ a ∉ r.scope ∧ Decides rs a b := by
  constructor
  case mp =>
    intro h
    cases h
    case here ha    => exact .inl ⟨ha, rfl⟩
    case next ha h => exact .inr ⟨ha, h⟩
  case mpr =>
    rintro (⟨ha, rfl⟩ | ⟨ha, h⟩)
    · exact .here ha
    · exact .next ha h

theorem undecided_cons : Undecided (r :: rs) a ↔ a ∉ r.scope ∧ Undecided rs a :=
  List.forall_mem_cons

theorem Decides.not_undecided (h : Decides rs a b) : ¬Undecided rs a := by
  induction h
  case here ha       => exact fun hu => (undecided_cons.mp hu).1 ha
  case next ha h hi => exact fun hu => hi (undecided_cons.mp hu).2

theorem Decides.unique (h : Decides rs a b) (h' : Decides rs a b') : b = b' := by
  induction h
  case here ha =>
    rcases decides_cons.mp h' with ⟨_, hb⟩ | ⟨hn, _⟩
    · exact hb
    · exact absurd ha hn
  case next hn h hi =>
    rcases decides_cons.mp h' with ⟨ha, _⟩ | ⟨_, h'⟩
    · exact absurd ha hn
    · exact hi h'

theorem exists_decides (h : ¬Undecided rs a) : ∃ b, Decides rs a b := by
  induction rs
  case nil => exact absurd (fun _ hr => absurd hr List.not_mem_nil) h
  case cons r rs hi =>
    by_cases ha : a ∈ r.scope
    case pos => exact ⟨r.verdict, .here ha⟩
    case neg =>
      have ⟨b, hb⟩ := hi fun hu => h (undecided_cons.mpr ⟨ha, hu⟩)
      exact ⟨b, .next ha hb⟩

-- Only the scopes of the rungs matter.
theorem decides_congr {a' : α} (h : ∀ r ∈ rs, a ∈ r.scope ↔ a' ∈ r.scope) :
    Decides rs a b ↔ Decides rs a' b := by
  induction rs
  case nil => exact iff_of_false (fun h => by cases h) (fun h => by cases h)
  case cons r rs hi =>
    rw [decides_cons, decides_cons, h r List.mem_cons_self, hi fun r hr => h r (List.mem_cons_of_mem _ hr)]

theorem undecided_congr {a' : α} (h : ∀ r ∈ rs, a ∈ r.scope ↔ a' ∈ r.scope) :
    Undecided rs a ↔ Undecided rs a' :=
  forall₂_congr fun r hr => not_congr (h r hr)

-- A lower ladder is for what the upper one leaves.
theorem decides_append :
    Decides (rs ++ rs') a b ↔ Decides rs a b ∨ Undecided rs a ∧ Decides rs' a b := by
  induction rs
  case nil =>
    constructor
    case mp  => exact fun h => .inr ⟨fun _ hr => absurd hr List.not_mem_nil, h⟩
    case mpr =>
      rintro (h | ⟨_, h⟩)
      · cases h
      · exact h
  case cons r rs hi =>
    rw [List.cons_append, decides_cons, decides_cons, undecided_cons, hi]
    by_cases ha : a ∈ r.scope
    case pos => simp [ha]
    case neg => simp [ha]

-- Where all rungs agree, so does the ladder.
theorem decides_of_uniform (hv : ∀ r ∈ rs, r.verdict = b) (h : ¬Undecided rs a) : Decides rs a b := by
  have ⟨b', hb⟩ := exists_decides h
  have hb' : b' = b := by
    clear h
    induction hb
    case here ha       => exact hv _ List.mem_cons_self
    case next ha h hi => exact hi fun r hr => hv r (List.mem_cons_of_mem _ hr)
  exact hb' ▸ hb

end Ladder
