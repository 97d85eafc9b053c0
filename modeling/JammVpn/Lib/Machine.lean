import Mathlib.Logic.Basic

-- Machines that take a step for every event, if they can, and what holds along their runs.
namespace Machine

variable {σ ε : Type}

section

variable (step : σ → ε → Option σ)

def run (s : σ) : List ε → Option σ
  | []      => some s
  | e :: es =>
    match step s e with
    | some s' => run s' es
    | none    => none

-- Every step that is taken meets a condition on the state before it.
def Each (C : σ → ε → Prop) (s : σ) : List ε → Prop
  | []      => True
  | e :: es => ∀ s', step s e = some s' → C s e ∧ Each C s' es

-- Every state of the run has a property, from the first one on.
def Always (P : σ → Prop) (s : σ) : List ε → Prop
  | []      => P s
  | e :: es => P s ∧ ∀ s', step s e = some s' → Always P s' es

-- The condition is enough for a step to keep the property.
def Keeps (C : σ → ε → Prop) (P : σ → Prop) : Prop :=
  ∀ ⦃s e s'⦄, P s → C s e → step s e = some s' → P s'

end

variable {step : σ → ε → Option σ} {C : σ → ε → Prop} {P Q : σ → Prop} {s s' : σ} {es : List ε}

theorem run_cons {e : ε} (h : run step s (e :: es) = some s') :
    ∃ s₁, step s e = some s₁ ∧ run step s₁ es = some s' := by
  simp only [run] at h
  split at h
  case h_1 s₁ hs => exact ⟨s₁, hs, h⟩
  case h_2       => cases h

theorem run_append {fs : List ε} : run step s (es ++ fs) = (run step s es).bind (run step · fs) := by
  induction es generalizing s
  case nil => rfl
  case cons e es hi =>
    simp only [List.cons_append, run]
    cases step s e
    case none   => rfl
    case some s => exact hi

-- A machine that can take a step from every state that has a property, and keeps it.
theorem exists_run_of_keeps (h : ∀ s e, P s → ∃ s', step s e = some s' ∧ P s') (hp : P s) (es : List ε) :
    ∃ s', run step s es = some s' ∧ P s' := by
  induction es generalizing s
  case nil => exact ⟨s, rfl, hp⟩
  case cons e es hi =>
    obtain ⟨s₁, hs, hp₁⟩ := h s e hp
    rw [run, hs]
    exact hi hp₁

-- A machine that can always take a step.
theorem exists_run (h : ∀ s e, ∃ s', step s e = some s') (s : σ) (es : List ε) : ∃ s', run step s es = some s' := by
  have htrivial : ∀ s e, True → ∃ s', step s e = some s' ∧ True := fun s e _ => by simpa using h s e
  obtain ⟨s', hs, _⟩ := exists_run_of_keeps (s := s) htrivial trivial es
  exact ⟨s', hs⟩

theorem each_of_forall (h : ∀ e ∈ es, ∀ s, C s e) : Each step C s es := by
  induction es generalizing s
  case nil => trivial
  case cons e es hi =>
    have ⟨he, hes⟩ := List.forall_mem_cons.mp h
    exact fun s' _ => ⟨he s, hi hes⟩

theorem each_congr {D : σ → ε → Prop} (h : ∀ s e, C s e ↔ D s e) : Each step C s es ↔ Each step D s es := by
  induction es generalizing s
  case nil          => rfl
  case cons e es hi => exact forall₂_congr fun s' _ => and_congr (h s e) hi

theorem Each.left {fs : List ε} (h : Each step C s (es ++ fs)) : Each step C s es := by
  induction es generalizing s
  case nil => trivial
  case cons e es hi =>
    intro s' hs
    have ⟨hc, hes⟩ := h s' hs
    exact ⟨hc, hi hes⟩

theorem Each.right {fs : List ε} (h : Each step C s (es ++ fs)) (hr : run step s es = some s') :
    Each step C s' fs := by
  induction es generalizing s
  case nil => exact Option.some.inj hr ▸ h
  case cons e es hi =>
    have ⟨s₁, hs, hr⟩ := run_cons hr
    exact hi (h s₁ hs).2 hr

theorem Each.always (h : Each step C s es) (hk : Keeps step C P) (hp : P s) :
    Always step P s es := by
  induction es generalizing s
  case nil => exact hp
  case cons e es hi =>
    refine ⟨hp, fun s' hs => ?_⟩
    have ⟨hc, hes⟩ := h s' hs
    exact hi hes (hk hp hc hs)

theorem Always.mono (h : Always step P s es) (hi : ∀ s, P s → Q s) : Always step Q s es := by
  induction es generalizing s
  case nil => exact hi s h
  case cons e es ih => exact ⟨hi s h.1, fun s' hs => ih (h.2 s' hs)⟩

theorem Always.of_run (h : Always step P s es) (hr : run step s es = some s') : P s' := by
  induction es generalizing s
  case nil => exact Option.some.inj hr ▸ h
  case cons e es hi =>
    have ⟨s₁, hs, hr⟩ := run_cons hr
    exact hi (h.2 s₁ hs) hr

theorem Each.invariant (h : Each step C s es) (hk : Keeps step C P) (hp : P s)
    (hr : run step s es = some s') : P s' := by
  induction es generalizing s
  case nil => exact Option.some.inj hr ▸ hp
  case cons e es hi =>
    have ⟨s₁, hs, hr⟩ := run_cons hr
    have ⟨hc, hes⟩ := h s₁ hs
    exact hi hes (hk hp hc hs) hr

theorem Each.imp {D : σ → ε → Prop} (h : Each step C s es) (hk : Keeps step C P) (hp : P s)
    (hd : ∀ s e, P s → C s e → D s e) : Each step D s es := by
  induction es generalizing s
  case nil => trivial
  case cons e es hi =>
    intro s' hs
    have ⟨hc, hes⟩ := h s' hs
    exact ⟨hd s e hp hc, hi hes (hk hp hc hs)⟩

-- A condition without which a step always breaks the property is the exact one.
theorem always_iff_each (hk : Keeps step C P) (hq : ∀ s, P s → Q s)
    (hb : ∀ s e s', P s → ¬C s e → step s e = some s' → ¬Q s') (hp : P s) :
    Always step Q s es ↔ Each step C s es := by
  induction es generalizing s
  case nil => exact iff_of_true (hq s hp) trivial
  case cons e es hi =>
    constructor
    case mp =>
      intro h s' hs
      have ha := h.2 s' hs
      have hc : C s e := by
        refine Classical.byContradiction fun hc => hb s e s' hp hc hs ?_
        cases es
        case nil  => exact ha
        case cons => exact ha.1
      exact ⟨hc, (hi (hk hp hc hs)).mp ha⟩
    case mpr =>
      intro h
      refine ⟨hq s hp, fun s' hs => ?_⟩
      have ⟨hc, hes⟩ := h s' hs
      exact (hi (hk hp hc hs)).mpr hes

end Machine

-- Machines that turn every input into an output and keep a state.
namespace Transducer

variable {σ τ α β : Type}

def run (f : σ → α → β × σ) (s : σ) : List α → List β × σ
  | []      => ([], s)
  | a :: as => ((f s a).1 :: (run f (f s a).2 as).1, (run f (f s a).2 as).2)

variable {f : σ → α → β × σ} {s : σ} {as bs : List α}

theorem run_append :
    run f s (as ++ bs) = ((run f s as).1 ++ (run f (run f s as).2 bs).1, (run f (run f s as).2 bs).2) := by
  induction as generalizing s
  case nil          => rfl
  case cons a as hi => simp only [List.cons_append, run, hi]

@[simp]
theorem length_run : (run f s as).1.length = as.length := by
  induction as generalizing s
  case nil          => rfl
  case cons a as hi => simp only [run, List.length_cons, hi]

-- A machine that undoes each step of another, from states that correspond.
theorem run_inverse {g : τ → β → α × τ} {R : σ → τ → Prop} {t : τ}
    (h : ∀ s t a, R s t → (g t (f s a).1).1 = a ∧ R (f s a).2 (g t (f s a).1).2) (hr : R s t) :
    (run g t (run f s as).1).1 = as ∧ R (run f s as).2 (run g t (run f s as).1).2 := by
  induction as generalizing s t
  case nil => exact ⟨rfl, hr⟩
  case cons a as hi =>
    have ⟨ha, hr⟩ := h s t a hr
    have ⟨has, hr⟩ := hi hr
    exact ⟨congrArg₂ _ ha has, hr⟩

end Transducer
