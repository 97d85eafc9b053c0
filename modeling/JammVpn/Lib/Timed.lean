import Mathlib.Data.List.Basic

-- Computations that take time. They change a state, have effects on the outside world, and can be
-- stopped at a deadline.
namespace Timed

-- What a computation has done and when, and the time at which it ended, if it ever did.
structure Outcome (σ ε α : Type) where
  trace : List (Nat × ε)
  done  : Option (α × σ × Nat)

-- A computation begins with a state at some time.
def Proc (σ ε α : Type) : Type :=
  σ → Nat → Outcome σ ε α

variable {σ ε α β : Type}

-- At a deadline, everything that would still have happened does not. What is left of the state is not
-- looked at any more.
def Outcome.cut (r : Outcome σ ε α) (deadline : Nat) (s : σ) : Outcome σ ε (Option α) where
  trace := r.trace.filter (·.1 ≤ deadline)
  done :=
    match r.done with
    | some (a, s', t) => if t ≤ deadline then some (some a, s', t) else some (none, s, deadline)
    | none            => some (none, s, deadline)

namespace Proc

protected def pure (a : α) : Proc σ ε α :=
  fun s now => { trace := [], done := some (a, s, now) }

protected def bind (p : Proc σ ε α) (f : α → Proc σ ε β) : Proc σ ε β := fun s now =>
  match (p s now).done with
  | none            => { trace := (p s now).trace, done := none }
  | some (a, s', t) => { trace := (p s now).trace ++ (f a s' t).trace, done := (f a s' t).done }

instance : Monad (Proc σ ε) where
  pure := Proc.pure
  bind := Proc.bind

def emit (e : ε) : Proc σ ε Unit :=
  fun s now => { trace := [(now, e)], done := some ((), s, now) }

def sleep (duration : Nat) : Proc σ ε Unit :=
  fun s now => { trace := [], done := some ((), s, now + duration) }

def timeout (limit : Nat) (p : Proc σ ε α) : Proc σ ε (Option α) :=
  fun s now => (p s now).cut (now + limit) s

section Sequence

variable {p : Proc σ ε α} {f : α → Proc σ ε β} {s s' : σ} {now t limit : Nat} {a : α}

theorem bind_of_done (h : (p s now).done = some (a, s', t)) :
    (p >>= f) s now = {
      trace := (p s now).trace ++ (f a s' t).trace
      done := (f a s' t).done
    } := by
  simp [bind, Proc.bind, h]

theorem bind_of_silent (h : p s now = { trace := [], done := some (a, s', t) }) :
    (p >>= f) s now = f a s' t := by
  simp [bind, Proc.bind, h]

theorem bind_of_never (h : (p s now).done = none) :
    (p >>= f) s now = { trace := (p s now).trace, done := none } := by
  simp [bind, Proc.bind, h]

theorem done_timeout (h : (p s now).done = some (a, s', t)) (ht : t ≤ now + limit) :
    (timeout limit p s now).done = some (some a, s', t) := by
  simp [timeout, Outcome.cut, h, ht]

theorem done_timeout_of_late (h : ∀ a s' t, (p s now).done = some (a, s', t) → now + limit < t) :
    (timeout limit p s now).done = some (none, s, now + limit) := by
  simp only [timeout, Outcome.cut]
  cases hd : (p s now).done
  case none => rfl
  case some r =>
    obtain ⟨a, s', t⟩ := r
    simp [Nat.not_le.mpr (h a s' t hd)]

-- A timeout ends everything.
theorem exists_done_timeout (limit : Nat) (p : Proc σ ε α) (s : σ) (now : Nat) :
    ∃ r, (timeout limit p s now).done = some r := by
  simp only [timeout, Outcome.cut]
  split
  case h_1 => split <;> exact ⟨_, rfl⟩
  case h_2 => exact ⟨_, rfl⟩

theorem pure_apply (a : α) : (pure a : Proc σ ε α) s now = { trace := [], done := some (a, s, now) } :=
  rfl

end Sequence

-- A computation whose effects all satisfy `P`, and have happened when it ends.
structure Emits (P : ε → Prop) (p : Proc σ ε α) : Prop where
  effect : ∀ s now x, x ∈ (p s now).trace → P x.2
  before : ∀ s now x, x ∈ (p s now).trace → ∀ a s' t, (p s now).done = some (a, s', t) → x.1 ≤ t
  later  : ∀ s now a s' t, (p s now).done = some (a, s', t) → now ≤ t

section Emits

variable {P : ε → Prop} {p : Proc σ ε α} {f : α → Proc σ ε β}

theorem Emits.pure (a : α) : Emits P (pure a : Proc σ ε α) where
  effect := by simp [pure_apply]
  before := by simp [pure_apply]
  later := by simp +contextual [pure_apply]

theorem Emits.emit {e : ε} (h : P e) : Emits P (emit e : Proc σ ε Unit) where
  effect := by simp [Proc.emit, h]
  before := by simp +contextual [Proc.emit]
  later := by simp +contextual [Proc.emit]

theorem Emits.sleep (duration : Nat) : Emits P (sleep duration : Proc σ ε Unit) where
  effect := by simp [Proc.sleep]
  before := by simp [Proc.sleep]
  later s now a s' t h := by
    simp only [Proc.sleep, Option.some.injEq, Prod.mk.injEq] at h
    omega

theorem Emits.bind (hp : Emits P p) (hf : ∀ a, Emits P (f a)) : Emits P (p >>= f) where
  effect s now x hx := by
    cases hd : (p s now).done
    case none =>
      rw [bind_of_never hd] at hx
      exact hp.effect s now x hx
    case some r =>
      rw [bind_of_done hd] at hx
      exact (List.mem_append.mp hx).elim (hp.effect s now x) ((hf _).effect _ _ x)
  before s now x hx b s'' t' ht := by
    cases hd : (p s now).done
    case none =>
      rw [bind_of_never hd] at ht
      contradiction
    case some r =>
      obtain ⟨a, s', t⟩ := r
      rw [bind_of_done hd] at hx ht
      rcases List.mem_append.mp hx with hx | hx
      · exact Nat.le_trans (hp.before s now x hx a s' t hd) ((hf a).later s' t b s'' t' ht)
      · exact (hf a).before s' t x hx b s'' t' ht
  later s now b s'' t' ht := by
    cases hd : (p s now).done
    case none =>
      rw [bind_of_never hd] at ht
      contradiction
    case some r =>
      obtain ⟨a, s', t⟩ := r
      rw [bind_of_done hd] at ht
      exact Nat.le_trans (hp.later s now a s' t hd) ((hf a).later s' t b s'' t' ht)

theorem Emits.timeout (hp : Emits P p) (limit : Nat) : Emits P (timeout limit p) where
  effect s now x hx := hp.effect s now x (List.mem_of_mem_filter hx)
  before s now x hx a s' t ht := by
    have ⟨hx, hl⟩ := List.mem_filter.mp hx
    simp only [Proc.timeout, Outcome.cut] at ht
    split at ht
    case h_1 a' s'' t' hd =>
      split at ht <;> cases ht
      case isTrue  => exact hp.before s now x hx a' s' t hd
      case isFalse => simpa using hl
    case h_2 =>
      cases ht
      simpa using hl
  later s now a s' t ht := by
    simp only [Proc.timeout, Outcome.cut] at ht
    split at ht
    case h_1 a' s'' t' hd =>
      split at ht <;> cases ht
      case isTrue  => exact hp.later s now a' s' t hd
      case isFalse => exact Nat.le_add_right now limit
    case h_2 =>
      cases ht
      exact Nat.le_add_right now limit

-- Nothing is cut off what has ended in time.
theorem Emits.trace_timeout (hp : Emits P p) {limit now t : Nat} {s s' : σ} {a : α}
    (h : (p s now).done = some (a, s', t)) (ht : t ≤ now + limit) :
    (Proc.timeout limit p s now).trace = (p s now).trace := by
  apply List.filter_eq_self.mpr
  intro x hx
  simpa using Nat.le_trans (hp.before s now x hx a s' t h) ht

end Emits
end Proc
end Timed
