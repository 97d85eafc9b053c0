import Mathlib.Logic.Basic

-- Readers that take what they need from the front of the input, and stop where something is wrong.
def Cursor (τ ε α : Type) :=
  List τ → Except ε α × List τ

namespace Cursor

variable {τ ε α β : Type}

instance : Monad (Cursor τ ε) where
  pure a s   := (.ok a, s)
  bind m f s :=
    match m s with
    | (.ok a, rest)    => f a rest
    | (.error e, rest) => (.error e, rest)

def throw (e : ε) : Cursor τ ε α :=
  fun s => (.error e, s)

def take (e : ε) (n : Nat) : Cursor τ ε (List τ) :=
  fun s => if n ≤ s.length then (.ok (s.take n), s.drop n) else (.error e, s)

def replicate (m : Cursor τ ε α) : Nat → Cursor τ ε (List α)
  | 0     => return []
  | n + 1 => return (← m) :: (← replicate m n)

-- The reader makes this of this input, whatever follows it.
def Reads (m : Cursor τ ε α) (ts : List τ) (a : α) : Prop :=
  ∀ rest, m (ts ++ rest) = (.ok a, rest)

-- The reader takes from the front of the input. Unless it complains that there is nothing more, it does
-- not look at what follows.
def Inside (m : Cursor τ ε α) (e : ε) : Prop :=
  ∀ s, ∃ used, s = used ++ (m s).2 ∧ ((m s).1 = .error e ∨ ∀ rest, m (used ++ rest) = ((m s).1, rest))

-- A success does not depend on what follows the part that the reader has taken.
def Settles (m : Cursor τ ε α) : Prop :=
  ∀ s a rest, m s = (.ok a, rest) → ∃ used, s = used ++ rest ∧ Reads m used a

section

variable {m : Cursor τ ε α} {f : α → Cursor τ ε β} {ts ts' s rest : List τ} {a : α} {b : β} {e : ε}

theorem bind_eq (h : m s = (.ok a, rest)) : (m >>= f) s = f a rest := by
  show (match m s with
    | (.ok a, rest)    => f a rest
    | (.error e, rest) => (.error e, rest)) = _
  rw [h]

theorem bind_eq_error (h : m s = (.error e, rest)) : (m >>= f) s = (.error e, rest) := by
  show (match m s with
    | (.ok a, rest)    => f a rest
    | (.error e, rest) => (.error e, rest)) = _
  rw [h]

theorem reads_pure (a : α) : Reads (pure a : Cursor τ ε α) [] a :=
  fun _ => rfl

theorem Reads.bind (hm : Reads m ts a) (hf : Reads (f a) ts' b) : Reads (m >>= f) (ts ++ ts') b := by
  intro rest
  rw [List.append_assoc, bind_eq (hm _)]
  exact hf rest

theorem Reads.last (hm : Reads m ts a) (hf : f a = pure b) : Reads (m >>= f) ts b := by
  have hr := hm.bind (f := f) (hf ▸ reads_pure b)
  rwa [List.append_nil] at hr

theorem Reads.all (h : Reads m ts a) : m ts = (.ok a, []) := by
  rw [← h [], List.append_nil]

theorem reads_take {n : Nat} (h : ts.length = n) (e : ε) : Reads (take e n) ts ts := by
  intro rest
  simp [take, ← h]

theorem reads_replicate {γ : Type} {l : List γ} {enc : γ → List τ} {g : γ → α}
    (h : ∀ c ∈ l, Reads m (enc c) (g c)) : Reads (replicate m l.length) (l.flatMap enc) (l.map g) := by
  induction l
  case nil => exact reads_pure []
  case cons c l hi =>
    obtain ⟨hc, hl⟩ := List.forall_mem_cons.mp h
    exact hc.bind ((hi hl).last rfl)

theorem inside_pure (a : α) : Inside (pure a : Cursor τ ε α) e :=
  fun _ => ⟨[], rfl, .inr fun _ => rfl⟩

theorem inside_throw (e' : ε) : Inside (throw e' : Cursor τ ε α) e :=
  fun _ => ⟨[], rfl, .inr fun _ => rfl⟩

theorem Inside.bind (hm : Inside m e) (hf : ∀ a, Inside (f a) e) : Inside (m >>= f) e := by
  intro s
  obtain ⟨used, hs, hu⟩ := hm s
  cases hms : (m s).1
  case error e' =>
    rw [bind_eq_error (Prod.ext hms rfl)]
    refine ⟨used, hs, hu.imp (fun hu => ?_) fun hu rest => ?_⟩
    · cases hms.symm.trans hu
      rfl
    · exact bind_eq_error (hms ▸ hu rest)
  case ok a =>
    obtain ⟨used', hs', hu'⟩ := hf a (m s).2
    rw [bind_eq (Prod.ext hms rfl)]
    refine ⟨used ++ used', by rw [List.append_assoc, ← hs', ← hs], hu'.imp_right fun hu' rest => ?_⟩
    have hr : m (used ++ (used' ++ rest)) = (.ok a, used' ++ rest) := by
      rcases hu with hu | hu
      · rw [hms] at hu
        cases hu
      · rw [hu, hms]
    rw [List.append_assoc, bind_eq hr, hu']

theorem inside_take (e : ε) (n : Nat) : Inside (take e n : Cursor τ ε (List τ)) e := by
  intro s
  by_cases h : n ≤ s.length
  case pos =>
    have ht : take e n s = (.ok (s.take n), s.drop n) := if_pos h
    rw [ht]
    exact ⟨s.take n, (List.take_append_drop n s).symm, .inr (reads_take (List.length_take_of_le h) e)⟩
  case neg =>
    have ht : take e n s = (.error e, s) := if_neg h
    rw [ht]
    exact ⟨[], rfl, .inl rfl⟩

theorem inside_replicate (hm : Inside m e) (n : Nat) : Inside (replicate m n) e := by
  induction n
  case zero      => exact inside_pure []
  case succ n hi => exact hm.bind fun a => hi.bind fun as => inside_pure (a :: as)

-- A part of what it needs is not enough for such a reader.
theorem Inside.error_of_front (h : Inside m e) (hr : Reads m ts a) {front : List τ} (hp : front <+: ts)
    (hn : front ≠ ts) : (m front).1 = .error e := by
  obtain ⟨used, hf, hu⟩ := h front
  obtain ⟨more, rfl⟩ := hp
  rcases hu with hu | hu
  case inl => exact hu
  case inr =>
    have hm := hu ((m front).2 ++ more)
    rw [← List.append_assoc, ← hf, hr.all] at hm
    have hnil := List.append_eq_nil_iff.mp (congrArg Prod.snd hm).symm
    exact absurd (by rw [hnil.2, List.append_nil]) hn

theorem settles_pure (a : α) : Settles (pure a : Cursor τ ε α) := by
  intro s a' rest h
  cases h
  exact ⟨[], rfl, reads_pure a⟩

theorem Settles.bind (hm : Settles m) (hf : ∀ a, Settles (f a)) : Settles (m >>= f) := by
  intro s b rest h
  cases hms : (m s).1
  case error e =>
    rw [bind_eq_error (Prod.ext hms rfl)] at h
    cases h
  case ok a =>
    rw [bind_eq (Prod.ext hms rfl)] at h
    obtain ⟨used, hs, hu⟩ := hm s a _ (Prod.ext hms rfl)
    obtain ⟨used', hs', hu'⟩ := hf a _ b rest h
    exact ⟨used ++ used', by rw [List.append_assoc, ← hs', ← hs], hu.bind hu'⟩

theorem settles_replicate (hm : Settles m) (n : Nat) : Settles (replicate m n) := by
  induction n
  case zero      => exact settles_pure []
  case succ n hi => exact hm.bind fun a => hi.bind fun as => settles_pure (a :: as)

-- Nor is a part of what it takes enough for this one.
theorem Settles.error_of_front (h : Settles m) (hr : Reads m ts a) {front : List τ} (hp : front <+: ts)
    (hn : front ≠ ts) : ∃ e, (m front).1 = .error e := by
  cases hm : (m front).1
  case error e => exact ⟨e, rfl⟩
  case ok a' =>
    obtain ⟨more, rfl⟩ := hp
    obtain ⟨used, hf, hu⟩ := h front a' _ (Prod.ext hm rfl)
    have hall := hu ((m front).2 ++ more)
    rw [← List.append_assoc, ← hf, hr.all] at hall
    have hnil := List.append_eq_nil_iff.mp (congrArg Prod.snd hall).symm
    exact absurd (by rw [hnil.2, List.append_nil]) hn

end
end Cursor
