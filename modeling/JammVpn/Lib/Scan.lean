import Mathlib.Logic.Basic

-- Readers that take bytes from a buffer, and that read nothing more once something was missing.
structure Scan where
  rest : List UInt8
  ok   : Bool

def Scanner (α : Type) :=
  Scan → α × Scan

namespace Scanner

variable {α β : Type}

instance : Monad Scanner where
  pure a s   := (a, s)
  bind m f s := f (m s).1 (m s).2

def take (n : Nat) : Scanner (Option (List UInt8)) :=
  fun s =>
    if s.ok ∧ n ≤ s.rest.length then (some (s.rest.take n), { s with rest := s.rest.drop n })
    else (none, { s with ok := false })

def fail : Scanner Unit :=
  fun s => ((), { s with ok := false })

def isOk : Scanner Bool :=
  fun s => (s.ok, s)

-- Stops after the first element that cannot be read.
def replicate (m : Scanner α) : Nat → Scanner (List α)
  | 0     => return []
  | n + 1 => do
    let a ← m
    if ← isOk then return a :: (← replicate m n)
    else return [a]

-- The reader makes this of these bytes, whatever follows them.
def Reads (m : Scanner α) (bs : List UInt8) (a : α) : Prop :=
  ∀ rest, m ⟨bs ++ rest, true⟩ = (a, ⟨rest, true⟩)

-- These bytes are not what the reader is for, whatever follows them.
def Fails (m : Scanner α) (bs : List UInt8) : Prop :=
  ∀ rest, (m ⟨bs ++ rest, true⟩).2.ok = false

-- A reader does not recover from what was missing.
def Sticky (m : Scanner α) : Prop :=
  ∀ s, s.ok = false → (m s).2.ok = false

-- The reader takes from the front of the bytes, and what follows changes nothing in what it made of them.
def Inside (m : Scanner α) : Prop :=
  ∀ s, ∃ used, s.rest = used ++ (m s).2.rest ∧ ((m s).2.ok = true → s.ok = true ∧ Reads m used (m s).1)

section

variable {m : Scanner α} {f : α → Scanner β} {bs bs' : List UInt8} {a : α} {b : β}

theorem bind_apply (s : Scan) : (m >>= f) s = f (m s).1 (m s).2 :=
  rfl

theorem reads_pure (a : α) : Reads (pure a) [] a :=
  fun _ => rfl

theorem Reads.bind (hm : Reads m bs a) (hf : Reads (f a) bs' b) : Reads (m >>= f) (bs ++ bs') b := by
  intro rest
  show f (m ⟨bs ++ bs' ++ rest, true⟩).1 (m ⟨bs ++ bs' ++ rest, true⟩).2 = _
  rw [List.append_assoc, hm]
  exact hf rest

theorem Reads.last (hm : Reads m bs a) (hf : f a = pure b) : Reads (m >>= f) bs b := by
  have hr := hm.bind (f := f) (hf ▸ reads_pure b)
  rwa [List.append_nil] at hr

theorem Reads.map {g : α → β} (hm : Reads m bs a) : Reads (m >>= fun a => pure (g a)) bs (g a) :=
  hm.last rfl

theorem reads_isOk : Reads isOk [] true :=
  fun _ => rfl

theorem reads_take {n : Nat} (h : bs.length = n) : Reads (take n) bs (some bs) := by
  intro rest
  simp [take, ← h]

theorem reads_replicate {γ : Type} {l : List γ} {enc : γ → List UInt8} {g : γ → α}
    (h : ∀ c ∈ l, Reads m (enc c) (g c)) : Reads (replicate m l.length) (l.flatMap enc) (l.map g) := by
  induction l
  case nil => exact reads_pure []
  case cons c l hi =>
    have ⟨hc, hl⟩ := List.forall_mem_cons.mp h
    have hrest : Reads (replicate m l.length >>= fun as => pure (g c :: as)) (l.flatMap enc)
        (g c :: l.map g) := (hi hl).map
    exact hc.bind (reads_isOk.bind hrest)

theorem Fails.bind (hm : Fails m bs) (hf : ∀ a, Sticky (f a)) : Fails (m >>= f) bs :=
  fun rest => hf _ _ (hm rest)

theorem fails_bind (h : ∀ a s, (f a s).2.ok = false) (bs : List UInt8) : Fails (m >>= f) bs :=
  fun _ => h _ _

theorem Reads.bind_fails (hm : Reads m bs a) (hf : Fails (f a) bs') : Fails (m >>= f) (bs ++ bs') := by
  intro rest
  show (f (m ⟨bs ++ bs' ++ rest, true⟩).1 (m ⟨bs ++ bs' ++ rest, true⟩).2).2.ok = _
  rw [List.append_assoc, hm]
  exact hf rest

theorem inside_pure (a : α) : Inside (pure a) :=
  fun _ => ⟨[], rfl, fun h => ⟨h, reads_pure a⟩⟩

theorem inside_fail : Inside fail :=
  fun _ => ⟨[], rfl, fun h => absurd h Bool.false_ne_true⟩

theorem Inside.bind (hm : Inside m) (hf : ∀ a, Inside (f a)) : Inside (m >>= f) := by
  intro s
  obtain ⟨used, hu, hr⟩ := hm s
  obtain ⟨used', hu', hr'⟩ := hf (m s).1 (m s).2
  refine ⟨used ++ used', ?_, fun h => ?_⟩
  · rw [hu, hu', List.append_assoc]
    rfl
  · exact ⟨(hr (hr' h).1).1, (hr (hr' h).1).2.bind (hr' h).2⟩

theorem Inside.sticky (h : Inside m) : Sticky m := by
  intro s hs
  obtain ⟨_, _, hr⟩ := h s
  cases hm : (m s).2.ok
  case false => rfl
  case true  => exact hs ▸ (hr hm).1.symm

theorem inside_take (n : Nat) : Inside (take n) := by
  intro s
  by_cases h : s.ok = true ∧ n ≤ s.rest.length
  case pos =>
    have ht : take n s = (some (s.rest.take n), { s with rest := s.rest.drop n }) := if_pos h
    rw [ht]
    exact ⟨_, (List.take_append_drop n s.rest).symm, fun _ => ⟨h.1, reads_take (List.length_take_of_le h.2)⟩⟩
  case neg =>
    have ht : take n s = (none, { s with ok := false }) := if_neg h
    rw [ht]
    exact ⟨[], rfl, fun h => absurd h Bool.false_ne_true⟩

theorem inside_isOk : Inside isOk := by
  rintro ⟨rest, ok⟩
  refine ⟨[], rfl, fun h => ⟨h, ?_⟩⟩
  cases (h : ok = true)
  exact reads_isOk

-- After an element, the rest of the list.
theorem inside_more {n : Nat} (h : Inside (replicate m n)) (a : α) :
    Inside (do if ← isOk then return a :: (← replicate m n) else return [a]) := by
  refine inside_isOk.bind fun ok => ?_
  cases ok
  case false => exact inside_pure [a]
  case true  => exact h.bind fun as => inside_pure (a :: as)

theorem inside_replicate (hm : Inside m) (n : Nat) : Inside (replicate m n) := by
  induction n
  case zero      => exact inside_pure []
  case succ n hi => exact hm.bind (inside_more hi)

-- A part of what it needs is not enough for such a reader.
theorem Inside.fails_of_front (h : Inside m) (hr : Reads m bs a) {front : List UInt8} (hp : front <+: bs)
    (hn : front ≠ bs) : (m ⟨front, true⟩).2.ok = false := by
  obtain ⟨used, hf, hu⟩ := h ⟨front, true⟩
  obtain ⟨more, rfl⟩ := hp
  cases hok : (m ⟨front, true⟩).2.ok
  case false => rfl
  case true =>
    have hm := (hu hok).2 ((m ⟨front, true⟩).2.rest ++ more)
    have hall := hr []
    rw [List.append_nil] at hall
    rw [← List.append_assoc, ← hf, hall] at hm
    have hnil := List.append_eq_nil_iff.mp (congrArg (fun p => p.2.rest) hm).symm
    exact absurd (by rw [hnil.2, List.append_nil]) hn

end
end Scanner
