import JammVpn.Lib.Cursor
import Mathlib.Tactic.Common

-- What can go wrong with a reader, apart from what it reports itself.
inductive Fault (ε : Type)
  | outOfFuel
  | outOfBounds
  | error (e : ε)
  deriving DecidableEq

namespace Cursor

variable {τ ε α β σ : Type}

def fail (e : ε) : Cursor τ (Fault ε) α :=
  throw (.error e)

def eof : Cursor τ ε Bool :=
  fun s => (.ok s.isEmpty, s)

def remaining : Cursor τ ε Nat :=
  fun s => (.ok s.length, s)

def peek : Cursor τ ε (Option τ) :=
  fun s => (.ok s.head?, s)

def bump : Cursor τ ε (Option τ) :=
  fun s => (.ok s.head?, s.tail)

def advance (n : Nat) : Cursor τ ε Unit :=
  fun s => (.ok (), s.drop n)

def takeWhile (p : τ → Bool) : Cursor τ ε (List τ) :=
  fun s => (.ok (s.takeWhile p), s.dropWhile p)

-- The entry at the position of the reader, and the next ones. They have to be there.
def index : Cursor τ (Fault ε) τ
  | []     => (.error .outOfBounds, [])
  | t :: s => (.ok t, t :: s)

def indexAt (i : Nat) : Cursor τ (Fault ε) τ :=
  fun s =>
    match s[i]? with
    | some t => (.ok t, s)
    | none   => (.error .outOfBounds, s)

def slice (n : Nat) : Cursor τ (Fault ε) (List τ) :=
  fun s => if n ≤ s.length then (.ok (s.take n), s) else (.error .outOfBounds, s)

-- The body is run until it breaks with a result.
def loop (body : σ → Cursor τ (Fault ε) (σ ⊕ β)) : Nat → σ → Cursor τ (Fault ε) β
  | 0, _     => throw .outOfFuel
  | n + 1, x => do
    match ← body x with
    | .inl y => loop body n y
    | .inr b => return b

-- There are as many turns as there are entries left.
def iterate (body : σ → Cursor τ (Fault ε) (σ ⊕ β)) (x : σ) : Cursor τ (Fault ε) β :=
  fun s => loop body (s.length + 1) x s

-- The reader only goes forward.
def Forward (m : Cursor τ ε α) : Prop :=
  ∀ s, (m s).2.length ≤ s.length

def Eats (m : Cursor τ ε α) : Prop :=
  ∀ s a rest, m s = (.ok a, rest) → rest.length < s.length

-- With shorter inputs than this, all that can go wrong is what the reader reports.
structure Sound (m : Cursor τ (Fault ε) α) (n : Nat) : Prop where
  forward : Forward m
  safe    : ∀ s, s.length < n → ∀ f, (m s).1 = .error f → ∃ e, f = .error e

-- Every turn after which there is another one uses something up.
def Progresses (body : σ → Cursor τ (Fault ε) (σ ⊕ β)) : Prop :=
  ∀ x s y rest, body x s = (.ok (.inl y), rest) → rest.length < s.length

section Forward

variable {m : Cursor τ ε α} {f : α → Cursor τ ε β}

theorem bind_ok_iff {s rest : List τ} {b : β} :
    (m >>= f) s = (.ok b, rest) ↔ ∃ a mid, m s = (.ok a, mid) ∧ f a mid = (.ok b, rest) := by
  constructor
  case mpr =>
    rintro ⟨a, mid, hm, hf⟩
    rw [bind_eq hm, hf]
  case mp =>
    intro h
    cases hm : (m s).1
    case error e =>
      rw [bind_eq_error (Prod.ext hm rfl)] at h
      cases h
    case ok a =>
      rw [bind_eq (Prod.ext hm rfl)] at h
      exact ⟨a, (m s).2, Prod.ext hm rfl, h⟩

theorem forward_pure (a : α) : Forward (pure a : Cursor τ ε α) :=
  fun _ => Nat.le_refl _

theorem forward_throw (e : ε) : Forward (throw e : Cursor τ ε α) :=
  fun _ => Nat.le_refl _

theorem forward_eof : Forward (eof : Cursor τ ε Bool) :=
  fun _ => Nat.le_refl _

theorem forward_remaining : Forward (remaining : Cursor τ ε Nat) :=
  fun _ => Nat.le_refl _

theorem forward_peek : Forward (peek : Cursor τ ε (Option τ)) :=
  fun _ => Nat.le_refl _

theorem forward_bump : Forward (bump : Cursor τ ε (Option τ)) := by
  intro s
  simp [bump]

theorem forward_advance (n : Nat) : Forward (advance n : Cursor τ ε Unit) := by
  intro s
  simp [advance]

theorem forward_takeWhile (p : τ → Bool) : Forward (takeWhile p : Cursor τ ε (List τ)) :=
  fun _ => (List.dropWhile_suffix p).length_le

theorem forward_slice (n : Nat) : Forward (slice n : Cursor τ (Fault ε) (List τ)) := by
  intro s
  rw [slice]
  split <;> exact Nat.le_refl _

theorem Forward.bind (hm : Forward m) (hf : ∀ a, Forward (f a)) : Forward (m >>= f) := by
  intro s
  cases h : (m s).1
  case error e =>
    rw [bind_eq_error (Prod.ext h rfl)]
    exact hm s
  case ok a =>
    rw [bind_eq (Prod.ext h rfl)]
    exact Nat.le_trans (hf a _) (hm s)

theorem Forward.ite {c : Prop} [Decidable c] {m' : Cursor τ ε α} (hm : Forward m) (hm' : Forward m') :
    Forward (if c then m else m') := by
  split
  · exact hm
  · exact hm'

theorem Forward.le (hm : Forward m) {s rest : List τ} {r : Except ε α} (h : m s = (r, rest)) :
    rest.length ≤ s.length := by
  have hle := hm s
  rwa [h] at hle

theorem Eats.bind (hm : Eats m) (hf : ∀ a, Forward (f a)) : Eats (m >>= f) := by
  intro s b rest h
  obtain ⟨a, mid, ha, hb⟩ := bind_ok_iff.mp h
  exact Nat.lt_of_le_of_lt ((hf a).le hb) (hm s a mid ha)

theorem Forward.eats_bind (hm : Forward m) (hf : ∀ a, Eats (f a)) : Eats (m >>= f) := by
  intro s b rest h
  obtain ⟨a, mid, ha, hb⟩ := bind_ok_iff.mp h
  exact Nat.lt_of_lt_of_le (hf a mid b rest hb) (hm.le ha)

theorem eats_throw (e : ε) : Eats (throw e : Cursor τ ε α) := by
  intro s a rest h
  cases h

theorem Eats.ite {c : Prop} [Decidable c] {m' : Cursor τ ε α} (hm : Eats m) (hm' : Eats m') :
    Eats (if c then m else m') := by
  split
  · exact hm
  · exact hm'

end Forward

section Sound

variable {m : Cursor τ (Fault ε) α} {f : α → Cursor τ (Fault ε) β} {n : Nat}

theorem sound_of_ok (hw : Forward m) (h : ∀ s, ∃ a, (m s).1 = .ok a) : Sound m n where
  forward := hw
  safe s _ f hf := by
    obtain ⟨a, ha⟩ := h s
    cases ha.symm.trans hf

theorem sound_pure (a : α) : Sound (pure a : Cursor τ (Fault ε) α) n :=
  sound_of_ok (forward_pure a) fun _ => ⟨a, rfl⟩

theorem sound_eof : Sound (eof : Cursor τ (Fault ε) Bool) n :=
  sound_of_ok forward_eof fun s => ⟨s.isEmpty, rfl⟩

theorem sound_remaining : Sound (remaining : Cursor τ (Fault ε) Nat) n :=
  sound_of_ok forward_remaining fun s => ⟨s.length, rfl⟩

theorem sound_peek : Sound (peek : Cursor τ (Fault ε) (Option τ)) n :=
  sound_of_ok forward_peek fun s => ⟨s.head?, rfl⟩

theorem sound_bump : Sound (bump : Cursor τ (Fault ε) (Option τ)) n :=
  sound_of_ok forward_bump fun s => ⟨s.head?, rfl⟩

theorem sound_advance (k : Nat) : Sound (advance k : Cursor τ (Fault ε) Unit) n :=
  sound_of_ok (forward_advance k) fun _ => ⟨(), rfl⟩

theorem sound_takeWhile (p : τ → Bool) : Sound (takeWhile p : Cursor τ (Fault ε) (List τ)) n :=
  sound_of_ok (forward_takeWhile p) fun s => ⟨s.takeWhile p, rfl⟩

theorem sound_fail (e : ε) : Sound (fail e : Cursor τ (Fault ε) α) n where
  forward := forward_throw _
  safe s _ f hf := by
    cases hf
    exact ⟨e, rfl⟩

theorem Sound.ite {c : Prop} [Decidable c] {m' : Cursor τ (Fault ε) α} (hm : Sound m n) (hm' : Sound m' n) :
    Sound (if c then m else m') n := by
  split
  · exact hm
  · exact hm'

theorem Sound.bind (hm : Sound m n) (hf : ∀ a, Sound (f a) n) : Sound (m >>= f) n where
  forward := hm.forward.bind fun a => (hf a).forward
  safe s hs g hg := by
    cases h : (m s).1
    case error e =>
      rw [bind_eq_error (Prod.ext h rfl)] at hg
      cases hg
      exact hm.safe s hs _ h
    case ok a =>
      rw [bind_eq (Prod.ext h rfl)] at hg
      exact (hf a).safe _ (Nat.lt_of_le_of_lt (hm.forward s) hs) g hg

theorem sound_replicate (hm : Sound m n) (k : Nat) : Sound (replicate m k) n := by
  induction k
  case zero      => exact sound_pure []
  case succ k hi => exact hm.bind fun a => hi.bind fun as => sound_pure (a :: as)

end Sound

section Loop

variable {body : σ → Cursor τ (Fault ε) (σ ⊕ β)} {x y : σ} {b : β} {s rest : List τ} {n : Nat}

theorem loop_inl (h : body x s = (.ok (.inl y), rest)) (n : Nat) : loop body (n + 1) x s = loop body n y rest :=
  bind_eq h

theorem loop_inr (h : body x s = (.ok (.inr b), rest)) (n : Nat) : loop body (n + 1) x s = (.ok b, rest) :=
  bind_eq h

theorem loop_error {f : Fault ε} (h : body x s = (.error f, rest)) (n : Nat) :
    loop body (n + 1) x s = (.error f, rest) :=
  bind_eq_error h

theorem forward_loop (h : ∀ x, Forward (body x)) (n : Nat) (x : σ) : Forward (loop body n x) := by
  induction n generalizing x
  case zero      => exact forward_throw _
  case succ n hi =>
    refine (h x).bind fun r => ?_
    cases r
    case inl y => exact hi y
    case inr b => exact forward_pure b

theorem eats_loop (h : ∀ x, Eats (body x)) (hw : ∀ x, Forward (body x)) (n : Nat) (x : σ) :
    Eats (loop body n x) := by
  cases n
  case zero   => exact fun s a rest hr => by cases hr
  case succ n =>
    refine (h x).bind fun r => ?_
    cases r
    case inl y => exact forward_loop hw n y
    case inr b => exact forward_pure b

theorem progresses_of_eats (h : ∀ x, Eats (body x)) : Progresses body :=
  fun x s y rest hb => h x s (.inl y) rest hb

-- More turns than there are entries make no difference.
theorem loop_eq_loop (h : Progresses body) {n n' : Nat} (hn : s.length < n) (hn' : s.length < n') :
    loop body n x s = loop body n' x s := by
  induction n generalizing x s n'
  case zero => exact absurd hn (Nat.not_lt_zero _)
  case succ n hi =>
    obtain ⟨n', rfl⟩ := Nat.exists_eq_add_of_lt (Nat.lt_of_le_of_lt (Nat.zero_le _) hn')
    simp only [Nat.zero_add] at hn' ⊢
    cases hb : (body x s).1
    case error f => rw [loop_error (Prod.ext hb rfl), loop_error (Prod.ext hb rfl)]
    case ok r =>
      cases r
      case inr b => rw [loop_inr (Prod.ext hb rfl), loop_inr (Prod.ext hb rfl)]
      case inl y =>
        have hlt := h x s y _ (Prod.ext hb rfl)
        rw [loop_inl (Prod.ext hb rfl), loop_inl (Prod.ext hb rfl)]
        exact hi (by omega) (by omega)

theorem iterate_inl (hp : Progresses body) (h : body x s = (.ok (.inl y), rest)) :
    iterate body x s = iterate body y rest := by
  have hlt := hp x s y rest h
  rw [iterate, loop_inl h, iterate]
  exact loop_eq_loop hp hlt (Nat.lt_succ_self _)

theorem iterate_inr (h : body x s = (.ok (.inr b), rest)) : iterate body x s = (.ok b, rest) :=
  loop_inr h _

theorem forward_iterate (h : ∀ x, Forward (body x)) (x : σ) : Forward (iterate body x) :=
  fun s => forward_loop h _ x s

theorem eats_iterate (h : ∀ x, Eats (body x)) (hw : ∀ x, Forward (body x)) (x : σ) : Eats (iterate body x) :=
  fun s a rest hr => eats_loop h hw _ x s a rest hr

theorem sound_iterate (h : ∀ x, Sound (body x) n) (hp : Progresses body) (x : σ) : Sound (iterate body x) n where
  forward := forward_iterate (fun x => (h x).forward) x
  safe := by
    have hloop : ∀ k x s, s.length < n → s.length < k → ∀ f, (loop body k x s).1 = .error f → ∃ e, f = .error e := by
      intro k
      induction k
      case zero      => exact fun x s _ hk => absurd hk (Nat.not_lt_zero _)
      case succ k hi =>
        intro x s hs hk f hf
        cases hb : (body x s).1
        case error f' =>
          rw [loop_error (Prod.ext hb rfl)] at hf
          cases hf
          exact (h x).safe s hs _ hb
        case ok r =>
          cases r
          case inr b =>
            rw [loop_inr (Prod.ext hb rfl)] at hf
            cases hf
          case inl y =>
            have hlt := hp x s y _ (Prod.ext hb rfl)
            rw [loop_inl (Prod.ext hb rfl)] at hf
            exact hi y _ (by omega) (by omega) f hf
    exact fun s hs => hloop _ x s hs (Nat.lt_succ_self _)

-- Pieces with separators in between, up to something that ends them.
theorem iterate_separated {γ : Type} (step : σ → γ → σ) (done : σ → β) (enc : γ → List τ) {sep close : τ}
    {l : List γ} (hp : Progresses body)
    (hsep : ∀ c ∈ l, ∀ x rest, body x (enc c ++ sep :: rest) = (.ok (.inl (step x c)), rest))
    (hclose : ∀ c ∈ l, ∀ x rest, body x (enc c ++ close :: rest) = (.ok (.inr (done (step x c))), rest))
    (hne : l ≠ []) (x : σ) (rest : List τ) :
    iterate body x ([sep].intercalate (l.map enc) ++ close :: rest) = (.ok (done (l.foldl step x)), rest) := by
  induction l generalizing x
  case nil => exact absurd rfl hne
  case cons c l hi =>
    obtain ⟨hs, hsep⟩ := List.forall_mem_cons.mp hsep
    obtain ⟨hc, hclose⟩ := List.forall_mem_cons.mp hclose
    cases l
    case nil =>
      have hr := hc x rest
      rw [List.map_singleton, List.intercalate_singleton]
      exact iterate_inr hr
    case cons d l =>
      rw [List.map_cons, List.map_cons, List.intercalate_cons_cons, List.append_assoc, List.append_assoc]
      refine (iterate_inl hp (hs x _)).trans ?_
      exact hi hsep hclose (List.cons_ne_nil _ _) (step x c)

end Loop

def turn (body : σ → Cursor τ (Fault ε) σ) (x : σ) : Cursor τ (Fault ε) (σ ⊕ σ) := do
  if ← eof then return .inr x
  else return .inl (← body x)

-- The body is run until there is nothing left.
def untilEof (body : σ → Cursor τ (Fault ε) σ) : σ → Cursor τ (Fault ε) σ :=
  iterate (turn body)

section UntilEof

variable {body : σ → Cursor τ (Fault ε) σ} {x : σ} {n : Nat}

theorem turn_nil : turn body x [] = (.ok (.inr x), []) :=
  rfl

theorem turn_cons (t : τ) (s : List τ) : turn body x (t :: s) = (body x >>= fun y => pure (.inl y)) (t :: s) :=
  rfl

theorem progresses_turn (h : ∀ x, Eats (body x)) : Progresses (turn body) := by
  intro x s y rest hb
  cases s
  case nil => cases hb
  case cons t s =>
    obtain ⟨y', mid, hm, hr⟩ := bind_ok_iff.mp ((turn_cons t s).symm.trans hb)
    cases hr
    exact h x _ _ _ hm

theorem sound_untilEof (h : ∀ x, Sound (body x) n) (he : ∀ x, Eats (body x)) (x : σ) :
    Sound (untilEof body x) n := by
  refine sound_iterate (fun x => ?_) (progresses_turn he) x
  exact sound_eof.bind fun e => .ite (sound_pure _) ((h x).bind fun y => sound_pure _)

-- A list of pieces is read one by one.
theorem untilEof_reads {γ : Type} {step : σ → γ → σ} {enc : γ → List τ} {l : List γ} (he : ∀ x, Eats (body x))
    (h : ∀ c ∈ l, ∀ x, Reads (body x) (enc c) (step x c)) (x : σ) :
    untilEof body x (l.flatMap enc) = (.ok (l.foldl step x), []) := by
  induction l generalizing x
  case nil => exact iterate_inr turn_nil
  case cons c l hi =>
    obtain ⟨hc, hl⟩ := List.forall_mem_cons.mp h
    have hr := hc x (l.flatMap enc)
    have hlt := he x _ _ _ hr
    obtain ⟨t, s, hs⟩ := List.exists_cons_of_length_pos (Nat.lt_of_le_of_lt (Nat.zero_le _) hlt)
    rw [List.flatMap_cons, List.foldl_cons, ← hi hl]
    refine iterate_inl (progresses_turn he) ?_
    rw [hs, turn_cons, bind_eq (hs ▸ hr)]
    rfl

end UntilEof
end Cursor
