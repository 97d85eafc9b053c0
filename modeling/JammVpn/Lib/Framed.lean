import Mathlib.Data.List.Basic

-- Input that comes in pieces of any size and is taken out of a buffer whole frames at a time.
namespace Framed

variable {α σ τ : Type}

-- How long the first frame is, as soon as all of it has come.
structure Framing (α : Type) where
  size        : List α → Option Nat
  size_pos    : ∀ {bs n}, size bs = some n → 0 < n
  size_le     : ∀ {bs n}, size bs = some n → n ≤ bs.length
  size_append : ∀ {bs n}, size bs = some n → ∀ bs', size (bs ++ bs') = some n

-- What is done with the frames, for as long as it goes on.
structure Consumer (σ α : Type) where
  live : σ → Bool
  step : σ → List α → σ

section

variable (F : Framing α) (M : Consumer σ α)

-- Takes whole frames out of the buffer while there are any. Gives what is left of it, too.
def drain (s : σ) (buf : List α) : σ × List α :=
  if M.live s then
    match _h : F.size buf with
    | none   => (s, buf)
    | some n => drain (M.step s (buf.take n)) (buf.drop n)
  else (s, buf)
termination_by buf.length
decreasing_by
  have := F.size_pos _h
  have := F.size_le _h
  rw [List.length_drop]
  omega

def IsFrame (frame : List α) : Prop :=
  F.size frame = some frame.length

-- Takes a list of frames, and is live before each of them.
inductive Takes : σ → List (List α) → σ → Prop
  | nil (s : σ) : Takes s [] s
  | cons {s frame frames s'} : M.live s = true → IsFrame F frame → Takes (M.step s frame) frames s' →
      Takes s (frame :: frames) s'

end

variable {F : Framing α} {M : Consumer σ α} {s s' s'' : σ} {buf buf' : List α} {frame : List α}
  {frames frames' : List (List α)}

theorem drain_dead (h : M.live s = false) : drain F M s buf = (s, buf) := by
  unfold drain
  simp [h]

theorem drain_none (h : F.size buf = none) : drain F M s buf = (s, buf) := by
  unfold drain
  split
  case isFalse => rfl
  case isTrue =>
    split
    case h_1      => rfl
    case h_2 n hn => cases h.symm.trans hn

theorem drain_some (hl : M.live s = true) {n : Nat} (h : F.size buf = some n) :
    drain F M s buf = drain F M (M.step s (buf.take n)) (buf.drop n) := by
  rw [drain, if_pos hl]
  split
  case h_1 hn => cases h.symm.trans hn
  case h_2 n' hn =>
    cases h.symm.trans hn
    rfl

-- The rest stays where it is when more comes after it.
theorem drain_append (s : σ) (buf more : List α) :
    drain F M s (buf ++ more) = drain F M (drain F M s buf).1 ((drain F M s buf).2 ++ more) := by
  cases hl : M.live s
  case false => rw [drain_dead hl, drain_dead hl, drain_dead hl]
  case true =>
    cases hn : F.size buf
    case none => rw [drain_none hn]
    case some n =>
      have hle := F.size_le hn
      have hpos := F.size_pos hn
      rw [drain_some hl (F.size_append hn more), drain_some hl hn, List.take_append_of_le_length hle,
        List.drop_append_of_le_length hle]
      exact drain_append _ _ _
termination_by buf.length
decreasing_by
  rw [List.length_drop]
  omega

theorem drain_drain (s : σ) (buf : List α) : drain F M (drain F M s buf).1 (drain F M s buf).2 = drain F M s buf := by
  have := drain_append (F := F) (M := M) s buf []
  rwa [List.append_nil, List.append_nil, eq_comm] at this

-- There is no whole frame left, or no frame is taken any more.
theorem drain_stops (s : σ) (buf : List α) :
    M.live (drain F M s buf).1 = false ∨ F.size (drain F M s buf).2 = none := by
  cases hl : M.live s
  case false => exact .inl (by rw [drain_dead hl, hl])
  case true =>
    cases hn : F.size buf
    case none => exact .inr (by rw [drain_none hn, hn])
    case some n =>
      have hle := F.size_le hn
      have hpos := F.size_pos hn
      rw [drain_some hl hn]
      exact drain_stops _ _
termination_by buf.length
decreasing_by
  rw [List.length_drop]
  omega

-- What every frame keeps, all of them keep.
theorem drain_keeps {P : σ → Prop} (h : ∀ s frame, M.live s = true → P s → P (M.step s frame)) {s : σ} (hp : P s)
    (buf : List α) : P (drain F M s buf).1 := by
  cases hl : M.live s
  case false => rwa [drain_dead hl]
  case true =>
    cases hn : F.size buf
    case none => rwa [drain_none hn]
    case some n =>
      have hle := F.size_le hn
      have hpos := F.size_pos hn
      rw [drain_some hl hn]
      exact drain_keeps h (h s _ hl hp) _
termination_by buf.length
decreasing_by
  rw [List.length_drop]
  omega

theorem drain_frame (hl : M.live s = true) (hf : IsFrame F frame) (more : List α) :
    drain F M s (frame ++ more) = drain F M (M.step s frame) more := by
  rw [drain_some hl (F.size_append hf more), List.take_left, List.drop_left]

theorem Takes.drain (h : Takes F M s frames s') (more : List α) :
    Framed.drain F M s (frames.flatten ++ more) = Framed.drain F M s' more := by
  induction h
  case nil => rfl
  case cons hl hf _ hi => rw [List.flatten_cons, List.append_assoc, drain_frame hl hf, hi]

theorem Takes.append (h : Takes F M s frames s') (h' : Takes F M s' frames' s'') :
    Takes F M s (frames ++ frames') s'' := by
  induction h
  case nil             => exact h'
  case cons hl hf _ hi => exact .cons hl hf (hi h')

-- What is cut off inside of a frame is not one.
theorem size_of_lt (hf : IsFrame F frame) (h : buf <+: frame) (hlt : buf.length < frame.length) : F.size buf = none := by
  obtain ⟨more, rfl⟩ := h
  refine Option.eq_none_iff_forall_ne_some.mpr fun n hn => ?_
  have hle := F.size_le hn
  have he := (F.size_append hn more).symm.trans hf
  cases he
  omega

-- Where a list of frames is cut off, the ones in front of it have been taken.
theorem Takes.of_prefix (h : Takes F M s frames s') {cut : List α} (hc : cut <+: frames.flatten) :
    ∃ frames₁ frames₂ s₁ rest, frames = frames₁ ++ frames₂ ∧ Takes F M s frames₁ s₁ ∧ Takes F M s₁ frames₂ s' ∧
      Framed.drain F M s cut = (s₁, rest) ∧ cut = frames₁.flatten ++ rest := by
  induction h generalizing cut
  case nil s =>
    have hnil : cut = [] := List.prefix_nil.mp hc
    have hs : F.size cut = none := by
      refine Option.eq_none_iff_forall_ne_some.mpr fun n hn => ?_
      have hpos := F.size_pos hn
      have hle := F.size_le hn
      rw [hnil, List.length_nil] at hle
      omega
    exact ⟨[], [], s, cut, rfl, .nil s, .nil s, drain_none hs, rfl⟩
  case cons s frame frames s' hl hf ht hi =>
    rw [List.flatten_cons] at hc
    by_cases hlt : cut.length < frame.length
    case pos =>
      have hp : cut <+: frame := List.prefix_of_prefix_length_le hc (List.prefix_append _ _) (Nat.le_of_lt hlt)
      exact ⟨[], frame :: frames, s, cut, rfl, .nil s, .cons hl hf ht, drain_none (size_of_lt hf hp hlt), rfl⟩
    case neg =>
      have hp : frame <+: cut := List.prefix_of_prefix_length_le (List.prefix_append _ _) hc (Nat.le_of_not_lt hlt)
      obtain ⟨cut, rfl⟩ := hp
      obtain ⟨frames₁, frames₂, s₁, rest, rfl, h₁, h₂, hd, rfl⟩ := hi ((List.prefix_append_right_inj frame).mp hc)
      refine ⟨frame :: frames₁, frames₂, s₁, rest, rfl, .cons hl hf h₁, h₂, ?_, ?_⟩
      case refine_1 => rw [drain_frame hl hf, hd]
      case refine_2 => rw [List.flatten_cons, List.append_assoc]

-- What is left is less than the longest frame.
theorem Takes.length_lt (h : Takes F M s frames s') {rest : List α} (hr : rest <+: frames.flatten)
    (hn : F.size rest = none) {n : Nat} (hpos : 0 < n) (hl : ∀ frame ∈ frames, frame.length ≤ n) : rest.length < n := by
  cases h
  case nil =>
    rw [List.prefix_nil.mp hr]
    exact hpos
  case cons frame frames hf _ _ =>
    obtain ⟨hle, _⟩ := List.forall_mem_cons.mp hl
    rw [List.flatten_cons] at hr
    by_contra hge
    obtain ⟨more, rfl⟩ : frame <+: rest := List.prefix_of_prefix_length_le (List.prefix_append _ _) hr (by omega)
    cases hn.symm.trans (F.size_append hf more)

end Framed
