import JammVpn.Lib.Machine
import JammVpn.Net.SlideBuffer

-- The sliding buffer is a queue: what has been put into it comes out in order, whatever was in its memory.
namespace JammVpn.SlideBuffer

open Machine

variable {b b' : SlideBuffer} {bs : List UInt8} {n : Nat}

@[simp]
theorem asSlice_new (memory : List UInt8) : (new memory).asSlice = [] :=
  rfl

@[simp]
theorem asSlice_reset (b : SlideBuffer) : b.reset.asSlice = [] :=
  rfl

@[simp]
theorem capacity_new (memory : List UInt8) : (new memory).capacity = memory.length :=
  rfl

theorem asSlice_eq_nil_iff : b.asSlice = [] ↔ b.end_ ≤ b.start := by
  rw [← List.length_eq_zero_iff, length_asSlice, len, Nat.sub_eq_zero_iff_le]

theorem end_eq_zero (h : b.asSlice = []) : b.end_ = 0 :=
  b.rewound (asSlice_eq_nil_iff.mp h)

theorem take_end (b : SlideBuffer) : b.data.take b.end_ = b.data.take b.start ++ b.asSlice := by
  have h := List.take_append_drop b.start (b.data.take b.end_)
  rwa [List.take_take, Nat.min_eq_left b.start_le, eq_comm] at h

theorem length_take_start (b : SlideBuffer) : (b.data.take b.start).length = b.start := by
  have := b.start_le
  have := b.end_le
  rw [List.length_take]
  omega

theorem extendFromSlice_eq_none_iff : b.extendFromSlice bs = none ↔ b.remainingCapacity < bs.length := by
  rw [extendFromSlice]
  split
  case isTrue h  => exact iff_of_false nofun (Nat.not_lt_of_le h)
  case isFalse h => exact iff_of_true rfl (Nat.lt_of_not_le h)

-- What `extend_from_slice` leaves.
structure Extended (b : SlideBuffer) (bs : List UInt8) (b' : SlideBuffer) : Prop where
  fits     : bs.length ≤ b.remainingCapacity
  asSlice  : b'.asSlice = b.asSlice ++ bs
  capacity : b'.capacity = b.capacity
  start    : b'.start = b.start
  end_     : b'.end_ = b.end_ + bs.length

theorem extended (h : b.extendFromSlice bs = some b') : Extended b bs b' := by
  rw [extendFromSlice] at h
  split at h
  case isFalse => cases h
  case isTrue hle =>
    have hend := b.end_le
    simp only [remainingCapacity] at hle
    cases h
    refine ⟨hle, ?_, length_overwrite (by omega), rfl, rfl⟩
    have hlen : (b.data.take b.end_ ++ bs).length = b.end_ + bs.length := by
      rw [List.length_append, List.length_take, Nat.min_eq_left hend]
    show ((overwrite b.data b.end_ bs).take (b.end_ + bs.length)).drop b.start = _
    rw [overwrite, List.take_left' hlen, take_end, List.append_assoc,
      List.drop_left' b.length_take_start]

-- What `consume` leaves: it does not take any of the room that is left.
structure Consumed (b : SlideBuffer) (n : Nat) (b' : SlideBuffer) : Prop where
  asSlice  : b'.asSlice = b.asSlice.drop n
  capacity : b'.capacity = b.capacity
  end_     : b'.end_ ≤ b.end_

theorem consumed (b : SlideBuffer) (n : Nat) : Consumed b n (b.consume n) := by
  rw [consume]
  split
  case isTrue hend =>
    refine ⟨?_, rfl, Nat.zero_le _⟩
    rw [asSlice_reset, List.drop_eq_nil_of_le]
    rw [length_asSlice, len]
    omega
  case isFalse hend =>
    refine ⟨?_, rfl, Nat.le_refl _⟩
    rw [asSlice, asSlice, List.drop_drop]

-- What moving the data leaves.
structure Compacted (b b' : SlideBuffer) : Prop where
  asSlice  : b'.asSlice = b.asSlice
  capacity : b'.capacity = b.capacity
  end_     : b'.end_ ≤ b.end_

theorem compacted (b : SlideBuffer) : Compacted b b.compact := by
  rw [compact]
  split
  case isTrue h =>
    have hlen : ([] ++ b.asSlice).length = b.end_ - b.start := b.length_asSlice
    refine ⟨?_, length_overwrite ?_, Nat.sub_le _ _⟩
    case refine_1 =>
      show ((overwrite b.data 0 b.asSlice).take (b.end_ - b.start)).drop 0 = _
      rw [overwrite, List.take_zero, List.take_left' hlen]
      rfl
    case refine_2 =>
      have := b.start_add_length
      have := b.end_le
      omega
  case isFalse h =>
    split
    case isTrue he => exact ⟨(asSlice_eq_nil_iff.mpr he).symm, rfl, Nat.zero_le _⟩
    case isFalse   => exact ⟨rfl, rfl, Nat.le_refl _⟩

-- All that is not taken is room.
theorem end_compact (b : SlideBuffer) : b.compact.end_ = b.len := by
  have := b.start_le
  rw [compact, len]
  split
  case isTrue => rfl
  case isFalse h =>
    split
    case isTrue he => exact (Nat.sub_eq_zero_of_le he).symm
    case isFalse he =>
      have hz : b.start = 0 := by omega
      rw [hz, Nat.sub_zero]

theorem remainingCapacity_compact (b : SlideBuffer) : b.compact.remainingCapacity = b.capacity - b.len := by
  have hc := b.compacted.capacity
  rw [remainingCapacity, end_compact]
  exact congrArg (· - b.len) hc

theorem maybeCompacted (b : SlideBuffer) (threshold : Nat) : Compacted b (b.maybeCompact threshold) := by
  rw [maybeCompact]
  split
  case isTrue  => exact b.compacted
  case isFalse => exact ⟨rfl, rfl, Nat.le_refl _⟩

theorem len_le_capacity (b : SlideBuffer) : b.len ≤ b.capacity :=
  Nat.le_trans (Nat.sub_le _ _) b.end_le

theorem overwrite_append_left (pre data bs : List UInt8) (offset : Nat) :
    overwrite (pre ++ data) (pre.length + offset) bs = pre ++ overwrite data offset bs := by
  rw [overwrite, overwrite, List.take_length_add_append, Nat.add_assoc, List.drop_length_add_append, List.append_assoc,
    List.append_assoc, List.append_assoc]

theorem overwrite_append_right {data bs : List UInt8} {offset : Nat} (h : offset + bs.length ≤ data.length)
    (rest : List UInt8) : overwrite (data ++ rest) offset bs = overwrite data offset bs ++ rest := by
  rw [overwrite, overwrite, List.take_append_of_le_length (by omega), List.drop_append_of_le_length h,
    List.append_assoc _ _ rest]

theorem data_eq (b : SlideBuffer) : b.data = b.data.take b.start ++ (b.asSlice ++ b.data.drop b.end_) := by
  rw [← List.append_assoc, ← take_end, List.take_append_drop]

-- What is written in place of readable bytes.
theorem asSlice_sliceMut {offset : Nat} (hle : offset + bs.length ≤ b.len) (h : b.sliceMut offset bs = some b') :
    b'.asSlice = overwrite b.asSlice offset bs ∧ b'.capacity = b.capacity ∧ b'.end_ = b.end_ := by
  rw [← length_asSlice] at hle
  rw [sliceMut] at h
  split at h
  case isFalse => cases h
  case isTrue hb =>
    cases h
    refine ⟨?_, length_overwrite hb, rfl⟩
    have hdata : overwrite b.data (b.start + offset) bs =
        b.data.take b.start ++ (overwrite b.asSlice offset bs ++ b.data.drop b.end_) := by
      have ho := overwrite_append_left (b.data.take b.start) (b.asSlice ++ b.data.drop b.end_) bs offset
      rwa [← data_eq, length_take_start, overwrite_append_right hle] at ho
    have hlen : (b.data.take b.start ++ overwrite b.asSlice offset bs).length = b.end_ := by
      rw [List.length_append, length_take_start, length_overwrite hle, start_add_length]
    show ((overwrite b.data (b.start + offset) bs).take b.end_).drop b.start = _
    rw [hdata, ← List.append_assoc, List.take_left' hlen, List.drop_left' b.length_take_start]

theorem exists_sliceMut {offset : Nat} (hle : offset + bs.length ≤ b.len) : ∃ b', b.sliceMut offset bs = some b' := by
  have := b.start_le
  have := b.end_le
  simp only [len] at hle
  exact ⟨_, dif_pos (by omega)⟩

-- Reading gives as much of the beginning as there is room for.
theorem read_fst (b : SlideBuffer) (cap : Nat) : (b.read cap).1 = b.asSlice.take cap := by
  rw [read]
  split
  case isTrue h =>
    have hnil : b.asSlice = [] := List.eq_nil_of_length_eq_zero (b.length_asSlice.trans h)
    rw [hnil, List.take_nil]
  case isFalse =>
    show b.asSlice.take (min cap b.len) = b.asSlice.take cap
    rw [← length_asSlice, ← List.take_eq_take_min]

theorem read_snd (b : SlideBuffer) (cap : Nat) : Consumed b cap (b.read cap).2 := by
  rw [read]
  split
  case isTrue h =>
    have hnil : b.asSlice = [] := List.eq_nil_of_length_eq_zero (b.length_asSlice.trans h)
    exact ⟨by rw [hnil, List.drop_nil], rfl, Nat.le_refl _⟩
  case isFalse =>
    have hb := b.consumed (min cap b.len)
    exact ⟨by rw [hb.asSlice, ← length_asSlice, ← List.drop_eq_drop_min], hb.capacity, hb.end_⟩

-- What is done to a buffer. Something may be written behind its data and then made a part of it.
inductive Op
  | extend (bs : List UInt8)
  | writeSlice (bs : List UInt8)
  | advanceWrite (n : Nat)
  | consume (n : Nat)
  | compact
  | maybeCompact (threshold : Nat)
  | read (cap : Nat)

-- A run with all that has been put into the buffer and all that has been taken out of it.
structure Run where
  buf   : SlideBuffer
  given : List UInt8
  taken : List UInt8

-- What stands behind the data.
def behind (b : SlideBuffer) (n : Nat) : List UInt8 :=
  (b.data.drop b.end_).take n

-- In a debug build or a release build, which does not check what is consumed.
def step (debug : Bool) (r : Run) : Op → Option Run
  | .extend bs      => do return { r with buf := ← r.buf.extendFromSlice bs, given := r.given ++ bs }
  | .writeSlice bs  => do return { r with buf := ← r.buf.writeSlice bs }
  | .advanceWrite n => do return { r with buf := ← r.buf.advanceWrite n, given := r.given ++ r.buf.behind n }
  | .consume n      =>
    if debug ∧ r.buf.len < n then none
    else some { r with buf := r.buf.consume n, taken := r.taken ++ r.buf.asSlice.take n }
  | .compact        => some { r with buf := r.buf.compact }
  | .maybeCompact t => some { r with buf := r.buf.maybeCompact t }
  | .read cap       => some { r with buf := (r.buf.read cap).2, taken := r.taken ++ (r.buf.read cap).1 }

def begin_ (memory : List UInt8) : Run where
  buf := new memory
  given := []
  taken := []

-- What the buffer has no room for, or in a debug build does not have.
def Refused (debug : Bool) (b : SlideBuffer) : Op → Prop
  | .extend bs      => b.remainingCapacity < bs.length
  | .writeSlice bs  => b.remainingCapacity < bs.length
  | .advanceWrite n => b.remainingCapacity < n
  | .consume n      => debug ∧ b.len < n
  | .compact        => False
  | .maybeCompact _ => False
  | .read _         => False

structure Queue (memory : List UInt8) (r : Run) : Prop where
  fifo     : r.taken ++ r.buf.asSlice = r.given
  capacity : r.buf.capacity = memory.length

variable {debug : Bool} {memory : List UInt8} {r r' : Run} {op : Op} {ops : List Op}

-- What is written behind the data does not change it.
theorem writeSlice_spec (h : b.writeSlice bs = some b') :
    b'.asSlice = b.asSlice ∧ b'.capacity = b.capacity ∧ ∀ n ≤ bs.length, b'.behind n = bs.take n := by
  rw [writeSlice] at h
  split at h
  case isFalse => cases h
  case isTrue hle =>
    cases h
    have hend : (b.data.take b.end_).length = b.end_ := List.length_take_of_le b.end_le
    have hdata : overwrite b.data b.end_ bs = b.data.take b.end_ ++ (bs ++ b.data.drop (b.end_ + bs.length)) :=
      List.append_assoc _ _ _
    refine ⟨?_, length_overwrite hle, fun n hn => ?_⟩
    case refine_1 =>
      show ((overwrite b.data b.end_ bs).take b.end_).drop b.start = _
      rw [hdata, List.take_left' hend, asSlice]
    case refine_2 =>
      show ((overwrite b.data b.end_ bs).drop b.end_).take n = _
      rw [hdata, List.drop_left' hend, List.take_append_of_le_length hn]

-- What stands behind the data becomes a part of it.
theorem advanceWrite_spec (h : b.advanceWrite n = some b') :
    b'.asSlice = b.asSlice ++ b.behind n ∧ b'.capacity = b.capacity := by
  rw [advanceWrite] at h
  split at h
  case isFalse => cases h
  case isTrue hle =>
    cases h
    refine ⟨?_, rfl⟩
    show (b.data.take (b.end_ + n)).drop b.start = _
    rw [List.take_add, take_end, List.append_assoc, List.drop_left' b.length_take_start, behind]

theorem Queue.step (h : Queue memory r) (hs : SlideBuffer.step debug r op = some r') : Queue memory r' := by
  obtain ⟨hf, hc⟩ := h
  cases op
  case extend bs =>
    obtain ⟨b, hb, hr⟩ := Option.bind_eq_some_iff.mp hs
    cases hr
    have he := extended hb
    exact ⟨by rw [he.asSlice, ← List.append_assoc, hf], he.capacity.trans hc⟩
  case writeSlice bs =>
    obtain ⟨b, hb, hr⟩ := Option.bind_eq_some_iff.mp hs
    cases hr
    obtain ⟨hslice, hcap, _⟩ := writeSlice_spec hb
    exact ⟨by rw [hslice, hf], hcap.trans hc⟩
  case advanceWrite n =>
    obtain ⟨b, hb, hr⟩ := Option.bind_eq_some_iff.mp hs
    cases hr
    obtain ⟨hslice, hcap⟩ := advanceWrite_spec hb
    exact ⟨by rw [hslice, ← List.append_assoc, hf], hcap.trans hc⟩
  case consume n =>
    rw [SlideBuffer.step] at hs
    split at hs
    case isTrue => cases hs
    case isFalse =>
      cases hs
      have he := r.buf.consumed n
      exact ⟨by rw [he.asSlice, List.append_assoc, List.take_append_drop, hf], he.capacity.trans hc⟩
  case compact =>
    cases hs
    exact ⟨by rw [r.buf.compacted.asSlice, hf], r.buf.compacted.capacity.trans hc⟩
  case maybeCompact t =>
    cases hs
    have he := r.buf.maybeCompacted t
    exact ⟨by rw [he.asSlice, hf], he.capacity.trans hc⟩
  case read cap =>
    cases hs
    have he := r.buf.read_snd cap
    refine ⟨?_, he.capacity.trans hc⟩
    rw [read_fst, he.asSlice, List.append_assoc, List.take_append_drop, hf]

theorem Queue.run (h : Queue memory r) (hr : Machine.run (SlideBuffer.step debug) r ops = some r') :
    Queue memory r' := by
  induction ops generalizing r
  case nil => exact Option.some.inj hr ▸ h
  case cons op ops hi =>
    obtain ⟨r₁, hs, hr⟩ := run_cons hr
    exact hi (h.step hs) hr

end JammVpn.SlideBuffer
