import Mathlib.Data.List.Basic
import JammVpn.Lib.Bytes

-- The buffer between two ends of a stream. It does not wrap around: what has been consumed is reclaimed
-- by moving the rest to the front.
namespace JammVpn

open Bytes

-- Where there is nothing in it, it begins at the front again.
structure SlideBuffer where
  data     : List UInt8
  start    : Nat
  end_     : Nat
  start_le : start ≤ end_
  end_le   : end_ ≤ data.length
  rewound  : end_ ≤ start → end_ = 0

namespace SlideBuffer

-- The memory is not initialized.
def new (memory : List UInt8) : SlideBuffer where
  data := memory
  start := 0
  end_ := 0
  start_le := Nat.le_refl _
  end_le := Nat.zero_le _
  rewound _ := rfl

def capacity (b : SlideBuffer) : Nat :=
  b.data.length

def len (b : SlideBuffer) : Nat :=
  b.end_ - b.start

def isEmpty (b : SlideBuffer) : Bool :=
  b.end_ ≤ b.start

def remainingCapacity (b : SlideBuffer) : Nat :=
  b.data.length - b.end_

def asSlice (b : SlideBuffer) : List UInt8 :=
  (b.data.take b.end_).drop b.start

-- `Vec::copy_from_slice` into a part of the data, which has to be long enough.
def overwrite (data : List UInt8) (offset : Nat) (bs : List UInt8) : List UInt8 :=
  data.take offset ++ bs ++ data.drop (offset + bs.length)

theorem length_overwrite {data bs : List UInt8} {offset : Nat} (h : offset + bs.length ≤ data.length) :
    (overwrite data offset bs).length = data.length := by
  simp only [overwrite, List.length_append, List.length_take, List.length_drop]
  omega

theorem rewound_add (b : SlideBuffer) (n : Nat) (h : b.end_ + n ≤ b.start) : b.end_ + n = 0 := by
  have hz := b.rewound (Nat.le_of_add_right_le h)
  have := b.start_le
  omega

-- There is no result where the code panics.
def extendFromSlice (b : SlideBuffer) (bs : List UInt8) : Option SlideBuffer :=
  if h : bs.length ≤ b.remainingCapacity then
    have hle : b.end_ + bs.length ≤ b.data.length := by
      have := b.end_le
      simp only [remainingCapacity] at h
      omega
    some {
      data := overwrite b.data b.end_ bs
      start := b.start
      end_ := b.end_ + bs.length
      start_le := Nat.le_add_right_of_le b.start_le
      end_le := (length_overwrite hle).symm ▸ hle
      rewound := b.rewound_add bs.length
    }
  else none

-- What is written through `write_slice`, behind the readable data. It is not part of it yet.
def writeSlice (b : SlideBuffer) (bs : List UInt8) : Option SlideBuffer :=
  if h : b.end_ + bs.length ≤ b.data.length then
    some { b with
      data := overwrite b.data b.end_ bs
      end_le := by
        rw [length_overwrite h]
        exact b.end_le
    }
  else none

-- The assertion is one of a debug build. Without it, the end is behind the data and there is no buffer any more.
def advanceWrite (b : SlideBuffer) (n : Nat) : Option SlideBuffer :=
  if h : b.end_ + n ≤ b.data.length then
    some { b with
      end_ := b.end_ + n
      start_le := Nat.le_add_right_of_le b.start_le
      end_le := h
      rewound := b.rewound_add n
    }
  else none

def reset (b : SlideBuffer) : SlideBuffer where
  data := b.data
  start := 0
  end_ := 0
  start_le := Nat.le_refl _
  end_le := Nat.zero_le _
  rewound _ := rfl

-- A debug build asserts that there is so much.
def consume (b : SlideBuffer) (n : Nat) : SlideBuffer :=
  if h : b.end_ ≤ b.start + n then b.reset
  else {
    data := b.data
    start := b.start + n
    end_ := b.end_
    start_le := Nat.le_of_not_le h
    end_le := b.end_le
    rewound hs := absurd hs h
  }

theorem length_asSlice (b : SlideBuffer) : b.asSlice.length = b.len := by
  have := b.end_le
  simp only [asSlice, len, List.length_drop, List.length_take]
  omega

theorem start_add_length (b : SlideBuffer) : b.start + b.asSlice.length = b.end_ := by
  have := b.start_le
  rw [length_asSlice, len]
  omega

-- `copy_within` moves the data to the front.
def compact (b : SlideBuffer) : SlideBuffer :=
  if h : 0 < b.start ∧ b.start < b.end_ then
    have hle : 0 + b.asSlice.length ≤ b.data.length := by
      have := b.start_add_length
      have := b.end_le
      omega
    {
      data := overwrite b.data 0 b.asSlice
      start := 0
      end_ := b.end_ - b.start
      start_le := Nat.zero_le _
      end_le := by
        rw [length_overwrite hle]
        exact Nat.le_trans (Nat.sub_le _ _) b.end_le
      rewound hs := Nat.le_zero.mp hs
    }
  else if b.end_ ≤ b.start then b.reset
  else b

def maybeCompact (b : SlideBuffer) (threshold : Nat) : SlideBuffer :=
  if threshold < b.start then b.compact else b

def getU16Be (b : SlideBuffer) (offset : Nat) : Option Nat :=
  if offset + 2 ≤ b.len then some (ofBe ((b.asSlice.drop offset).take 2)) else none

-- What is written through `slice_mut`, behind the first bytes of the readable data.
def sliceMut (b : SlideBuffer) (offset : Nat) (bs : List UInt8) : Option SlideBuffer :=
  if h : b.start + offset + bs.length ≤ b.data.length then
    some { b with
      data := overwrite b.data (b.start + offset) bs
      end_le := by
        rw [length_overwrite h]
        exact b.end_le
    }
  else none

-- `Read`, into a buffer of this length.
def read (b : SlideBuffer) (cap : Nat) : List UInt8 × SlideBuffer :=
  if b.len = 0 then ([], b)
  else
    let toRead := min cap b.len
    (b.asSlice.take toRead, b.consume toRead)

end SlideBuffer
end JammVpn
