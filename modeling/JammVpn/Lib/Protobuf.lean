import Mathlib.Data.List.Basic
import Mathlib.Algebra.Order.Ring.Nat

-- The wire format of protocol buffers.
namespace Protobuf

-- Seven bits a byte, the lowest first.
def ofBase128 : List UInt8 → Nat
  | []      => 0
  | b :: bs => b.toNat % 128 + 128 * ofBase128 bs

-- Every byte but the last says that there is another one. A number can be longer than it has to be, and of
-- ten bytes the bits that do not fit into 64 do not count.
structure Varint (bs : List UInt8) (v : Nat) : Prop where
  ends  : ∃ front last, bs = front ++ [last] ∧ (∀ b ∈ front, 128 ≤ b.toNat) ∧ last.toNat < 128
  le    : bs.length ≤ 10
  value : v = ofBase128 bs % 2 ^ 64

inductive Payload
  | varint (v : Nat)
  | i64 (b : List UInt8)
  | len (b : List UInt8)
  | i32 (b : List UInt8)

def Payload.wire : Payload → Nat
  | .varint _ => 0
  | .i64 _    => 1
  | .len _    => 2
  | .i32 _    => 5

structure Field where
  number  : Nat
  payload : Payload

inductive PayloadText : Payload → List UInt8 → Prop
  | varint {bs v} (h : Varint bs v) : PayloadText (.varint v) bs
  | i64 {b} (h : b.length = 8) : PayloadText (.i64 b) b
  | len {bs b} (h : Varint bs b.length) : PayloadText (.len b) (bs ++ b)
  | i32 {b} (h : b.length = 4) : PayloadText (.i32 b) b

inductive FieldText (f : Field) : List UInt8 → Prop
  | mk {tag body} (h : 0 < f.number) (ht : Varint tag (8 * f.number + f.payload.wire))
    (hb : PayloadText f.payload body) : FieldText f (tag ++ body)

-- A message is its fields, one after the other.
inductive MessageText : List Field → List UInt8 → Prop
  | nil : MessageText [] []
  | cons {f fs bs rest} (h : FieldText f bs) (hr : MessageText fs rest) : MessageText (f :: fs) (bs ++ rest)

def Field.bytes (number : Nat) (f : Field) : Option (List UInt8) :=
  match f.payload with
  | .len b => if f.number = number then some b else none
  | _      => none

def Field.number? (number : Nat) (f : Field) : Option Nat :=
  match f.payload with
  | .varint v => if f.number = number then some v else none
  | _         => none

-- What a repeated field says, and what a single one does: there the last word counts.
def all {α : Type} (sel : Field → Option α) (fs : List Field) : List α :=
  fs.filterMap sel

def last {α : Type} (sel : Field → Option α) (fs : List Field) : Option α :=
  (all sel fs).getLast?

theorem all_cons {α : Type} (sel : Field → Option α) (f : Field) (fs : List Field) :
    all sel (f :: fs) = (sel f).toList ++ all sel fs := by
  rw [all, List.filterMap_cons]
  cases sel f <;> rfl

theorem last_cons {α : Type} (sel : Field → Option α) (f : Field) (fs : List Field) :
    last sel (f :: fs) = (last sel fs).or (sel f) := by
  rw [last, all, List.filterMap_cons]
  cases sel f
  case none   => exact (Option.or_none).symm
  case some a => rw [List.getLast?_cons, ← all, ← last]; cases last sel fs <;> rfl

theorem mem_all {α : Type} {sel : Field → Option α} {fs : List Field} {f : Field} {a : α} (hf : f ∈ fs)
    (h : sel f = some a) : a ∈ all sel fs :=
  List.mem_filterMap.mpr ⟨f, hf, h⟩

theorem MessageText.pieces {fs : List Field} {bs : List UInt8} (h : MessageText fs bs) :
    ∃ ts : List (Field × List UInt8), fs = ts.map Prod.fst ∧ bs = ts.flatMap Prod.snd ∧
      ∀ t ∈ ts, FieldText t.1 t.2 := by
  induction h
  case nil => exact ⟨[], rfl, rfl, List.forall_mem_nil _⟩
  case cons f fs bs rest h _ hi =>
    obtain ⟨ts, hfs, hbs, ht⟩ := hi
    exact ⟨(f, bs) :: ts, congrArg (f :: ·) hfs, congrArg (bs ++ ·) hbs, List.forall_mem_cons.mpr ⟨h, ht⟩⟩

-- The tag of a field says what there is to select, and what is behind it.
theorem len_of_wire {f : Field} {body : List UInt8} (h : f.payload.wire = 2) (hb : PayloadText f.payload body) :
    ∃ bs b, f.bytes f.number = some b ∧ Varint bs b.length ∧ body = bs ++ b := by
  obtain ⟨number, payload⟩ := f
  cases hb <;> try cases h
  case len bs b hv => exact ⟨bs, b, if_pos rfl, hv, rfl⟩

theorem varint_of_wire {f : Field} {body : List UInt8} (h : f.payload.wire = 0) (hb : PayloadText f.payload body) :
    ∃ v, f.number? f.number = some v ∧ Varint body v := by
  obtain ⟨number, payload⟩ := f
  cases hb <;> try cases h
  case varint v hv => exact ⟨v, if_pos rfl, hv⟩

theorem bytes_eq_none {f : Field} {k : Nat} (h : ¬(f.number = k ∧ f.payload.wire = 2)) : f.bytes k = none := by
  obtain ⟨number, payload⟩ := f
  cases payload <;> try rfl
  case len b => exact if_neg fun hk => h ⟨hk, rfl⟩

theorem number_eq_none {f : Field} {k : Nat} (h : ¬(f.number = k ∧ f.payload.wire = 0)) :
    f.number? k = none := by
  obtain ⟨number, payload⟩ := f
  cases payload <;> try rfl
  case varint v => exact if_neg fun hk => h ⟨hk, rfl⟩

theorem varint_byte (b : UInt8) (h : b.toNat < 128) : Varint [b] b.toNat where
  ends := ⟨[], b, rfl, List.forall_mem_nil _, h⟩
  le := Nat.le_of_ble_eq_true rfl
  value := by
    have hlt : b.toNat < 2 ^ 64 := Nat.lt_trans h (by decide)
    rw [ofBase128, ofBase128, Nat.mul_zero, Nat.add_zero, Nat.mod_eq_of_lt h, Nat.mod_eq_of_lt hlt]

end Protobuf
