import JammVpn.Lib.Bytes

-- Readers of a stream whose bytes come one after the other.
namespace Incremental

open Bytes

-- What a reader makes of the bytes that have come: it waits for more of them, or it has read a value,
-- or it fails.
inductive Result (α : Type)
  | more
  | done (a : α) (rest : List UInt8)
  | fail (e : String)
  deriving DecidableEq

def Reader (α : Type) :=
  List UInt8 → Result α

variable {α β : Type}

instance : Monad Reader where
  pure a bs   := .done a bs
  bind r f bs :=
    match r bs with
    | .more        => .more
    | .done a rest => f a rest
    | .fail e      => .fail e

def throw (e : String) : Reader α :=
  fun _ => .fail e

-- `read_exact`.
def readExact (n : Nat) : Reader (List UInt8) :=
  fun bs => if bs.length < n then .more else .done (bs.take n) (bs.drop n)

-- `read_u8`.
def readU8 : Reader UInt8
  | []      => .more
  | b :: bs => .done b bs

-- `read_u16`.
def readU16 : Reader Nat := do
  let bs ← readExact 2
  return ofBe bs

def Result.extend (r : Result α) (bs : List UInt8) : Result α :=
  match r with
  | .more        => .more
  | .done a rest => .done a (rest ++ bs)
  | .fail e      => .fail e

-- What has been read does not depend on what comes later.
def Lawful (r : Reader α) : Prop :=
  ∀ bs bs', r bs ≠ .more → r (bs ++ bs') = (r bs).extend bs'

section

variable {r : Reader α} {f : α → Reader β} {a : α} {b : β} {bs bs' rest : List UInt8}

theorem bind_of_done (h : r bs = .done a rest) : (r >>= f) bs = f a rest := by
  simp only [Bind.bind, h]

theorem Lawful.of_done (h : Lawful r) (hr : r bs = .done a rest) (bs' : List UInt8) :
    r (bs ++ bs') = .done a (rest ++ bs') := by
  rw [h bs bs' (by simp [hr]), hr]
  rfl

theorem lawful_pure (a : α) : Lawful (pure a : Reader α) :=
  fun _ _ _ => rfl

theorem lawful_throw (e : String) : Lawful (throw e : Reader α) :=
  fun _ _ _ => rfl

theorem Lawful.bind (hr : Lawful r) (hf : ∀ a, Lawful (f a)) : Lawful (r >>= f) := by
  intro bs bs' hn
  simp only [Bind.bind] at hn ⊢
  cases h : r bs
  case more   => simp [h] at hn
  case fail e => simp [hr bs bs' (by simp [h]), h, Result.extend]
  case done a rest =>
    simp only [h] at hn ⊢
    rw [hr.of_done h]
    exact hf a rest bs' hn

theorem lawful_readExact (n : Nat) : Lawful (readExact n) := by
  intro bs bs' hn
  simp only [readExact] at hn ⊢
  split at hn
  case isTrue => exact absurd rfl hn
  case isFalse hl =>
    have hl' : ¬(bs ++ bs').length < n := by
      rw [List.length_append]
      omega
    have hle : n ≤ bs.length := Nat.le_of_not_lt hl
    rw [if_neg hl, if_neg hl', List.take_append_of_le_length hle, List.drop_append_of_le_length hle]
    rfl

theorem lawful_readU8 : Lawful readU8 := by
  intro bs bs' hn
  cases bs
  case nil  => exact absurd rfl hn
  case cons => rfl

theorem lawful_readU16 : Lawful readU16 :=
  (lawful_readExact 2).bind fun _ => lawful_pure _

theorem readExact_append (bs rest : List UInt8) : readExact bs.length (bs ++ rest) = .done bs rest := by
  simp [readExact]

theorem readExact_of_length {n : Nat} (h : bs.length = n) (rest : List UInt8) :
    readExact n (bs ++ rest) = .done bs rest :=
  h ▸ readExact_append bs rest

theorem readU16_toBe (n : Nat) (rest : List UInt8) :
    readU16 (toBe 2 n ++ rest) = .done (n % 65536) rest := by
  rw [readU16, bind_of_done (readExact_of_length (length_toBe 2 n) rest)]
  show Result.done (ofBe (toBe 2 n)) rest = _
  rw [ofBe_toBe]
  rfl

-- The beginning of a stream is read when it is there, and not before.
theorem Lawful.of_prefix (h : Lawful r) (hr : r bs = .done a []) : r (bs ++ rest) = .done a rest := by
  rw [h.of_done hr, List.nil_append]

theorem Lawful.more_of_lt (h : Lawful r) (hr : r (bs ++ bs') = .done a []) (hn : bs' ≠ []) :
    r bs = .more := by
  refine Classical.byContradiction fun hm => ?_
  have he := h bs bs' hm
  rw [hr] at he
  cases hbs : r bs
  case more   => exact hm hbs
  case fail e => simp [hbs, Result.extend] at he
  case done a' rest =>
    rw [hbs] at he
    have := (Result.done.inj he).2
    simp [hn] at this

end

section Repeat

-- The values that are read one after the other, what the last reader has made of the rest, and that rest.
def readAll (r : Reader α) (bs : List UInt8) : List α × Result α × List UInt8 :=
  match r bs with
  | .more        => ([], .more, bs)
  | .fail e      => ([], .fail e, bs)
  | .done a rest =>
    if rest.length < bs.length then
      let (as, last, end_) := readAll r rest
      (a :: as, last, end_)
    else ([a], .more, rest)
termination_by bs.length

-- Values that are encoded one after the other are read as they are, up to the end.
theorem readAll_encode {r : Reader α} {encode : α → List UInt8} {as : List α} (hr : Lawful r) (hnil : r [] = .more)
    (h : ∀ a ∈ as, r (encode a) = .done a [] ∧ encode a ≠ []) :
    readAll r (as.flatMap encode) = (as, .more, []) := by
  induction as
  case nil => rw [List.flatMap_nil, readAll, hnil]
  case cons a as hi =>
    obtain ⟨hd, hne⟩ := h a List.mem_cons_self
    have hlen : (as.flatMap encode).length < (encode a ++ as.flatMap encode).length := by
      rw [List.length_append]
      exact Nat.lt_add_of_pos_left (List.length_pos_iff.mpr hne)
    rw [List.flatMap_cons, readAll, hr.of_prefix hd]
    dsimp only
    rw [if_pos hlen, hi fun b hb => h b (List.mem_cons_of_mem _ hb)]

end Repeat
end Incremental
