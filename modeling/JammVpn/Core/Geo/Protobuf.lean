import JammVpn.Lib.Loop
import JammVpn.Lib.Text
import JammVpn.Lib.Utf8
import Mathlib.Algebra.Order.Ring.Nat

-- The reader of the messages that the databases are made of.
namespace JammVpn.Geo

inductive GeoError
  | truncated
  | malformed (reason : String)
  deriving DecidableEq

abbrev Reader (α : Type) :=
  Cursor UInt8 (Fault GeoError) α

def wireVarint : Nat := 0
def wireI64 : Nat := 1
def wireLen : Nat := 2
def wireI32 : Nat := 5

namespace Reader

-- The digits so far, and where the next ones go. The digits that do not fit into 64 bits are lost.
def varintTurn (r : Nat × Nat) : Reader ((Nat × Nat) ⊕ Nat) := do
  if ← Cursor.eof then Cursor.fail .truncated
  else
    let byte ← Cursor.index
    Cursor.advance 1
    if 64 ≤ r.2 then Cursor.fail (.malformed "varint длиннее 10 байт")
    else
      let result := r.1 ||| ((byte &&& 0x7f).toNat <<< r.2) % 2 ^ 64
      if byte &&& 0x80 = 0 then return .inr result
      else return .inl (result, r.2 + 7)

def readVarint : Reader Nat :=
  Cursor.iterate varintTurn (0, 0)

def readTag : Reader (Nat × Nat) := do
  let key ← readVarint
  let field := key >>> 3
  let wire := key &&& 0x07
  if field = 0 then Cursor.fail (.malformed "нулевой номер поля")
  else return (field, wire)

-- An end that does not fit into 64 bits is behind the end of the buffer as well.
def readBytes : Reader (List UInt8) := do
  let len ← readVarint
  if (← Cursor.remaining) < len then Cursor.fail .truncated
  else
    let b ← Cursor.slice len
    Cursor.advance len
    return b

def readString : Reader String := do
  let b ← readBytes
  return .ofList (Utf8.decodeLossy b)

def advance (n : Nat) : Reader Unit := do
  if (← Cursor.remaining) < n then Cursor.fail .truncated
  else Cursor.advance n

def skip (wire : Nat) : Reader Unit := do
  if wire = wireVarint then
    let _ ← readVarint
    return ()
  else if wire = wireI64 then advance 8
  else if wire = wireLen then
    let _ ← readBytes
    return ()
  else if wire = wireI32 then advance 4
  else Cursor.fail (.malformed "неизвестный wire type")

-- A message inside of another one has a reader of its own.
def nested {α : Type} (m : Reader α) (bytes : List UInt8) : Reader α :=
  fun s => ((m bytes).1, s)

section Entries

variable {α β δ : Type}

-- A field of an entry: its code, or an element that is a message inside of it.
def codedField (element : Reader α) (add : β → α → β) (r : String × β) : Reader (String × β) := do
  let tag ← readTag
  if tag = (1, wireLen) then return (Text.asciiLower (← readString), r.2)
  else if tag = (2, wireLen) then
    let bytes ← readBytes
    let a ← nested element bytes
    return (r.1, add r.2 a)
  else
    skip tag.2
    return r

-- A field of a database: an entry that goes under its code. Without a code there is nothing to find it by.
def entriesField (entry : Reader (String × β)) (insert : δ → String × β → δ) (db : δ) : Reader δ := do
  let tag ← readTag
  if tag = (1, wireLen) then
    let bytes ← readBytes
    let e ← nested entry bytes
    if e.1 = "" then return db
    else return insert db e
  else
    skip tag.2
    return db

end Entries

end Reader
end JammVpn.Geo
