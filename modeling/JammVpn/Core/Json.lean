import JammVpn.Core.Model
import JammVpn.Lib.Json
import JammVpn.Lib.Loop

-- The parser of JSON texts. The parser of the numbers is a parameter.
namespace JammVpn.JsonParser

open Text

abbrev Parser (α : Type) :=
  Cursor Char (Fault ParseError) α

def jsonErr {α : Type} : Parser α :=
  Cursor.fail (.json "некорректный JSON")

-- The next character, which has to be there.
def next : Parser Char := do
  match ← Cursor.bump with
  | some c => return c
  | none   => jsonErr

def isWs (c : Char) : Bool :=
  c == ' ' || c == '\t' || c == '\n' || c == '\r'

def ws : Parser Unit := do
  let _ ← Cursor.takeWhile isWs
  return ()

def literal {α : Type} (word : List Char) (val : α) : Parser α :=
  match word with
  | []               => return val
  | expected :: rest => do
    if (← Cursor.bump) = some expected then literal rest val
    else jsonErr

def hexDigits : Nat → Nat → Parser Nat
  | 0, v     => return v
  | n + 1, v => do
    match toDigit 16 (← next) with
    | some d => hexDigits n (v * 16 + d)
    | none   => jsonErr

def hex4 : Parser Nat :=
  hexDigits 4 0

def charFromU32 (n : Nat) : Option Char :=
  if n.isValidChar then some (.ofNat n) else none

def unicodeEscape : Parser Char := do
  let cp ← hex4
  if 0xd800 ≤ cp ∧ cp ≤ 0xdbff then
    if (← Cursor.bump) ≠ some '\\' then jsonErr
    else if (← Cursor.bump) ≠ some 'u' then jsonErr
    else
      let lo ← hex4
      if 0xdc00 ≤ lo ∧ lo ≤ 0xdfff then
        match charFromU32 (0x10000 + ((cp - 0xd800) <<< 10) + (lo - 0xdc00)) with
        | some c => return c
        | none   => jsonErr
      else jsonErr
  else return (charFromU32 cp).getD '\ufffd'

def escape : Parser Char := do
  match ← next with
  | '"'  => return '"'
  | '\\' => return '\\'
  | '/'  => return '/'
  | 'n'  => return '\n'
  | 't'  => return '\t'
  | 'r'  => return '\r'
  | 'b'  => return '\x08'
  | 'f'  => return '\x0c'
  | 'u'  => unicodeEscape
  | _    => jsonErr

def stringTurn (out : List Char) : Parser (List Char ⊕ List Char) := do
  let ch ← next
  if ch = '"' then return .inr out
  else if ch = '\\' then return .inl (out ++ [← escape])
  else return .inl (out ++ [ch])

def string : Parser String := do
  Cursor.advance 1
  return .ofList (← Cursor.iterate stringTurn [])

section Values

variable {ν : Type}

open Json (Value)

def isNumberChar (c : Char) : Bool :=
  c.isDigit || c == '.' || c == 'e' || c == 'E' || c == '+' || c == '-'

def sign : Parser (List Char) := do
  if (← Cursor.peek) = some '-' then
    Cursor.advance 1
    return ['-']
  else return []

def number (f64 : List Char → Option ν) : Parser (Value ν) := do
  let front ← sign
  let rest ← Cursor.takeWhile isNumberChar
  match f64 (front ++ rest) with
  | some n => return .number n
  | none   => jsonErr

def arrayTurn (value : Parser (Value ν)) (items : List (Value ν)) : Parser (List (Value ν) ⊕ Value ν) := do
  let v ← value
  ws
  let c ← next
  if c = ',' then return .inl (items ++ [v])
  else if c = ']' then return .inr (.array (items ++ [v]))
  else jsonErr

def arrayItems (value : Parser (Value ν)) : Parser (Value ν) := do
  ws
  if (← Cursor.peek) = some ']' then
    Cursor.advance 1
    return .array []
  else Cursor.iterate (arrayTurn value) []

def array (value : Parser (Value ν)) : Parser (Value ν) := do
  Cursor.advance 1
  arrayItems value

def objectTurn (value : Parser (Value ν)) (items : List (String × Value ν)) :
    Parser (List (String × Value ν) ⊕ Value ν) := do
  ws
  if (← Cursor.peek) ≠ some '"' then jsonErr
  else
    let key ← string
    ws
    if (← Cursor.bump) ≠ some ':' then jsonErr
    else
      let val ← value
      ws
      let c ← next
      if c = ',' then return .inl (items ++ [(key, val)])
      else if c = '}' then return .inr (.object (items ++ [(key, val)]))
      else jsonErr

def objectItems (value : Parser (Value ν)) : Parser (Value ν) := do
  ws
  if (← Cursor.peek) = some '}' then
    Cursor.advance 1
    return .object []
  else Cursor.iterate (objectTurn value) []

def object (value : Parser (Value ν)) : Parser (Value ν) := do
  Cursor.advance 1
  objectItems value

-- What the first character says that the value is.
def valueAt (f64 : List Char → Option ν) (value : Parser (Value ν)) (c : Char) : Parser (Value ν) :=
  if c = '{' then object value
  else if c = '[' then array value
  else if c = '"' then return .string (← string)
  else if c = 't' then literal "true".toList (.bool true)
  else if c = 'f' then literal "false".toList (.bool false)
  else if c = 'n' then literal "null".toList .null
  else if c = '-' ∨ c.isDigit then number f64
  else jsonErr

-- The number bounds how deep the values are inside of each other.
def value (f64 : List Char → Option ν) : Nat → Parser (Value ν)
  | 0     => Cursor.throw .outOfFuel
  | n + 1 => do
    ws
    match ← Cursor.peek with
    | some c => valueAt f64 (value f64 n) c
    | none   => jsonErr

def document (f64 : List Char → Option ν) (n : Nat) : Parser (Value ν) := do
  let v ← value f64 n
  ws
  if ← Cursor.eof then return v
  else jsonErr

def parse (f64 : List Char → Option ν) (input : List Char) : Except (Fault ParseError) (Value ν) :=
  (document f64 (input.length + 1) input).1

end Values
end JammVpn.JsonParser

-- JSON values, as the importers see them.
namespace JammVpn

open Text

-- Of a number only the natural number that it is matters, if it is one.
inductive JsonValue
  | null
  | bool (b : Bool)
  | number (n : Option Nat)
  | string (s : String)
  | array (l : List JsonValue)
  | object (l : List (String × JsonValue))

namespace JsonValue

-- The first entry of an object with this key.
def get (key : String) : JsonValue → Option JsonValue
  | object l => (l.find? (·.1 == key)).map Prod.snd
  | _        => none

def asStr : JsonValue → Option String
  | string s => some s
  | _        => none

def asArray : JsonValue → Option (List JsonValue)
  | array l => some l
  | _       => none

def asU64 : JsonValue → Option Nat
  | number n => n
  | _        => none

-- A number, or a text with a number.
def asU16Port (v : JsonValue) : Option Nat :=
  match v.asU64 with
  | some n => if n < 65536 then some n else none
  | none   => v.asStr.bind fun s => parseUnsigned 65536 s.toList

-- What `as_u64` reads a number as stands for the number.
def ofValue : Json.Value (Option Nat) → JsonValue
  | .null     => null
  | .bool b   => bool b
  | .number n => number n
  | .string s => string s
  | .array l  => array (ofItems l)
  | .object l => object (ofFields l)
where
  ofItems : List (Json.Value (Option Nat)) → List JsonValue
    | []     => []
    | v :: l => ofValue v :: ofItems l
  ofFields : List (String × Json.Value (Option Nat)) → List (String × JsonValue)
    | []          => []
    | (k, v) :: l => (k, ofValue v) :: ofFields l

-- The numbers are read by `f64`. The parser ends with no fault but an error.
def parse (f64 : List Char → Option (Option Nat)) (input : List Char) : Except ParseError JsonValue :=
  match JsonParser.parse f64 input with
  | .ok v             => .ok (ofValue v)
  | .error (.error e) => .error e
  | .error _          => .error (.json "некорректный JSON")

-- A text that is not empty.
def asText (v : JsonValue) : Option String :=
  v.asStr.filter (· != "")

end JsonValue
end JammVpn
