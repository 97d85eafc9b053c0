import JammVpn.Lib.Text

-- JSON texts, by the grammar of RFC 8259.
namespace Json

open Text

inductive Value (ν : Type)
  | null
  | bool (b : Bool)
  | number (n : ν)
  | string (s : String)
  | array (l : List (Value ν))
  | object (l : List (String × Value ν))

def Value.IsNumber {ν : Type} : Value ν → Prop
  | .number _ => True
  | _         => False

def IsBlank (c : Char) : Prop :=
  c = ' ' ∨ c = '\t' ∨ c = '\n' ∨ c = '\r'

instance : DecidablePred IsBlank :=
  fun c => inferInstanceAs (Decidable (c = ' ' ∨ c = '\t' ∨ c = '\n' ∨ c = '\r'))

def Blanks (w : List Char) : Prop :=
  ∀ c ∈ w, IsBlank c

section Numbers

def Digits (s : List Char) : Prop :=
  s ≠ [] ∧ ∀ c ∈ s, c.isDigit = true

-- There are no zeros in front.
def IntText (s : List Char) : Prop :=
  Digits s ∧ (s.head? = some '0' → s = ['0'])

def FracText (s : List Char) : Prop :=
  s = [] ∨ ∃ ds, s = '.' :: ds ∧ Digits ds

def ExpText (s : List Char) : Prop :=
  s = [] ∨ ∃ e sign ds, s = e :: (sign ++ ds) ∧ (e = 'e' ∨ e = 'E') ∧
    (sign = [] ∨ sign = ['+'] ∨ sign = ['-']) ∧ Digits ds

def NumberText (s : List Char) : Prop :=
  ∃ sign int frac exp, s = sign ++ (int ++ (frac ++ exp)) ∧ (sign = [] ∨ sign = ['-']) ∧ IntText int ∧
    FracText frac ∧ ExpText exp

structure Numeral where
  text       : List Char
  numberText : NumberText text

end Numbers

section Strings

structure Hex4 (h : List Char) (n : Nat) : Prop where
  digits : ∃ a b c d x y z w, h = [a, b, c, d] ∧ toDigit 16 a = some x ∧ toDigit 16 b = some y ∧
    toDigit 16 c = some z ∧ toDigit 16 d = some w ∧ n = ((x * 16 + y) * 16 + z) * 16 + w

-- A character as it is, with a short escape, with its number, or with the two numbers of its surrogates.
inductive CharText : Char → List Char → Prop
  | raw {c : Char} (h : 0x20 ≤ c.toNat) (hq : c ≠ '"') (hb : c ≠ '\\') : CharText c [c]
  | quote : CharText '"' ['\\', '"']
  | backslash : CharText '\\' ['\\', '\\']
  | slash : CharText '/' ['\\', '/']
  | backspace : CharText '\x08' ['\\', 'b']
  | formFeed : CharText '\x0c' ['\\', 'f']
  | lineFeed : CharText '\n' ['\\', 'n']
  | carriageReturn : CharText '\r' ['\\', 'r']
  | tab : CharText '\t' ['\\', 't']
  | unicode {c : Char} {h : List Char} (hc : Hex4 h c.toNat) : CharText c ('\\' :: 'u' :: h)
  | pair {c : Char} {h l : List Char} (hc : 0x10000 ≤ c.toNat)
      (hh : Hex4 h (0xd800 + (c.toNat - 0x10000) / 0x400))
      (hl : Hex4 l (0xdc00 + (c.toNat - 0x10000) % 0x400)) : CharText c ('\\' :: 'u' :: (h ++ '\\' :: 'u' :: l))

inductive CharsText : List Char → List Char → Prop
  | nil : CharsText [] []
  | cons {c : Char} {s t ts : List Char} (hc : CharText c t) (hs : CharsText s ts) : CharsText (c :: s) (t ++ ts)

def StringText (s : String) (t : List Char) : Prop :=
  ∃ body, t = '"' :: (body ++ ['"']) ∧ CharsText s.toList body

end Strings

-- A value in an array, with the blanks around it.
structure Item (ν : Type) where
  before : List Char
  value  : Value ν
  text   : List Char
  after  : List Char

def Item.render {ν : Type} (i : Item ν) : List Char :=
  i.before ++ (i.text ++ i.after)

-- A value in an object, with its key.
structure Member (ν : Type) extends Item ν where
  keyBefore : List Char
  key       : String
  keyText   : List Char
  keyAfter  : List Char

def Member.render {ν : Type} (m : Member ν) : List Char :=
  m.keyBefore ++ (m.keyText ++ (m.keyAfter ++ ':' :: m.toItem.render))

def Member.entry {ν : Type} (m : Member ν) : String × Value ν :=
  (m.key, m.value)

variable {ν : Type} (num : Numeral → ν)

-- The text is one of the texts of the value.
inductive Renders : Value ν → List Char → Prop
  | null : Renders .null "null".toList
  | true : Renders (.bool true) "true".toList
  | false : Renders (.bool false) "false".toList
  | number (n : Numeral) : Renders (.number (num n)) n.text
  | string {s : String} {t : List Char} (h : StringText s t) : Renders (.string s) t
  | emptyArray {w : List Char} (hw : Blanks w) : Renders (.array []) ('[' :: (w ++ [']']))
  | array {l : List (Item ν)} (hne : l ≠ []) (hw : ∀ i ∈ l, Blanks i.before ∧ Blanks i.after)
      (h : ∀ i ∈ l, Renders i.value i.text) :
      Renders (.array (l.map Item.value)) ('[' :: ([','].intercalate (l.map Item.render) ++ [']']))
  | emptyObject {w : List Char} (hw : Blanks w) : Renders (.object []) ('{' :: (w ++ ['}']))
  | object {l : List (Member ν)} (hne : l ≠ [])
      (hw : ∀ m ∈ l, Blanks m.keyBefore ∧ Blanks m.keyAfter ∧ Blanks m.before ∧ Blanks m.after)
      (hk : ∀ m ∈ l, StringText m.key m.keyText) (h : ∀ m ∈ l, Renders m.value m.text) :
      Renders (.object (l.map Member.entry)) ('{' :: ([','].intercalate (l.map Member.render) ++ ['}']))

def TextOf (v : Value ν) (t : List Char) : Prop :=
  ∃ before text after, t = before ++ (text ++ after) ∧ Blanks before ∧ Blanks after ∧ Renders num v text

end Json
