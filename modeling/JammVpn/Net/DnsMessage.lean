import JammVpn.Lib.Bytes
import JammVpn.Lib.Ip
import JammVpn.Lib.Loop
import JammVpn.Lib.Text
import JammVpn.Lib.Utf8

-- The messages that are exchanged with a DNS server.
namespace JammVpn.Dns

open Bytes Ip Text

def typeA : UInt16 := 1
def typeAAAA : UInt16 := 28
def classIn : UInt16 := 1

def encodeLabels : List (List Char) → Except String (List UInt8)
  | []              => .ok []
  | label :: labels =>
    let bytes := Utf8.encode label
    if label.isEmpty then encodeLabels labels
    else if 63 < bytes.length then .error "dns: метка длиннее 63"
    else do
      let rest ← encodeLabels labels
      return .ofNat bytes.length :: (bytes ++ rest)

-- One question, with recursion desired.
def encodeQuery (id : UInt16) (name : String) (qtype : UInt16) : Except String (List UInt8) := do
  let labels ← encodeLabels (split '.' (trimEndMatches '.' name.toList))
  return toBe 2 id.toNat ++ toBe 2 0x0100 ++ toBe 2 1 ++ [0, 0, 0, 0, 0, 0] ++
    labels ++ [0] ++ toBe 2 qtype.toNat ++ toBe 2 classIn.toNat

-- A reader is at a position of the buffer, and behind the end there is nothing left. A slice is so much
-- shorter than what a position can count that no sum of lengths overflows.
abbrev Reader (α : Type) :=
  Cursor UInt8 (Fault String) α

-- The number in the two bytes from this offset on.
def u16At (i : Nat) : Reader UInt16 := do
  let hi ← Cursor.indexAt i
  let lo ← Cursor.indexAt (i + 1)
  return .ofNat (ofBe [hi, lo])

-- A pointer ends a name, and need not be followed to skip it.
def skipTurn (steps : Nat) : Reader (Nat ⊕ Unit) := do
  if ← Cursor.eof then Cursor.fail "dns: имя за границей"
  else
    let len ← Cursor.index
    if len = 0 then
      Cursor.advance 1
      return .inr ()
    else if len &&& 0xc0 = 0xc0 then
      if (← Cursor.remaining) < 2 then Cursor.fail "dns: усечённый указатель"
      else
        Cursor.advance 2
        return .inr ()
    else if len &&& 0xc0 ≠ 0 then Cursor.fail "dns: неверный байт длины метки"
    else
      Cursor.advance (1 + len.toNat)
      if 128 < steps + 1 then Cursor.fail "dns: слишком длинное имя"
      else return .inl (steps + 1)

def skipName : Reader Unit :=
  Cursor.iterate skipTurn 0

-- The type and the class are behind the name.
def skipQuestion : Reader Unit := do
  skipName
  Cursor.advance 4

-- The addresses of both families. All other data is left out.
def readAddress (rtype : UInt16) (rdlen : Nat) : Reader (Option IpAddr) := do
  if rtype = typeA ∧ rdlen = 4 then
    let b ← Cursor.slice 4
    return some (.v4 (.ofNat 32 (ofBe b)))
  else if rtype = typeAAAA ∧ rdlen = 16 then
    let b ← Cursor.slice 16
    return some (.v6 (.ofNat 128 (ofBe b)))
  else return none

def readData (rtype : UInt16) (rdlen : Nat) : Reader (Option IpAddr) := do
  if (← Cursor.remaining) < rdlen then Cursor.fail "dns: усечённая RDATA"
  else
    let ip ← readAddress rtype rdlen
    Cursor.advance rdlen
    return ip

def readRecord : Reader (Option IpAddr) := do
  if (← Cursor.remaining) < 10 then Cursor.fail "dns: усечённая RR"
  else
    let rtype ← u16At 0
    let rdlen ← u16At 8
    Cursor.advance 10
    readData rtype rdlen.toNat

def readAnswer : Reader (Option IpAddr) := do
  skipName
  readRecord

def readSections (qdcount ancount : Nat) : Reader (List IpAddr) := do
  let _ ← Cursor.replicate skipQuestion qdcount
  let ips ← Cursor.replicate readAnswer ancount
  return ips.flatMap Option.toList

def readResponse (expectId : Option UInt16) : Reader (List IpAddr) := do
  if (← Cursor.remaining) < 12 then Cursor.fail "dns: ответ короче заголовка"
  else
    let id ← u16At 0
    if expectId.any (id ≠ ·) then Cursor.fail "dns: ID ответа не совпал"
    else
      let flags ← u16At 2
      let rcode := flags &&& 0x000f
      if rcode ≠ 0 then Cursor.fail ("dns: RCODE " ++ .ofList (decimal rcode.toNat))
      else
        let qdcount ← u16At 4
        let ancount ← u16At 6
        Cursor.advance 12
        readSections qdcount.toNat ancount.toNat

def decodeResponse (buf : List UInt8) (expectId : Option UInt16) : Except (Fault String) (List IpAddr) :=
  (readResponse expectId buf).1

end JammVpn.Dns
