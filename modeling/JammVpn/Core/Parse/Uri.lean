import JammVpn.Core.Model
import JammVpn.Lib.Utf8

-- Share links as URIs: `scheme://[userinfo@]host[:port][?query][#fragment]`.
namespace JammVpn

open Text

def hexVal (b : UInt8) : Option UInt8 :=
  if 0x30 ≤ b ∧ b ≤ 0x39 then some (b - 0x30)
  else if 0x61 ≤ b ∧ b ≤ 0x66 then some (b - 0x61 + 10)
  else if 0x41 ≤ b ∧ b ≤ 0x46 then some (b - 0x41 + 10)
  else none

-- What is no escape sequence stays as it is.
def percentDecodeBytes : List UInt8 → List UInt8
  | b :: h :: l :: rest =>
    match b == 0x25, hexVal h, hexVal l with
    | true, some hi, some lo => (hi <<< 4 ||| lo) :: percentDecodeBytes rest
    | _, _, _                => b :: percentDecodeBytes (h :: l :: rest)
  | b :: bs => b :: percentDecodeBytes bs
  | []      => []

def percentDecode (s : List Char) : String :=
  .ofList (Utf8.decodeLossy (percentDecodeBytes (Utf8.encode s)))

structure Uri where
  scheme   : String
  userinfo : Option String
  host     : String
  port     : Option Nat
  query    : List (String × String)
  fragment : Option String
  deriving DecidableEq

namespace Uri

-- IPv6 addresses are in brackets.
def splitHostPort (s : List Char) : Except ParseError (String × Option Nat) :=
  match stripPrefix ['['] s with
  | some rest =>
    match splitOnce ']' rest with
    | none               => .error (.malformedUrl (.ofList s))
    | some (host, after) =>
      match stripPrefix [':'] after with
      | none   => .ok (.ofList host, none)
      | some p =>
        match parseUnsigned 65536 p with
        | some port => .ok (.ofList host, some port)
        | none      => .error (.invalidPort (.ofList p))
  | none =>
    match rsplitOnce ':' s with
    | none           => .ok (.ofList s, none)
    | some (host, p) =>
      if host.isEmpty then .error .missingHost
      else
        match parseUnsigned 65536 p with
        | some port => .ok (.ofList host, some port)
        | none      => .error (.invalidPort (.ofList p))

def parsePair (pair : List Char) : String × String :=
  match splitOnce '=' pair with
  | some (k, v) => (percentDecode k, percentDecode v)
  | none        => (percentDecode pair, "")

def parseQuery (q : List Char) : List (String × String) :=
  ((split '&' q).filter fun p => !p.isEmpty).map parsePair

-- The text in front of a character, and what is behind it, if it is there.
def cut (c : Char) (s : List Char) : List Char × Option (List Char) :=
  match splitOnce c s with
  | some (a, b) => (a, some b)
  | none        => (s, none)

def parse (input : List Char) : Except ParseError Uri := do
  match splitOnceOn "://".toList input with
  | none                => .error (.malformedUrl (.ofList input))
  | some (scheme, rest) =>
    let (beforeFrag, fragment) := cut '#' rest
    let (authority, query) := cut '?' beforeFrag
    let (userinfo, hostport) :=
      match rsplitOnce '@' authority with
      | some (a, b) => (some a, b)
      | none        => (none, authority)
    if hostport.isEmpty then .error .missingHost
    else
      let (host, port) ← splitHostPort hostport
      return {
        scheme := asciiLower (.ofList scheme)
        userinfo := userinfo.map String.ofList
        host
        port
        query := (query.map parseQuery).getD []
        fragment := fragment.map percentDecode
      }

end Uri
end JammVpn
