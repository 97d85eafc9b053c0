import JammVpn.Core.Base64
import JammVpn.Net.Http

namespace JammVpn.Fetch

open Text

inductive Scheme
  | http
  | https
  deriving DecidableEq

namespace Scheme

def text : Scheme → List Char
  | .https => "https://".toList
  | .http  => "http://".toList

def defaultPort : Scheme → Nat
  | .https => 443
  | .http  => 80

end Scheme

-- The scheme of a URL, and what follows it.
def stripScheme (url : List Char) : Option (Scheme × List Char) :=
  match stripPrefix Scheme.https.text url with
  | some rest => some (.https, rest)
  | none      => (stripPrefix Scheme.http.text url).map fun rest => (.http, rest)

-- `http(s)://host[:port][/path]` as scheme, host, port and path.
def parseUrl (url : List Char) : Except String (Scheme × List Char × Nat × List Char) :=
  match stripScheme url with
  | none                => .error "подписка: только http:// и https://"
  | some (scheme, rest) =>
    let authority := rest.takeWhile (· != '/')
    let path := rest.dropWhile (· != '/')
    let path := if path.isEmpty then ['/'] else path
    if authority.isEmpty then .error "подписка: пустой host"
    else match rsplitOnce ':' authority with
      | none        => .ok (scheme, authority, scheme.defaultPort, path)
      | some (h, p) =>
        match parseUnsigned 65536 p with
        | some port => .ok (scheme, h, port, path)
        | none      => .error "подписка: некорректный порт"

-- The bytes in front of the pattern, and those behind it.
def cutAt (p : List UInt8) : List UInt8 → Option (List UInt8 × List UInt8)
  | []      => none
  | b :: bs =>
    match stripPrefix p (b :: bs) with
    | some rest => some ([], rest)
    | none      => (cutAt p bs).map fun (line, rest) => (b :: line, rest)

-- The number at the front of the line of a chunk; a line that is no text has none.
def chunkSize (line : List UInt8) : Option Nat :=
  let sizeLine := (Utf8.decode line).getD []
  fromStrRadix 16 (2 ^ 64) (trim ((split ';' sizeLine).headD []))

-- The fuel is the number of bytes: every chunk takes some, and nothing is left when it is used up.
def dechunkLoop (out : List UInt8) : Nat → List UInt8 → Except String (List UInt8)
  | 0, _        => .error "подписка: битый chunk"
  | n + 1, data =>
    match cutAt Http.crlf data with
    | none              => .error "подписка: битый chunk"
    | some (line, data) =>
      match chunkSize line with
      | none      => .error "подписка: битый размер chunk"
      | some size =>
        if size = 0 then .ok out
        else if data.length < size then .error "подписка: chunk обрезан"
        else
          let rest := data.drop size
          dechunkLoop (out ++ data.take size) n ((stripPrefix Http.crlf rest).getD rest)

def dechunk (data : List UInt8) : Except String (List UInt8) :=
  dechunkLoop [] data.length data

-- The name of a subscription, in base64 or as it is.
def decodeProfileTitle (raw : List Char) : Option String := do
  let v := trim raw
  let name ← match stripPrefix "base64:".toList v with
    | some b64 => (Base64.decodeToString (.ofList (trim b64))).toOption
    | none     => some (.ofList v)
  let name := trim name.toList
  if name.isEmpty then none else some (.ofList name)

structure RawResp where
  status   : Nat
  location : Option (List Char)
  body     : List UInt8
  title    : Option String
  deriving DecidableEq

-- The fields of the head that have been seen.
structure Head where
  location : Option (List Char) := none
  chunked  : Bool := false
  title    : Option String := none

def headerValue (l : List Char) : List Char :=
  ((splitOnce ':' l).map Prod.snd).getD []

def readHeader (h : Head) (l : List Char) : Head :=
  let ll := l.map toAsciiLowercase
  let startsWith (name : String) : Bool := (stripPrefix name.toList ll).isSome
  let h := if startsWith "location:" then { h with location := some (trim (headerValue l)) } else h
  let h := if startsWith "profile-title:" then { h with title := decodeProfileTitle (headerValue l) } else h
  let chunked := startsWith "transfer-encoding:" && (splitOnceOn "chunked".toList ll).isSome
  if chunked then { h with chunked := true } else h

def statusOf (line : List Char) : Nat :=
  ((splitWhitespace line)[1]?.bind (parseUnsigned 65536)).getD 0

def readResponse (raw : List UInt8) : Except String RawResp := do
  match cutAt (Http.crlf ++ Http.crlf) raw with
  | none              => .error "нет заголовков HTTP"
  | some (head, body) =>
    let lines := lines (Utf8.decodeLossy head)
    let h := lines.tail.foldl readHeader {}
    let body ← if h.chunked then dechunk body else .ok body
    return ⟨statusOf (lines.headD []), h.location, body, h.title⟩

def getRequest (host path : List Char) : List UInt8 :=
  Utf8.encode ("GET ".toList ++ path ++ " HTTP/1.1\r\nHost: ".toList ++ host ++
    "\r\nUser-Agent: jammvpn\r\nAccept: */*\r\nConnection: close\r\n\r\n".toList)

-- What a connection (with TLS for `https`) gives when the request is written and everything is read. An error
-- may be a timeout, and the network may answer every time in another way.
abbrev Network := Nat → Scheme → List Char → Nat → List UInt8 → Except String (List UInt8)

def fetchRaw (net : Network) (time : Nat) (url : List Char) : Except String RawResp := do
  let (scheme, host, port, path) ← parseUrl url
  let raw ← net time scheme host port (getRequest host path)
  readResponse raw

-- The texts of the errors of a download.
structure Wording where
  noLocation : String
  status     : Nat → String
  tooMany    : String

-- The address behind a redirection.
def nextUrl (current loc : List Char) : Except String (List Char) := do
  if (stripPrefix "http".toList loc).isSome then return loc
  else
    let (sch, host, _, _) ← parseUrl current
    return sch.text ++ host ++ loc

def redirects : List Nat :=
  [301, 302, 303, 307, 308]

-- The addresses that are fetched one after the other, and the last answer.
def follow (w : Wording) (net : Network) : Nat → Nat → List Char → List (List Char) × Except String RawResp
  | _, 0, _              => ([], .error w.tooMany)
  | time, n + 1, current =>
    match fetchRaw net time current with
    | .error e => ([current], .error e)
    | .ok resp =>
      if resp.status = 200 then ([current], .ok resp)
      else if resp.status ∈ redirects then
        match resp.location with
        | none     => ([current], .error w.noLocation)
        | some loc =>
          match nextUrl current loc with
          | .error e => ([current], .error e)
          | .ok next =>
            let (urls, r) := follow w net (time + 1) n next
            (current :: urls, r)
      else ([current], .error (w.status resp.status))

def numbered (text : String) (n : Nat) : String :=
  .ofList (text.toList ++ decimal n)

def subscriptionWording : Wording where
  noLocation := "подписка: редирект без Location"
  status     := numbered "подписка: статус "
  tooMany    := "подписка: слишком много редиректов"

def bytesWording : Wording where
  noLocation := "редирект без Location"
  status     := numbered "HTTP статус "
  tooMany    := "слишком много редиректов"

-- The text of a subscription and its name.
def fetchStringWithTitle (net : Network) (url : List Char) :
    List (List Char) × Except String (List Char × Option String) :=
  let (urls, r) := follow subscriptionWording net 0 6 url
  (urls, r.map fun resp => (Utf8.decodeLossy resp.body, resp.title))

def fetchBytes (net : Network) (url : List Char) : List (List Char) × Except String (List UInt8) :=
  let (urls, r) := follow bytesWording net 0 6 url
  (urls, r.map RawResp.body)

end JammVpn.Fetch
