import JammVpn.Core.Base64
import JammVpn.Core.Parse.Uri

-- Share links of the protocols.
namespace JammVpn.Link

open Text

abbrev Params := OrdMap String String

def queryToParams (query : List (String × String)) : Params :=
  .ofList query

def makeProfile (protocol : ProtocolKind) (host : String) (port : Nat) (params : Params)
    (fragment : Option String) : ServerProfile where
  name := (fragment.filter (· != "")).getD (host ++ ":" ++ .ofList (decimal port))
  protocol
  address := host
  port
  params
  tags := []

def orError {α : Type} (e : ParseError) : Option α → Except ParseError α
  | some a => .ok a
  | none   => .error e

-- A link whose user part is a single value, under this name.
def parseWithUser (protocol : ProtocolKind) (field : String) (s : List Char) :
    Except ParseError ServerProfile := do
  let uri ← Uri.parse s
  let user ← orError (.missingField field) uri.userinfo
  let port ← orError .missingPort uri.port
  let params := (queryToParams uri.query).insert field (percentDecode user.toList)
  return makeProfile protocol uri.host port params uri.fragment

def parseVless : List Char → Except ParseError ServerProfile :=
  parseWithUser .vless "uuid"

def parseTrojan : List Char → Except ParseError ServerProfile :=
  parseWithUser .trojan "password"

def parseHysteria2 (s : List Char) : Except ParseError ServerProfile := do
  let uri ← Uri.parse s
  let port ← orError .missingPort uri.port
  let params := queryToParams uri.query
  let params :=
    match uri.userinfo.filter (· != "") with
    | some auth => params.insert "auth" (percentDecode auth.toList)
    | none      => params
  return makeProfile .hysteria2 uri.host port params uri.fragment

-- One or two values in the user part.
def insertUser (params : Params) (first second : String) (userinfo : List Char) : Params :=
  match splitOnce ':' userinfo with
  | some (a, b) => (params.insert first (percentDecode a)).insert second (percentDecode b)
  | none        => params.insert first (percentDecode userinfo)

def parseTuic (s : List Char) : Except ParseError ServerProfile := do
  let uri ← Uri.parse s
  let userinfo ← orError (.missingField "uuid") uri.userinfo
  let port ← orError .missingPort uri.port
  let params := insertUser (queryToParams uri.query) "uuid" "password" userinfo.toList
  return makeProfile .tuic uri.host port params uri.fragment

def proxyProfile (kind : ProtocolKind) (s : List Char) : Except ParseError ServerProfile := do
  let uri ← Uri.parse s
  let port ← orError .missingPort uri.port
  let params := queryToParams uri.query
  let params :=
    match uri.userinfo.filter (· != "") with
    | some ui => insertUser params "username" "password" ui.toList
    | none    => params
  return makeProfile kind uri.host port params uri.fragment

section Shadowsocks

def decodeUserinfo (u : List Char) : Except ParseError (List Char) :=
  let pd := (percentDecode u).toList
  match Base64.decodeToString (.ofList u) with
  | .ok decoded =>
    if ':' ∈ decoded.toList then .ok decoded.toList
    else if ':' ∈ pd then .ok pd
    else .error (.missingField "method:password")
  | .error _ => if ':' ∈ pd then .ok pd else .error (.missingField "method:password")

structure SsParts where
  method   : String
  password : String
  host     : String
  port     : Nat

-- A path behind the port is not part of it.
def ssFromParts (creds hostport : List Char) : Except ParseError SsParts := do
  let (method, password) ← orError (.missingField "method:password") (splitOnce ':' creds)
  let (host, port) ← Uri.splitHostPort ((split '/' hostport).headD hostport)
  let port ← orError .missingPort port
  return { method := .ofList method, password := .ofList password, host, port }

-- The keys of the transport; `allowInsecure` has a second spelling.
def ssKey (k : String) : Option String :=
  if k = "allowInsecure" then some "allow_insecure"
  else if k ∈ ["security", "sni", "alpn", "fp", "insecure", "allow_insecure"] then some k
  else none

def ssPair (params : Params) (pair : List Char) : Params :=
  let (k, v) :=
    match splitOnce '=' pair with
    | some (k, v) => (k, percentDecode v)
    | none        => (pair, "")
  match ssKey (.ofList k) with
  | some key => params.insert key v
  | none     => params

-- With the credentials in base64 (SIP002), or all of the link.
def parseShadowsocks (s : List Char) : Except ParseError ServerProfile := do
  match splitOnceOn "://".toList s with
  | none           => .error (.malformedUrl (.ofList s))
  | some (_, rest) =>
    let (beforeFrag, fragment) := Uri.cut '#' rest
    let (body, query) := Uri.cut '?' beforeFrag
    let parts ←
      match rsplitOnce '@' body with
      | some (creds, hostport) => do
        let creds ← decodeUserinfo creds
        ssFromParts creds hostport
      | none => do
        let decoded ← Base64.decodeToString (.ofList body)
        let (creds, hostport) ← orError (.malformedUrl decoded) (rsplitOnce '@' decoded.toList)
        ssFromParts creds hostport
    let params := ((OrdMap.empty.insert "method" parts.method).insert "password" parts.password)
    let params := ((split '&' (query.getD [])).filter fun p => !p.isEmpty).foldl ssPair params
    return makeProfile .shadowsocks parts.host parts.port params (fragment.map percentDecode)

end Shadowsocks

-- The parser of the scheme.
def byScheme (scheme : String) (s : List Char) : Except ParseError ServerProfile :=
  match scheme with
  | "vless"     => parseVless s
  | "trojan"    => parseTrojan s
  | "ss"        => parseShadowsocks s
  | "socks"     => proxyProfile .socks5 s
  | "socks5"    => proxyProfile .socks5 s
  | "http"      => proxyProfile .http s
  | "https"     => proxyProfile .http s
  | "hysteria2" => parseHysteria2 s
  | "hy2"       => parseHysteria2 s
  | "tuic"      => parseTuic s
  | other       => .error (.unknownScheme other)

def parseLink (input : List Char) : Except ParseError ServerProfile :=
  let s := trim input
  if s.isEmpty then .error .emptyInput
  else
    match splitOnceOn "://".toList s with
    | none             => .error (.malformedUrl (.ofList s))
    | some (scheme, _) => byScheme (asciiLower (.ofList scheme)) s

end JammVpn.Link
