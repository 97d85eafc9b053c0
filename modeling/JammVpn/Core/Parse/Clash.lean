import JammVpn.Core.Parse.Link

-- The proxies of Clash and Clash.Meta. This is no parser of YAML: an entry is a list of scalars, one on a line
-- or all in a flow map.
namespace JammVpn.Clash

open Link Text

abbrev Item := List (String × String)

-- The number of the spaces in front.
def indent (s : List Char) : Nat :=
  (s.takeWhile (· == ' ')).length

-- Takes a pair of quotes off.
def unquote (s : List Char) : List Char :=
  let s := trim s
  if 2 ≤ s.length ∧ ((s.head? = some '"' ∧ s.getLast? = some '"') ∨ (s.head? = some '\'' ∧ s.getLast? = some '\''))
  then s.tail.dropLast
  else s

-- What stands between two characters.
def within (left right : Char) (s : List Char) : Option (List Char) :=
  (stripPrefix [left] s).bind (stripSuffix [right])

def flowList (inner : List Char) : List Char :=
  [','].intercalate (((split ',' inner).map unquote).filter (· ≠ []))

-- The key and the value of `key: value`; a map is no value.
def keyValue (s : List Char) : Option (String × String) :=
  match splitOnce ':' s with
  | none        => none
  | some (k, v) =>
    let key := trim k
    if key.isEmpty then none
    else
      let v := trim v
      match within '[' ']' v with
      | some inner => some (.ofList key, .ofList (flowList inner))
      | none       => if v.head? = some '{' then none else some (.ofList key, .ofList (unquote v))

def pushKv (s : List Char) (out : Item) : Item :=
  out ++ (keyValue s).toList

-- The pieces between the commas that are in no brackets.
def flowPieces (depth : Int) : List Char → List (List Char)
  | []      => [[]]
  | c :: cs =>
    if c = ',' ∧ depth = 0 then [] :: flowPieces depth cs
    else
      let depth := if c = '[' ∨ c = '{' then depth + 1 else if c = ']' ∨ c = '}' then depth - 1 else depth
      match flowPieces depth cs with
      | []          => [[c]]
      | piece :: tl => (c :: piece) :: tl

def parseFlowMap (inner : List Char) (out : Item) : Item :=
  (flowPieces 0 inner).foldl (fun out piece => pushKv piece out) out

def mapType (kind : String) : Except ParseError ProtocolKind :=
  match kind with
  | "ss"          => .ok .shadowsocks
  | "shadowsocks" => .ok .shadowsocks
  | "trojan"      => .ok .trojan
  | "vless"       => .ok .vless
  | "tuic"        => .ok .tuic
  | "hysteria2"   => .ok .hysteria2
  | "hy2"         => .ok .hysteria2
  | "socks5"      => .ok .socks5
  | "socks"       => .ok .socks5
  | "http"        => .ok .http
  | other         => .error (.unknownScheme other)

-- The first value of a key, and only if it is not empty.
def nonEmpty (kv : Item) (key : String) : Option String :=
  (kv.lookup key).filter (· ≠ "")

def req (kv : Item) (src key : String) (params : Params) : Except ParseError Params := do
  let val ← orError (.missingField key) (nonEmpty kv src)
  return params.insert key val

def opt (kv : Item) (src key : String) (params : Params) : Params :=
  match nonEmpty kv src with
  | some v => params.insert key v
  | none   => params

def itemParams (kv : Item) (protocol : ProtocolKind) : Except ParseError Params :=
  match protocol with
  | .shadowsocks => do
    let params ← req kv "cipher" "method" .empty
    req kv "password" "password" params
  | .trojan => do
    let params ← req kv "password" "password" .empty
    let params := opt kv "sni" "sni" params
    return opt kv "alpn" "alpn" params
  | .vless => do
    let params ← req kv "uuid" "uuid" .empty
    let params := opt kv "flow" "flow" params
    let params := opt kv "servername" "sni" params
    let params := opt kv "sni" "sni" params
    let params := opt kv "network" "type" params
    let params := opt kv "client-fingerprint" "fp" params
    return opt kv "alpn" "alpn" params
  | .tuic => do
    let params ← req kv "uuid" "uuid" .empty
    let params ← req kv "password" "password" params
    let params := opt kv "sni" "sni" params
    return opt kv "alpn" "alpn" params
  | .hysteria2 => do
    let params ← req kv "password" "auth" .empty
    let params := opt kv "sni" "sni" params
    let params := opt kv "obfs" "obfs" params
    return opt kv "obfs-password" "obfs-password" params
  | .socks5 => .ok (opt kv "password" "password" (opt kv "username" "username" .empty))
  | .http   => .ok (opt kv "password" "password" (opt kv "username" "username" .empty))
  | _       => .ok .empty

def itemToProfile (kv : Item) : Except ParseError ServerProfile := do
  let kind ← orError (.missingField "type") (kv.lookup "type")
  let protocol ← mapType kind
  let address ← orError .missingHost (nonEmpty kv "server")
  let port ← orError .missingPort (((kv.lookup "port").bind fun p => parseUnsigned 65536 p.toList).filter (· ≠ 0))
  let params ← itemParams kv protocol
  let name := (nonEmpty kv "name").getD (address ++ ":" ++ .ofList (decimal port))
  return { name, protocol, address, port, params, tags := [] }

-- Whether a line is the header of the section.
def isHeader (l : List Char) : Bool :=
  match stripPrefix "proxies:".toList (trimStart l) with
  | some after => (trim after).isEmpty
  | none       => false

-- The indentation of the first header, and the lines behind it.
def findSection : List (List Char) → Option (Nat × List (List Char))
  | []         => none
  | l :: lines => if isHeader l then some (indent l, lines) else findSection lines

-- What is behind the dash of an element.
def firstPairs (rest : List Char) : Item :=
  match within '{' '}' rest with
  | some inner => parseFlowMap inner []
  | none       => if rest.isEmpty then [] else pushKv rest []

def collect (baseIndent : Nat) (items : List Item) (cur : Option Item) : List (List Char) → List Item
  | []           => items ++ cur.toList
  | raw :: lines =>
    let line := trimEnd raw
    let body := trimStart line
    if body.isEmpty ∨ body.head? = some '#' then collect baseIndent items cur lines
    -- A line that is no element and not deeper than the header ends the section.
    else if indent line ≤ baseIndent ∧ body.head? ≠ some '-' then items ++ cur.toList
    else
      match stripPrefix ['-'] body with
      | some rest => collect baseIndent (items ++ cur.toList) (some (firstPairs (trim rest))) lines
      | none      => collect baseIndent items (cur.map (pushKv body)) lines

def parseClash (input : List Char) : List (Except ParseError ServerProfile) :=
  match findSection (lines input) with
  | none                     => [.error (.json "нет секции proxies")]
  | some (baseIndent, lines) =>
    let items := collect baseIndent [] none lines
    if items.isEmpty then [.error (.json "секция proxies пуста")]
    else items.map itemToProfile

end JammVpn.Clash
