import JammVpn.Core.Json
import JammVpn.Core.Parse.Link

-- The outbounds of sing-box.
namespace JammVpn.Singbox

open JsonValue Link Text

def mapType (kind : String) : Except ParseError ProtocolKind :=
  match kind with
  | "vless"       => .ok .vless
  | "shadowsocks" => .ok .shadowsocks
  | "trojan"      => .ok .trojan
  | "wireguard"   => .ok .wireguard
  | "socks"       => .ok .socks5
  | "http"        => .ok .http
  | "hysteria2"   => .ok .hysteria2
  | "tuic"        => .ok .tuic
  | other         => .error (.unknownScheme other)

-- Any text is taken, also an empty one.
def insertStr (key : String) (value : Option JsonValue) (params : Params) : Params :=
  match value.bind asStr with
  | some s => params.insert key s
  | none   => params

def insertField (ob : JsonValue) (src key : String) (params : Params) : Except ParseError Params :=
  match (ob.get src).bind asText with
  | some value => .ok (params.insert key value)
  | none       => .error (.missingField key)

def insertOpt (ob : JsonValue) (src key : String) (params : Params) : Params :=
  match (ob.get src).bind asText with
  | some value => params.insert key value
  | none       => params

def insertAlpn (tls : JsonValue) (params : Params) : Params :=
  match (tls.get "alpn").bind asArray with
  | some alpn =>
    let joined := ",".intercalate (alpn.filterMap asStr)
    if joined = "" then params else params.insert "alpn" joined
  | none => params

def parseTls (ob : JsonValue) (params : Params) : Params :=
  match ob.get "tls" with
  | none     => params
  | some tls =>
    let params := insertStr "sni" (tls.get "server_name") params
    let params :=
      match tls.get "reality" with
      | some reality =>
        let params := insertStr "pbk" (reality.get "public_key") params
        insertStr "sid" (reality.get "short_id") params
      | none => params
    let params := insertStr "fp" ((tls.get "utls").bind (·.get "fingerprint")) params
    insertAlpn tls params

def parseTransport (ob : JsonValue) (params : Params) : Params :=
  match ob.get "transport" with
  | none           => params
  | some transport =>
    let params := insertStr "type" (transport.get "type") params
    let params := insertStr "path" (transport.get "path") params
    insertStr "host" ((transport.get "headers").bind (·.get "Host")) params

-- What a protocol must have, and what it can have.
def insertCredentials (protocol : ProtocolKind) (ob : JsonValue) (params : Params) : Except ParseError Params :=
  match protocol with
  | .vless => do
    let params ← insertField ob "uuid" "uuid" params
    return insertOpt ob "flow" "flow" params
  | .tuic => do
    let params ← insertField ob "uuid" "uuid" params
    insertField ob "password" "password" params
  | .shadowsocks => do
    let params ← insertField ob "method" "method" params
    insertField ob "password" "password" params
  | .trojan    => insertField ob "password" "password" params
  | .hysteria2 => insertField ob "password" "password" params
  | _          => .ok params

def parseOutbound (ob : JsonValue) : Except ParseError ServerProfile := do
  let kind ← orError (.missingField "type") ((ob.get "type").bind asStr)
  let protocol ← mapType kind
  let address ← orError .missingHost ((ob.get "server").bind asText)
  let port ← orError .missingPort ((ob.get "server_port").bind asU16Port)
  let params ← insertCredentials protocol ob .empty
  let params := parseTransport ob (parseTls ob params)
  let name := ((ob.get "tag").bind asText).getD (address ++ ":" ++ .ofList (decimal port))
  return { name, protocol, address, port, params, tags := [] }

def parseSingboxConfig (f64 : List Char → Option (Option Nat)) (input : List Char) :
    List (Except ParseError ServerProfile) :=
  match JsonValue.parse f64 input with
  | .error e => [.error e]
  | .ok root =>
    match root with
    | .object _ =>
      match (root.get "outbounds").bind asArray with
      | some arr => arr.map parseOutbound
      | none     =>
        if (root.get "type").isSome then [parseOutbound root]
        else [.error (.json "нет ключа outbounds")]
    | .array arr => arr.map parseOutbound
    | _          => [.error (.json "ожидался объект или массив")]

end JammVpn.Singbox
