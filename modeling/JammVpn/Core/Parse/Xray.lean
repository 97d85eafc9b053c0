import JammVpn.Core.Json
import JammVpn.Core.Parse.Link

-- The outbounds of Xray.
namespace JammVpn.Xray

open JsonValue Link Text

def kindOf (protocol : String) : Except ParseError ProtocolKind :=
  match protocol with
  | "vless"       => .ok .vless
  | "shadowsocks" => .ok .shadowsocks
  | "trojan"      => .ok .trojan
  | "socks"       => .ok .socks5
  | "http"        => .ok .http
  | other         => .error (.unknownScheme other)

-- Only texts that are not empty are taken.
def insertStr (key : String) (value : Option JsonValue) (params : Params) : Params :=
  match value.bind asText with
  | some s => params.insert key s
  | none   => params

def addressPort (node : JsonValue) : Except ParseError (String × Nat) := do
  let address ← orError (.missingField "address") ((node.get "address").bind asStr)
  let port ← orError .missingPort ((node.get "port").bind asU16Port)
  return (address, port)

-- The first element of an array.
def firstOf (key : String) (v : JsonValue) : Option JsonValue :=
  ((v.get key).bind asArray).bind List.head?

def extractVless (node : JsonValue) (params : Params) : Except ParseError ((String × Nat) × Params) := do
  let ap ← addressPort node
  let user ← orError (.missingField "users") (firstOf "users" node)
  let uuid ← orError (.missingField "id") ((user.get "id").bind asStr)
  let params := params.insert "uuid" uuid
  let params := insertStr "flow" (user.get "flow") params
  return (ap, insertStr "encryption" (user.get "encryption") params)

-- A text that must be there.
def requireStr (key : String) (v : JsonValue) : Except ParseError String :=
  orError (.missingField key) ((v.get key).bind asStr)

def extractServer (kind : ProtocolKind) (server : JsonValue) (params : Params) :
    Except ParseError ((String × Nat) × Params) := do
  let ap ← addressPort server
  match kind with
  | .shadowsocks =>
    let method ← requireStr "method" server
    let password ← requireStr "password" server
    return (ap, (params.insert "method" method).insert "password" password)
  | .trojan =>
    let password ← requireStr "password" server
    return (ap, params.insert "password" password)
  | _ => return (ap, params)

-- An object in another one, if it is there.
def within (v : JsonValue) (key : String) (f : JsonValue → Params → Params) (params : Params) : Params :=
  match v.get key with
  | some inner => f inner params
  | none       => params

def extractStream (stream : JsonValue) (params : Params) : Params :=
  let params := insertStr "type" (stream.get "network") params
  let params := insertStr "security" (stream.get "security") params
  let params := within stream "tlsSettings" (fun tls => insertStr "sni" (tls.get "serverName")) params
  let params := within stream "realitySettings" (fun reality params =>
    let params := insertStr "sni" (reality.get "serverName") params
    let params := insertStr "pbk" (reality.get "publicKey") params
    let params := insertStr "sid" (reality.get "shortId") params
    insertStr "fp" (reality.get "fingerprint") params) params
  let params := within stream "wsSettings" (fun ws params =>
    let params := insertStr "path" (ws.get "path") params
    insertStr "host" ((ws.get "headers").bind (·.get "Host")) params) params
  within stream "grpcSettings" (fun grpc => insertStr "servicename" (grpc.get "serviceName")) params

def parseOutbound (ob : JsonValue) : Except ParseError ServerProfile := do
  let protocol ← orError (.missingField "protocol") ((ob.get "protocol").bind asStr)
  let kind ← kindOf protocol
  let settings := ob.get "settings"
  let ((address, port), params) ←
    if kind = .vless then do
      let node ← orError (.missingField "vnext") (settings.bind (firstOf "vnext"))
      extractVless node .empty
    else do
      let server ← orError (.missingField "servers") (settings.bind (firstOf "servers"))
      extractServer kind server .empty
  let params := within ob "streamSettings" extractStream params
  let name := ((ob.get "tag").bind asText).getD (address ++ ":" ++ .ofList (decimal port))
  return { name, protocol := kind, address, port, params, tags := [] }

-- The tag of a balancer and the fronts of the tags of its nodes. An empty front would take every node.
def balancer (b : JsonValue) : Option (String × List (List Char)) :=
  match (b.get "tag").bind asStr with
  | none     => none
  | some tag =>
    let sel := (((b.get "selector").bind asArray).getD []).filterMap asStr
    let sel := (sel.map fun s => trim s.toList).filter (· ≠ [])
    if sel.isEmpty then none else some (tag, sel)

def balancerOf (balancers : List (String × List (List Char))) (tag : String) : Option String :=
  (balancers.find? fun b => b.2.any (·.isPrefixOf tag.toList)).map Prod.fst

-- The nodes of one of several configs. What is no proxy is left out.
def parseConfigEntry (config : JsonValue) : List (Except ParseError ServerProfile) :=
  let remarks := (((config.get "remarks").bind asStr).map fun s => trim s.toList).filter (· ≠ [])
  let balancers :=
    ((((config.get "routing").bind (·.get "balancers")).bind asArray).getD []).filterMap balancer
  match (config.get "outbounds").bind asArray with
  | none     => []
  | some obs =>
    let results := obs.map fun ob =>
      let tag := ((ob.get "tag").bind asStr).getD ""
      (parseOutbound ob).map fun p =>
        let p :=
          match remarks with
          | some rem => { p with name := String.ofList rem ++ " · " ++ p.name }
          | none     => p
        match balancerOf balancers tag with
        | some b => { p with params := p.params.insert "balancer" b }
        | none   => p
    results.filter fun r =>
      match r with
      | .error (.unknownScheme _)           => false
      | .error (.missingField "protocol")   => false
      | _                                   => true

def parseXrayConfig (f64 : List Char → Option (Option Nat)) (input : List Char) :
    List (Except ParseError ServerProfile) :=
  match JsonValue.parse f64 input with
  | .error e => [.error e]
  | .ok root =>
    let configs := (root.asArray.getD []).any fun c => (c.get "outbounds").isSome
    if configs then (root.asArray.getD []).flatMap parseConfigEntry
    else
      match (root.get "outbounds").bind asArray, root.asArray with
      | some arr, _    => arr.map parseOutbound
      | none, some arr => arr.map parseOutbound
      | none, none     =>
        if (root.get "protocol").isSome then [parseOutbound root]
        else [.error (.missingField "outbounds")]

end JammVpn.Xray
