import JammVpn.Core.Theorems.Uri
import JammVpn.Core.Parse.Awg

-- The links that the commands write for a node.
namespace JammVpn.Link

open Text

-- Everything that is not unreserved is encoded.
def pct (s : String) : List Char :=
  percentEncode s

def writePair (e : String × String) : List Char :=
  e.1.toList ++ '=' :: pct e.2

-- The keys are written as they are.
def writeQuery (q : List (String × String)) : List Char :=
  if q.isEmpty then [] else '?' :: ['&'].intercalate (q.map writePair)

def writeName (name : String) : List Char :=
  if name = "" then [] else '#' :: pct name

-- The keys of these that have a value, in this order.
def given (p : ServerProfile) (keys : List String) : List (String × String) :=
  keys.filterMap fun k => ((p.param k).filter (· != "")).map fun v => (k, v)

-- What follows the user part. An address with colons gets no brackets.
def writeRest (p : ServerProfile) (q : List (String × String)) : List Char :=
  p.address.toList ++ ':' :: (decimal p.port ++ (writeQuery q ++ writeName p.name))

def vlessKeys : List String :=
  ["type", "security", "encryption", "flow", "sni", "pbk", "sid", "fp", "host", "path", "alpn", "serviceName"]

def nodeToVlessLink (p : ServerProfile) : Option (List Char) := do
  if p.protocol ≠ .vless then none
  else
    let uuid ← p.param "uuid"
    return "vless://".toList ++ (uuid.toList ++ '@' :: writeRest p (given p vlessKeys))

def nodeToSsLink (p : ServerProfile) : Option (List Char) := do
  if p.protocol ≠ .shadowsocks then none
  else
    let method ← p.param "method"
    let password ← p.param "password"
    let userinfo := Base64.encodeStandard (Utf8.encode (method.toList ++ ':' :: password.toList))
    return "ss://".toList ++ (userinfo.toList ++ '@' ::
      writeRest p (given p ["security", "sni", "alpn", "fp", "type"]))

def nodeToHysteria2Link (p : ServerProfile) : Option (List Char) :=
  if p.protocol ≠ .hysteria2 then none
  else
    let auth := (p.param "auth").getD ""
    let q := p.params.entries.filter fun e => e.1 != "auth" && e.2 != ""
    let userinfo := if auth = "" then [] else pct auth ++ ['@']
    some ("hysteria2://".toList ++ (userinfo ++ writeRest p q))

end JammVpn.Link

-- The configuration file that is written for a node.
namespace JammVpn.Awg

open Text

-- A line, if there is a value.
def confLine (label : String) (value : Option String) : List Char :=
  match value with
  | none   => []
  | some v => label.toList ++ ' ' :: '=' :: ' ' :: (v.toList ++ ['\n'])

def confLines (fields : List (String × Option String)) : List Char :=
  fields.flatMap fun f => confLine f.1 f.2

def obfuscation : List (String × String) :=
  [("Jc", "jc"), ("Jmin", "jmin"), ("Jmax", "jmax"), ("S1", "s1"), ("S2", "s2"), ("H1", "h1"), ("H2", "h2"),
    ("H3", "h3"), ("H4", "h4")]

def interfaceFields (p : ServerProfile) : List (String × Option String) :=
  [("PrivateKey", p.param "private_key"), ("Address", p.param "address"), ("DNS", p.param "dns")] ++
    obfuscation.map fun o => (o.1, p.param o.2)

-- An IPv6 address is written without brackets.
def peerFields (p : ServerProfile) : List (String × Option String) :=
  [("PublicKey", p.param "public_key"), ("PresharedKey", p.param "preshared_key"),
    ("Endpoint", some (p.address ++ ":" ++ .ofList (decimal p.port))),
    ("AllowedIPs", some ((p.param "allowed_ips").getD "0.0.0.0/0, ::/0")),
    ("PersistentKeepalive", p.param "persistent_keepalive")]

def nodeToWgConf (p : ServerProfile) : List Char :=
  "[Interface]\n".toList ++ (confLines (interfaceFields p) ++ ("\n[Peer]\n".toList ++ confLines (peerFields p)))

end JammVpn.Awg
