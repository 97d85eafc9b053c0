import JammVpn.Core.Parse.Uri

-- Configuration files of WireGuard and AmneziaWG: `[Interface]` and `[Peer]` with lines `Key = Value`.
namespace JammVpn.Awg

open Text

def amneziaKeys : List String :=
  ["jc", "jmin", "jmax", "s1", "s2", "h1", "h2", "h3", "h4"]

def normalizeKey (raw : List Char) : String :=
  match asciiLower (.ofList raw) with
  | "privatekey"          => "private_key"
  | "publickey"           => "public_key"
  | "presharedkey"        => "preshared_key"
  | "allowedips"          => "allowed_ips"
  | "persistentkeepalive" => "persistent_keepalive"
  | lower                 => lower

-- What stands in front of a comment.
def stripComment (line : List Char) : List Char :=
  line.takeWhile fun c => c != '#' && c != ';'

structure State where
  params    : OrdMap String String := .empty
  inSection : Bool := false

-- Other sections are left out.
def isSection (name : List Char) : Bool :=
  asciiLower (.ofList (trim name)) ∈ ["interface", "peer"]

def readLine (s : State) (line : List Char) : Except ParseError State :=
  let line := trim (stripComment line)
  if line.isEmpty then .ok s
  else match (stripPrefix ['['] line).bind (stripSuffix [']']) with
    | some name => .ok { s with inSection := isSection name }
    | none      =>
      if !s.inSection then .ok s
      else match splitOnce '=' line with
        | none              => .error (.missingField "key = value")
        | some (key, value) =>
          let key := normalizeKey (trim key)
          let value := trim value
          if value.isEmpty then .ok s
          else .ok { s with params := s.params.insert key (.ofList value) }

def protocolOf (params : OrdMap String String) : ProtocolKind :=
  if amneziaKeys.any fun k => (params.get k).isSome then .amneziaWg else .wireguard

def parseAwgConf (input : List Char) : Except ParseError ServerProfile :=
  if (trim input).isEmpty then .error .emptyInput
  else do
    let s ← (lines input).foldlM readLine {}
    match s.params.get "endpoint" with
    | none          => .error .missingHost
    | some endpoint =>
      let (address, port) ← Uri.splitHostPort endpoint.toList
      match port with
      | none      => .error .missingPort
      | some port => return {
          name := address ++ ":" ++ .ofList (decimal port)
          protocol := protocolOf s.params
          address
          port
          params := s.params
          tags := [] }

end JammVpn.Awg
