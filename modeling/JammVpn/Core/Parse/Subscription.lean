import JammVpn.Core.Parse.Clash
import JammVpn.Core.Parse.Singbox
import JammVpn.Core.Parse.Xray

-- Subscriptions: a list of links, in base64 or not, the proxies of Clash, or a config of sing-box or Xray.
namespace JammVpn.Subscription

open Text

-- A text that has no link in it may be one in base64.
def decodeBody (body : List Char) : List Char :=
  let trimmed := trim body
  if contains "://".toList trimmed then trimmed
  else
    match Base64.decodeToString (.ofList trimmed) with
    | .ok decoded => if contains "://".toList decoded.toList then decoded.toList else trimmed
    | .error _    => trimmed

def isComment (l : List Char) : Bool :=
  l.head? = some '#' || "//".toList.isPrefixOf l

def parseLinks (text : List Char) : List (Except ParseError ServerProfile) :=
  (((lines text).map trim).filter fun l => !l.isEmpty && !isComment l).map Link.parseLink

def isOk (r : Except ParseError ServerProfile) : Bool :=
  r.toOption.isSome

-- The numbers of a JSON text are read by `f64`.
def parseSubscription (f64 : List Char → Option (Option Nat)) (body : List Char) :
    List (Except ParseError ServerProfile) :=
  let t := trimStart body
  if t.head? = some '{' ∨ t.head? = some '[' then
    let sb := Singbox.parseSingboxConfig f64 body
    if sb.any isOk then sb else Xray.parseXrayConfig f64 body
  else if contains "proxies:".toList t then Clash.parseClash body
  else parseLinks (decodeBody body)

end JammVpn.Subscription
