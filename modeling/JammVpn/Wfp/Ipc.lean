import JammVpn.Core.Split
import JammVpn.Lib.Bytes
import JammVpn.Lib.Utf8
import JammVpn.Lib.Cursor

-- What the user mode tells the driver: a snapshot of the rules, and how it is encoded.
namespace JammVpn.Wfp

open Bytes Ip Split

def magic : List UInt8 :=
  [0x4a, 0x56, 0x50, 0x31]

def version : Nat := 2

inductive IpcError
  | badMagic
  | badVersion (v : Nat)
  | truncated
  | badString
  | invalidCidr (s : String)

structure AppEntry where
  byName : Bool
  value  : String

structure DriverConfig where
  mode         : SplitMode
  killSwitch   : Bool
  redirectPort : UInt16
  redirectPid  : UInt32
  apps         : List AppEntry
  bypassCidrs  : List IpCidr
  forceDirect  : List IpCidr
  forceTunnel  : List IpCidr
  endpoints    : List IpAddr

def appEntry : AppMatcher → AppEntry
  | .exePath p     => { byName := false, value := p }
  | .processName n => { byName := true, value := n }

def parseCidrs (list : List String) : Except IpcError (List IpCidr) :=
  list.mapM fun s => (IpCidr.parse s).mapError fun _ => .invalidCidr s

def DriverConfig.fromSplitConfig (cfg : SplitConfig) (redirectPort : UInt16) (redirectPid : UInt32) :
    Except IpcError DriverConfig := do
  let bypassCidrs ← parseCidrs alwaysBypassCidrs
  let forceDirect ← parseCidrs cfg.forceDirectCidrs
  let forceTunnel ← parseCidrs cfg.forceTunnelCidrs
  return {
    mode := cfg.mode
    killSwitch := cfg.killSwitch
    redirectPort
    redirectPid
    apps := cfg.apps.map appEntry
    bypassCidrs
    forceDirect
    forceTunnel
    endpoints := cfg.serverEndpoints.filterMap endpointIp
  }

-- Longer numbers lose their high bytes (`as u16`).
def pushU16 (n : Nat) : List UInt8 :=
  toLe 2 n

def pushU32 (n : Nat) : List UInt8 :=
  toLe 4 n

def pushStr (s : String) : List UInt8 :=
  let bs := Utf8.encode s.toList
  pushU16 bs.length ++ bs

def pushIp : IpAddr → List UInt8
  | .v4 a => 4 :: (toBe 4 a.toNat ++ List.replicate 12 0)
  | .v6 a => 6 :: toBe 16 a.toNat

def pushCidrs (list : List IpCidr) : List UInt8 :=
  pushU16 list.length ++ list.flatMap fun c => pushIp c.base ++ [.ofNat c.prefixLen]

def encodeApp (a : AppEntry) : List UInt8 :=
  (if a.byName then 1 else 0) :: pushStr a.value

def modeByte : SplitMode → UInt8
  | .inclusive => 0
  | .exclusive => 1

def encodeConfig (cfg : DriverConfig) : List UInt8 :=
  magic ++ pushU16 version ++ [modeByte cfg.mode, if cfg.killSwitch then 1 else 0] ++
    pushU16 cfg.redirectPort.toNat ++ pushU32 cfg.redirectPid.toNat ++
    pushU16 cfg.apps.length ++ cfg.apps.flatMap encodeApp ++
    pushCidrs cfg.bypassCidrs ++ pushCidrs cfg.forceDirect ++ pushCidrs cfg.forceTunnel ++
    pushU16 cfg.endpoints.length ++ cfg.endpoints.flatMap pushIp

end JammVpn.Wfp

-- The user mode's own reader of what it tells the driver, and the destination of a redirected
-- connection as the driver hands it over.
namespace JammVpn.Wfp

open Bytes Ip Split

abbrev Reader (α : Type) :=
  Cursor UInt8 IpcError α

namespace Reader

def take (n : Nat) : Reader (List UInt8) :=
  Cursor.take .truncated n

def u8 : Reader UInt8 := do
  let b ← take 1
  return b.headD 0

def u16 : Reader Nat := do
  let b ← take 2
  return ofLe b

def u32 : Reader Nat := do
  let b ← take 4
  return ofLe b

def string : Reader String := do
  let n ← u16
  let b ← take n
  match Utf8.decode b with
  | some s => return .ofList s
  | none   => Cursor.throw .badString

def ip : Reader IpAddr := do
  let fam ← u8
  let b ← take 16
  if fam = 4 then return .v4 (.ofNat 32 (ofBe (b.take 4)))
  else if fam = 6 then return .v6 (.ofNat 128 (ofBe b))
  else Cursor.throw .truncated

def cidr : Reader IpCidr := do
  let ip ← ip
  let maskLen ← u8
  match IpCidr.new ip maskLen.toNat with
  | .ok c    => return c
  | .error _ => Cursor.throw (.invalidCidr (.ofList (ip.display ++ '/' :: Text.decimal maskLen.toNat)))

def list {α : Type} (m : Reader α) : Reader (List α) := do
  let n ← u16
  Cursor.replicate m n

def cidrs : Reader (List IpCidr) :=
  list cidr

def app : Reader AppEntry := do
  let byName ← u8
  let value ← string
  return { byName := byName ≠ 0, value }

def mode : Reader SplitMode := do
  let b ← u8
  if b = 0 then return .inclusive
  else if b = 1 then return .exclusive
  else Cursor.throw .truncated

-- The fields of the configuration, behind the version.
def body : Reader DriverConfig := do
  let mode ← mode
  let killSwitch ← u8
  let redirectPort ← u16
  let redirectPid ← u32
  let apps ← list app
  let bypassCidrs ← cidrs
  let forceDirect ← cidrs
  let forceTunnel ← cidrs
  let endpoints ← list ip
  return {
    mode
    killSwitch := killSwitch ≠ 0
    redirectPort := .ofNat redirectPort
    redirectPid := .ofNat redirectPid
    apps
    bypassCidrs
    forceDirect
    forceTunnel
    endpoints
  }

def config : Reader DriverConfig := do
  let m ← take 4
  if m ≠ magic then Cursor.throw .badMagic
  else
    let ver ← u16
    if ver ≠ version then Cursor.throw (.badVersion ver)
    else body

end Reader

-- What follows the configuration is not looked at.
def decodeConfig (buf : List UInt8) : Except IpcError DriverConfig :=
  (Reader.config buf).1

def redirectContextLen : Nat := 19

def encodeRedirectContext (dst : SocketAddr) : List UInt8 :=
  pushIp dst.ip ++ toBe 2 dst.port

def decodeRedirectContext (buf : List UInt8) : Except IpcError SocketAddr :=
  if buf.length < redirectContextLen then .error .truncated
  else
    let addr := (buf.drop 1).take 16
    let port := ofBe ((buf.drop 17).take 2)
    if buf.headD 0 = 4 then .ok (.new (.v4 (.ofNat 32 (ofBe (addr.take 4)))) port)
    else if buf.headD 0 = 6 then .ok (.new (.v6 (.ofNat 128 (ofBe addr))) port)
    else .error .truncated

end JammVpn.Wfp
