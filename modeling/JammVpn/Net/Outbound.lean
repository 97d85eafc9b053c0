import Mathlib.Data.Vector.Basic
import JammVpn.Core.Base64
import JammVpn.Core.Cidr

namespace JammVpn

open Ip Text

inductive Target
  | domain (host : String) (port : Nat)
  | socket (addr : SocketAddr)
  deriving DecidableEq

def Target.port : Target → Nat
  | domain _ p => p
  | socket s   => s.port

def Target.display : Target → List Char
  | domain host port => host.toList ++ ':' :: decimal port
  | socket addr      => addr.display

structure Socks5Config where
  server   : String
  username : Option String
  password : Option String
  deriving DecidableEq

structure HttpConfig where
  server   : String
  username : Option String
  password : Option String
  deriving DecidableEq

structure RealityTransport where
  publicKey  : String
  shortId    : String
  serverName : String
  deriving DecidableEq

inductive Transport
  | tcp
  | reality (r : RealityTransport)
  deriving DecidableEq

structure VlessConfig where
  server     : String
  uuid       : List.Vector UInt8 16
  flow       : Option String
  transport  : Transport
  encryption : Option String
  deriving DecidableEq

inductive Method
  | aes128Gcm
  | aes256Gcm
  | chacha20IetfPoly1305
  | ss2022Aes128Gcm
  | ss2022Aes256Gcm
  | ss2022Chacha20Poly1305
  deriving DecidableEq

def Method.fromName (s : String) : Option Method :=
  match asciiLower s with
  | "aes-128-gcm"                   => some aes128Gcm
  | "aes-256-gcm"                   => some aes256Gcm
  | "chacha20-ietf-poly1305"        => some chacha20IetfPoly1305
  | "chacha20-poly1305"             => some chacha20IetfPoly1305
  | "2022-blake3-aes-128-gcm"       => some ss2022Aes128Gcm
  | "2022-blake3-aes-256-gcm"       => some ss2022Aes256Gcm
  | "2022-blake3-chacha20-poly1305" => some ss2022Chacha20Poly1305
  | _                               => none

structure SsTls where
  sni      : String
  alpn     : List String
  insecure : Bool
  deriving DecidableEq

structure ShadowsocksConfig where
  server   : String
  method   : Method
  password : String
  tls      : Option SsTls
  deriving DecidableEq

structure TrojanConfig where
  server    : String
  password  : String
  transport : Transport
  deriving DecidableEq

structure AwgObfuscation where
  jc   : Nat
  jmin : Nat
  jmax : Nat
  s1   : Nat
  s2   : Nat
  h1   : Nat
  h2   : Nat
  h3   : Nat
  h4   : Nat
  deriving DecidableEq

structure WgParams where
  endpoint            : String
  privateKey          : List.Vector UInt8 32
  peerPublicKey       : List.Vector UInt8 32
  presharedKey        : Option (List.Vector UInt8 32)
  address             : List (IpAddr × Nat)
  dns                 : List IpAddr
  persistentKeepalive : Option Nat
  awg                 : Option AwgObfuscation
  deriving DecidableEq

structure TuicParams where
  server   : String
  uuid     : List.Vector UInt8 16
  password : String
  sni      : Option String
  insecure : Bool
  alpn     : List (List UInt8)
  deriving DecidableEq

structure Hysteria2Params where
  server   : String
  auth     : String
  sni      : Option String
  insecure : Bool
  deriving DecidableEq

-- The tunnels of WireGuard, TUIC and Hysteria2 are made on the first connection and shared by all
-- clones of an outbound, so that an outbound is given by its parameters.
inductive Outbound
  | direct
  | socks5 (cfg : Socks5Config)
  | http (cfg : HttpConfig)
  | vless (cfg : VlessConfig)
  | shadowsocks (cfg : ShadowsocksConfig)
  | trojan (cfg : TrojanConfig)
  | wireguard (params : WgParams)
  | tuic (params : TuicParams)
  | hysteria2 (params : Hysteria2Params)
  deriving DecidableEq

inductive ProfileError
  | missingField (field : String)
  | badUuid
  | unsupportedMethod (method : String)
  | badKey (key : String)
  | unsupported (protocol : ProtocolKind)
  deriving DecidableEq

def hexPairs : List UInt8 → Option (List UInt8)
  | hi :: lo :: bs => do
    let hi ← toDigit 16 (Char.ofNat hi.toNat)
    let lo ← toDigit 16 (Char.ofNat lo.toNat)
    let tl ← hexPairs bs
    return .ofNat (hi * 16 + lo) :: tl
  | _ => some []

def parseUuid (s : String) : Option (List.Vector UInt8 16) := do
  let hex := (Utf8.encode s.toList).filter (· != 0x2d)
  if hex.length ≠ 32 then none
  let out ← hexPairs hex
  if h : out.length = 16 then some ⟨out, h⟩ else none

def decodeKey (s : String) : Option (List.Vector UInt8 32) :=
  match Base64.decodeLoose s with
  | .ok v    => if h : v.length = 32 then some ⟨v, h⟩ else none
  | .error _ => none

def parseAddresses (csv : String) : List (IpAddr × Nat) :=
  (split ',' csv.toList).filterMap fun part =>
    let part := trim part
    if part.isEmpty then none
    else match splitOnce '/' part with
    | some (ip, p) => do
      let ip ← IpAddr.parse (trim ip)
      let p ← parseUnsigned 256 (trim p)
      return (ip, p)
    | none => do
      let ip ← IpAddr.parse part
      return (ip, if ip.isIpv4 then 32 else 128)

def parseIpList (csv : String) : List IpAddr :=
  (split ',' csv.toList).filterMap (IpAddr.parse <| trim ·)

-- The non-empty values of a list with commas.
def parseAlpn (csv : String) : List (List Char) :=
  ((split ',' csv.toList).map trim).filter (!·.isEmpty)

namespace ServerProfile

variable (p : ServerProfile)

def require (key : String) : Except ProfileError String :=
  match p.param key with
  | some v => .ok v
  | none   => .error (.missingField key)

def requireUuid : Except ProfileError (List.Vector UInt8 16) := do
  match parseUuid (← p.require "uuid") with
  | some u => .ok u
  | none   => .error .badUuid

def requireKey (key : String) : Except ProfileError (List.Vector UInt8 32) := do
  match decodeKey (← p.require key) with
  | some k => .ok k
  | none   => .error (.badKey key)

def optionalKey (key : String) : Except ProfileError (Option (List.Vector UInt8 32)) :=
  match p.param key with
  | some s => match decodeKey s with
    | some k => .ok (some k)
    | none   => .error (.badKey key)
  | none   => .ok none

def requireAuth : Except ProfileError String :=
  match (p.param "auth").orElse fun _ => p.param "password" with
  | some a => .ok a
  | none   => .error (.missingField "auth")

def isInsecure : Bool :=
  match (p.param "insecure").orElse fun _ => p.param "allow_insecure" with
  | some v => v == "1" || v == "true"
  | none   => false

def server : String :=
  p.address ++ ":" ++ .ofList (decimal p.port)

-- Certificates of TLS around Shadowsocks are checked only if the profile asks for it.
def ssTls : Option SsTls :=
  if p.param "security" = some "tls" then some {
    sni := ((p.param "sni").filter (· != "")).getD p.address
    alpn := ((p.param "alpn").map fun s => (parseAlpn s).map String.ofList).getD []
    insecure := match (p.param "allow_insecure").orElse fun _ => p.param "insecure" with
      | some v => !(v == "0" || v == "false")
      | none   => true
  }
  else none

def shadowsocksOutbound : Except ProfileError Outbound := do
  let name ← p.require "method"
  match Method.fromName name with
  | none        => .error (.unsupportedMethod name)
  | some method =>
    let password ← p.require "password"
    return .shadowsocks { server := p.server, method, password, tls := p.ssTls }

def vlessOutbound : Except ProfileError Outbound := do
  let uuid ← p.requireUuid
  return .vless {
    server := p.server
    uuid
    flow := p.param "flow"
    transport :=
      if p.param "security" = some "reality" then .reality {
        publicKey := (p.param "pbk").getD ""
        shortId := (p.param "sid").getD ""
        serverName := ((p.param "sni").orElse fun _ => p.param "host").getD ""
      }
      else .tcp
    encryption := (p.param "encryption").filter fun e => e != "" && e != "none"
  }

def trojanOutbound : Except ProfileError Outbound := do
  let password ← p.require "password"
  return .trojan { server := p.server, password, transport := .tcp }

def awgObfuscation : AwgObfuscation where
  jc := g "jc" 0
  jmin := g "jmin" 0
  jmax := g "jmax" 0
  s1 := g "s1" 0
  s2 := g "s2" 0
  h1 := g "h1" 1
  h2 := g "h2" 2
  h3 := g "h3" 3
  h4 := g "h4" 4
where
  g (key : String) (default : Nat) : Nat :=
    ((p.param key).bind fun v => parseUnsigned (2 ^ 32) v.toList).getD default

def wireguardOutbound : Except ProfileError Outbound := do
  let privateKey ← p.requireKey "private_key"
  let peerPublicKey ← p.requireKey "public_key"
  let presharedKey ← p.optionalKey "preshared_key"
  let address := parseAddresses (← p.require "address")
  if address.isEmpty then .error (.missingField "address")
  return .wireguard {
    endpoint := p.server
    privateKey
    peerPublicKey
    presharedKey
    address
    dns := ((p.param "dns").map parseIpList).getD []
    persistentKeepalive :=
      (p.param "persistent_keepalive").bind fun s => parseUnsigned (2 ^ 16) s.toList
    awg := if p.protocol = .amneziaWg then some p.awgObfuscation else none
  }

def tuicOutbound : Except ProfileError Outbound := do
  let uuid ← p.requireUuid
  let password ← p.require "password"
  let alpn := ((p.param "alpn").map fun s => (parseAlpn s).map Utf8.encode).filter (!·.isEmpty)
  return .tuic {
    server := p.server
    uuid
    password
    sni := p.param "sni"
    insecure := p.isInsecure
    alpn := alpn.getD [Utf8.encode "h3".toList]
  }

-- Obfuscated Hysteria2 is rejected: it is not implemented.
def hysteria2Outbound : Except ProfileError Outbound := do
  if (p.param "obfs").any (· != "") then .error (.unsupported .hysteria2)
  let auth ← p.requireAuth
  return .hysteria2 { server := p.server, auth, sni := p.param "sni", insecure := p.isInsecure }

end ServerProfile

def outboundFromProfile (p : ServerProfile) : Except ProfileError Outbound :=
  match p.protocol with
  | .shadowsocks => p.shadowsocksOutbound
  | .vless       => p.vlessOutbound
  | .trojan      => p.trojanOutbound
  | .socks5      =>
    .ok (.socks5 {
      server := p.server, username := p.param "username", password := p.param "password"
    })
  | .http        =>
    .ok (.http {
      server := p.server, username := p.param "username", password := p.param "password"
    })
  | .wireguard   => p.wireguardOutbound
  | .amneziaWg   => p.wireguardOutbound
  | .tuic        => p.tuicOutbound
  | .hysteria2   => p.hysteria2Outbound

-- No profile turns into a direct connection.
section Proxied

variable {α : Type} {p : ServerProfile}

def Proxied (r : Except ProfileError Outbound) : Prop :=
  r ≠ .ok .direct

theorem Proxied.error (e : ProfileError) : Proxied (.error e) := by
  simp [Proxied]

theorem Proxied.ok {ob : Outbound} (h : ob ≠ .direct) : Proxied (.ok ob) := by
  simpa [Proxied] using h

theorem Proxied.bind {x : Except ProfileError α} {f : α → Except ProfileError Outbound}
    (h : ∀ a, Proxied (f a)) : Proxied (x >>= f) := by
  cases x
  case error e => exact .error e
  case ok a    => exact h a

theorem Proxied.unless {c : Bool} {e : ProfileError} {f : Unit → Except ProfileError Outbound}
    (h : Proxied (f ())) : Proxied (if c then .error e >>= f else f ()) := by
  cases c
  case false => exact h
  case true  => exact .error e

theorem shadowsocksOutbound_proxied : Proxied p.shadowsocksOutbound := by
  refine .bind fun name => ?_
  split
  case h_1 => exact .error _
  case h_2 => exact .bind fun _ => .ok (by simp)

theorem wireguardOutbound_proxied : Proxied p.wireguardOutbound := by
  refine .bind fun _ => .bind fun _ => .bind fun _ => .bind fun _ => ?_
  dsimp only
  exact .unless <| .ok (by simp)

theorem hysteria2Outbound_proxied : Proxied p.hysteria2Outbound := by
  unfold ServerProfile.hysteria2Outbound
  dsimp only
  exact .unless <| .bind fun _ => .ok (by simp)

theorem outboundFromProfile_proxied (p : ServerProfile) : Proxied (outboundFromProfile p) := by
  unfold outboundFromProfile
  split
  case h_1 => exact shadowsocksOutbound_proxied
  case h_2 => exact .bind fun _ => .ok (by simp)
  case h_3 => exact .bind fun _ => .ok (by simp)
  case h_4 => exact .ok (by simp)
  case h_5 => exact .ok (by simp)
  case h_6 => exact wireguardOutbound_proxied
  case h_7 => exact wireguardOutbound_proxied
  case h_8 => exact .bind fun _ => .bind fun _ => .ok (by simp)
  case h_9 => exact hysteria2Outbound_proxied

end Proxied
end JammVpn
