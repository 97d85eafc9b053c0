import JammVpn.Core.Base64
import JammVpn.Lib.Incremental
import JammVpn.Net.Hysteria2
import JammVpn.Net.Shadowsocks

-- What is written to a server to get a connection to a target.
namespace JammVpn.Outbound

open Bytes Incremental Text

-- Behind a domain there is nothing that cuts the name.
def encodeSsAddress : Target → List UInt8
  | .domain host port       => 0x03 :: (field (Utf8.encode host.toList) ++ toBe 2 port)
  | .socket (.v4 a port)     => 0x01 :: (toBe 4 a.toNat ++ toBe 2 port)
  | .socket (.v6 a port _ _) => 0x04 :: (toBe 16 a.toNat ++ toBe 2 port)

section Socks5

-- What has been written in a conversation, and whether it is over.
structure Exchange where
  writes : List (List UInt8)
  result : Result Unit

def Exchange.fail (e : String) : Exchange where
  writes := []
  result := .fail e

def Exchange.write (bs : List UInt8) (x : Exchange) : Exchange where
  writes := bs :: x.writes
  result := x.result

-- Reads what the server has sent, and goes on with the rest.
def Exchange.read {α : Type} (r : Reader α) (server : List UInt8) (next : α → List UInt8 → Exchange) : Exchange :=
  match r server with
  | .more        => { writes := [], result := .more }
  | .fail e      => .fail e
  | .done a rest => next a rest

variable (cfg : Socks5Config) (target : Target)

def socks5Greeting : List UInt8 :=
  if cfg.username.isSome then [0x05, 0x01, 0x02] else [0x05, 0x01, 0x00]

def socks5Auth : List UInt8 :=
  let user := Utf8.encode (cfg.username.getD "").toList
  let pass := Utf8.encode (cfg.password.getD "").toList
  0x01 :: (field user ++ field pass)

-- The address is that of Shadowsocks.
def socks5Request : List UInt8 :=
  [0x05, 0x01, 0x00] ++ encodeSsAddress target

def socks5Reply : Reader Unit := do
  let head ← readExact 4
  if head.getD 1 0 ≠ 0x00 then throw "socks5: сервер отклонил CONNECT"
  else
    let bndLen ← match head.getD 3 0 with
      | 0x01 => pure 4
      | 0x04 => pure 16
      | 0x03 => UInt8.toNat <$> readU8
      | _    => throw "socks5: неизвестный ATYP в ответе"
    let _ ← readExact (bndLen + 2)
    return ()

def socks5Open (server : List UInt8) : Exchange :=
  .write (socks5Request target) <| .read socks5Reply server fun _ rest => { writes := [], result := .done () rest }

def socks5Connect (server : List UInt8) : Exchange :=
  .write (socks5Greeting cfg) <| .read (readExact 2) server fun method server =>
    if method.getD 0 0 ≠ 0x05 then .fail "socks5: неверная версия"
    else
      match method.getD 1 0 with
      | 0x00 => socks5Open target server
      | 0x02 => .write (socks5Auth cfg) <| .read (readExact 2) server fun ar server =>
        if ar.getD 1 0 ≠ 0x00 then .fail "socks5: аутентификация отклонена"
        else socks5Open target server
      | _    => .fail "socks5: нет приемлемого метода аутентификации"

end Socks5

section Http

def hostport : Target → List Char
  | .domain host port => host.toList ++ ':' :: decimal port
  | .socket addr      => addr.display

def httpAuthorization (cfg : HttpConfig) : List Char :=
  match cfg.username with
  | none      => []
  | some user =>
    let token := Base64.encodeStandard (Utf8.encode (user.toList ++ ':' :: (cfg.password.getD "").toList))
    "Proxy-Authorization: Basic ".toList ++ token.toList ++ "\r\n".toList

def httpConnectRequest (cfg : HttpConfig) (target : Target) : List UInt8 :=
  Utf8.encode ("CONNECT ".toList ++ hostport target ++ " HTTP/1.1\r\nHost: ".toList ++ hostport target ++
    "\r\n".toList ++ httpAuthorization cfg ++ "\r\n".toList)

end Http
end JammVpn.Outbound

namespace JammVpn.Hysteria2

open Bytes

def tcpRequestId : Nat := 0x401

-- The padding is empty.
def encodeTcpRequest (target : Target) : List UInt8 :=
  putVarint tcpRequestId ++ addrOf target ++ putVarint 0

end JammVpn.Hysteria2
