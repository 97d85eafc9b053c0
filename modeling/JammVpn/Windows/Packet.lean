import JammVpn.Lib.Bytes
import JammVpn.Windows.Attribution

-- What the back ends for Windows read in an IP packet.
namespace JammVpn.Windows

open Attribution Bytes Ip

def ethHdr : Nat := 14

-- What a packet is judged by; the local port is its source port.
structure Flow where
  proto     : Proto
  isV6      : Bool
  localPort : Nat
  dstIp     : IpAddr
  dstPort   : Nat
  deriving DecidableEq

def slice (bs : List UInt8) (start len : Nat) : List UInt8 :=
  (bs.drop start).take len

def v4At (bs : List UInt8) (start : Nat) : IpAddr :=
  .v4 (.ofNat 32 (ofBe (slice bs start 4)))

def v6At (bs : List UInt8) (start : Nat) : IpAddr :=
  .v6 (.ofNat 128 (ofBe (slice bs start 16)))

-- `bs.get(start..)`.
def getFrom (bs : List UInt8) (start : Nat) : Option (List UInt8) :=
  if start ≤ bs.length then some (bs.drop start) else none

def protoOf (num : UInt8) : Option Proto :=
  if num = 6 then some .tcp
  else if num = 17 then some .udp
  else none

-- Version, protocol, source, destination, and what follows the header. Extension headers of IPv6 are
-- not looked for.
def parseHeader (ip : List UInt8) : Option (Bool × UInt8 × IpAddr × IpAddr × List UInt8) :=
  match ip with
  | []     => none
  | b :: _ =>
    if b.toNat / 16 = 4 then
      if ip.length < 20 then none
      else (getFrom ip (b.toNat % 16 * 4)).map fun l4 => (false, ip.getD 9 0, v4At ip 12, v4At ip 16, l4)
    else if b.toNat / 16 = 6 then
      if ip.length < 40 then none
      else (getFrom ip 40).map fun l4 => (true, ip.getD 6 0, v6At ip 8, v6At ip 24, l4)
    else none

-- The flow of a packet, and the address it is from.
def parseFlow (ip : List UInt8) : Option (Flow × IpAddr) := do
  let (isV6, protoNum, srcIp, dstIp, l4) ← parseHeader ip
  let proto ← protoOf protoNum
  if l4.length < 4 then none
  else
    return ({
      proto, isV6, dstIp
      localPort := ofBe (slice l4 0 2)
      dstPort := ofBe (slice l4 2 2)
    }, srcIp)

section Text

open Text

def Proto.text : Proto → String
  | .tcp => "Tcp"
  | .udp => "Udp"

-- The name of an application in the log.
def appName (app : ConnApp) : String :=
  (app.processName.or app.exePath).getD "<неизвестно>"

def Flow.info (f : Flow) (app : ConnApp) : List Char :=
  (Proto.text f.proto).toList ++ " :".toList ++ decimal f.localPort ++ '→' :: (f.dstIp.display ++
    ':' :: (decimal f.dstPort ++ " app=".toList ++ (appName app).toList))

end Text
end JammVpn.Windows
