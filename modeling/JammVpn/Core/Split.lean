import JammVpn.Core.Config

-- The engine of the split: which connections go into the tunnel.
namespace JammVpn.Split

open Ip Text

inductive Action
  | direct
  | tunnel
  | block
  deriving DecidableEq

structure ConnRequest where
  app     : ConnApp
  dstIp   : IpAddr
  dstPort : Nat

-- Destinations that go directly in both modes.
def alwaysBypassCidrs : List String :=
  [
    "10.0.0.0/8",
    "172.16.0.0/12",
    "192.168.0.0/16",
    "127.0.0.0/8",
    "169.254.0.0/16",
    "224.0.0.0/4",
    "255.255.255.255/32",
    "::1/128",
    "fe80::/10",
    "fc00::/7",
    "ff00::/8"
  ]

def appSelected (cfg : SplitConfig) (app : ConnApp) : Bool :=
  cfg.apps.any (·.matchesApp app)

-- Entries that cannot be parsed are left out.
def cidrsContain (list : List String) (ip : IpAddr) : Bool :=
  (list.filterMap fun c => (IpCidr.parse c).toOption).any (·.contains ip)

-- The address of an endpoint that is an address, with or without a port.
def endpointIp (e : String) : Option IpAddr :=
  match IpAddr.parse e.toList with
  | some ip => some ip
  | none    => (rsplitOnce ':' e.toList).bind fun (host, _) => IpAddr.parse host

inductive Route
  | direct
  | tunnel

def decide (req : ConnRequest) (cfg : SplitConfig) (tunnelUp : Bool) : Action :=
  if cfg.serverEndpoints.any fun e => endpointIp e == some req.dstIp then .direct
  else if cidrsContain alwaysBypassCidrs req.dstIp then .direct
  else if cidrsContain cfg.forceDirectCidrs req.dstIp then .direct
  else
    let intended : Route :=
      if cidrsContain cfg.forceTunnelCidrs req.dstIp then .tunnel
      else
        match cfg.mode, appSelected cfg req.app with
        | .inclusive, true  => .tunnel
        | .inclusive, false => .direct
        | .exclusive, true  => .direct
        | .exclusive, false => .tunnel
    match intended with
    | .direct => .direct
    | .tunnel =>
      if tunnelUp then .tunnel
      else if cfg.killSwitch then .block
      else .direct

end JammVpn.Split
