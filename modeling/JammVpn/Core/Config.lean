import JammVpn.Core.Routing

namespace JammVpn

inductive SplitMode
  | inclusive
  | exclusive
  deriving DecidableEq

inductive SplitDriver
  | winpkFilter
  | winDivert
  deriving DecidableEq

structure SplitConfig where
  mode             : SplitMode := .inclusive
  apps             : List AppMatcher := []
  inheritChildren  : Bool := true
  killSwitch       : Bool := false
  forceDirectCidrs : List String := []
  forceTunnelCidrs : List String := []
  serverEndpoints  : List String := []
  driver           : SplitDriver := .winpkFilter
  deriving DecidableEq

structure Subscription where
  url                 : String
  tag                 : Option String := none
  updateIntervalHours : Nat := 12
  deriving DecidableEq

structure Settings where
  defaultProxy   : Option String := none
  defaultToProxy : Bool := false
  listen         : Option String := none
  proxyNode      : Option String := none
  deriving DecidableEq

inductive DnsServerConfig
  | udp (server : String)
  | dot (server sni : String)
  | doh (url : String)
  deriving DecidableEq

structure FakeIpConfig where
  enabled : Bool := false
  range   : String := "198.18.0.0/15"
  deriving DecidableEq

structure DnsConfig where
  servers : List DnsServerConfig := []
  fakeip  : FakeIpConfig := {}
  deriving DecidableEq

structure GeoConfig where
  geositePath : Option String := none
  geoipPath   : Option String := none
  deriving DecidableEq

structure LocalWgConfig where
  serverPrivate : String := ""
  serverPublic  : String := ""
  clientPrivate : String := ""
  clientPublic  : String := ""
  presharedKey  : String := ""
  port          : Nat := 0
  serverIp      : String := ""
  clientIp      : String := ""
  prefixLen     : Nat := 0
  upstreamNode  : Option String := none
  dns           : String := ""
  deriving DecidableEq

structure SocksProxy where
  listen : String := "127.0.0.1:1080"
  node   : Option String := none
  system : Bool := false
  deriving DecidableEq

structure AppConfig where
  servers       : List ServerProfile := []
  subscriptions : List Subscription := []
  rules         : List Rule := []
  split         : SplitConfig := {}
  settings      : Settings := {}
  dns           : DnsConfig := {}
  geo           : GeoConfig := {}
  localWg       : Option LocalWgConfig := none
  socksProxies  : List SocksProxy := []
  deriving DecidableEq

end JammVpn
