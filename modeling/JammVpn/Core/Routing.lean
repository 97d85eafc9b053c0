import JammVpn.Core.Cidr

namespace JammVpn

open Text

inductive AppMatcher
  | exePath (path : String)
  | processName (name : String)
  deriving DecidableEq, Repr

-- The process that opened a connection; at the level of the proxy it is unknown.
structure ConnApp where
  exePath     : Option String := none
  processName : Option String := none
  deriving DecidableEq

namespace AppMatcher

def eqIgnoreAsciiCase (a b : String) : Bool :=
  asciiLower a == asciiLower b

-- The part of a path behind its last separator.
def fileName (path : String) : String :=
  .ofList (path.toList.reverse.takeWhile (fun c => c != '\\' && c != '/')).reverse

def effectiveName (app : ConnApp) : Option String :=
  match app.processName with
  | some n => some n
  | none   => app.exePath.map fileName

def matchesApp (m : AppMatcher) (app : ConnApp) : Bool :=
  match m with
  | exePath p     => app.exePath.any (eqIgnoreAsciiCase · p)
  | processName n => (effectiveName app).any (eqIgnoreAsciiCase · n)

end AppMatcher

inductive DomainRule
  | full (domain : String)
  | suffix (domain : String)
  | keyword (word : String)
  deriving DecidableEq, Repr

namespace DomainRule

-- The host as the rules see it: without trailing dots and in lower case.
def normalize (host : String) : List Char :=
  (trimEndMatches '.' host.toList).map toAsciiLowercase

def matchesHost (r : DomainRule) (host : String) : Bool :=
  let h := normalize host
  match r with
  | full d    => h == (asciiLower d).toList
  | suffix d  =>
    let d := (trimStartMatches '.' d.toList).map toAsciiLowercase
    h == d || ('.' :: d).isSuffixOf h
  | keyword k => decide ((asciiLower k).toList <:+: h)

end DomainRule

inductive RouteAction
  | direct
  | proxy (tag : Option String)
  | block
  deriving DecidableEq, Repr

-- A rule applies if every non-empty kind of criteria has a matching value; a rule without criteria
-- applies always.
structure Rule where
  domains   : List DomainRule := []
  ipCidrs   : List IpCidr := []
  processes : List AppMatcher := []
  ports     : List Nat := []
  geosite   : List String := []
  geoip     : List String := []
  action    : RouteAction := .direct
  deriving DecidableEq

-- A connection, with what is known about it.
structure RouteRequest where
  domain : Option String
  ip     : Option Ip.IpAddr
  port   : Nat
  app    : ConnApp

-- Without databases a rule with geo criteria does not apply.
def Rule.matchesRequest (rule : Rule) (req : RouteRequest) : Bool :=
  (rule.geosite.isEmpty && rule.geoip.isEmpty) &&
  (rule.domains.isEmpty || req.domain.any fun h => rule.domains.any (·.matchesHost h)) &&
  (rule.ipCidrs.isEmpty || req.ip.any fun ip => rule.ipCidrs.any (·.contains ip)) &&
  (rule.processes.isEmpty || rule.processes.any (·.matchesApp req.app)) &&
  (rule.ports.isEmpty || rule.ports.contains req.port)

-- The first rule that applies decides.
def evaluate (rules : List Rule) (req : RouteRequest) (default : RouteAction) : RouteAction :=
  match rules.find? (·.matchesRequest req) with
  | some rule => rule.action
  | none      => default

-- The domain names of one geosite category.
structure DomainSet where
  full         : List String := []
  suffix       : List String := []
  keyword      : List String := []
  skippedRegex : Nat := 0
  deriving DecidableEq

namespace DomainSet

-- The names that remain when labels are removed from the front.
def parents : List Char → List (List Char)
  | []      => []
  | c :: cs => if c = '.' then cs :: parents cs else parents cs

def matchesHost (s : DomainSet) (host : String) : Bool :=
  let h := DomainRule.normalize host
  s.full.contains (.ofList h) ||
  (!s.suffix.isEmpty &&
    (s.suffix.contains (.ofList h) || (parents h).any fun p => s.suffix.contains (.ofList p))) ||
  s.keyword.any fun k => decide (k.toList <:+: h)

end DomainSet

structure GeoSiteDb where
  categories : PartialMap String DomainSet

def GeoSiteDb.matchesHost (db : GeoSiteDb) (category host : String) : Bool :=
  (db.categories.get (asciiLower category)).any (·.matchesHost host)

structure GeoIpDb where
  countries : PartialMap String (List IpCidr)

def GeoIpDb.matchesIp (db : GeoIpDb) (country : String) (ip : Ip.IpAddr) : Bool :=
  (db.countries.get (asciiLower country)).any (·.any (·.contains ip))

end JammVpn
