import JammVpn.Core.Geo.Protobuf
import JammVpn.Core.Routing
import JammVpn.Lib.Bytes

-- The database of the subnets of the countries.
namespace JammVpn
namespace Geo

open Bytes Ip Text

-- Of an address in a message that has the length of one.
def ipOf (b : List UInt8) : Option IpAddr :=
  if b.length = 4 then some (.v4 (.ofNat 32 (ofBe b)))
  else if b.length = 16 then some (.v6 (.ofNat 128 (ofBe b)))
  else none

-- The prefix is compared before it is cut to a byte.
def cidrOf (ipBytes : Option (List UInt8)) (prefixLen : Option Nat) : Option IpCidr := do
  let ip ← ipBytes.bind ipOf
  let p ← prefixLen
  if p ≤ ip.width then (IpCidr.new ip (p % 256)).toOption
  else none

def cidrField (r : Option (List UInt8) × Option Nat) : Reader (Option (List UInt8) × Option Nat) := do
  let tag ← Reader.readTag
  if tag = (1, wireLen) then return (some (← Reader.readBytes), r.2)
  else if tag = (2, wireVarint) then return (r.1, some (← Reader.readVarint))
  else
    Reader.skip tag.2
    return r

def parseCidr : Reader (Option IpCidr) := do
  let r ← Cursor.untilEof cidrField (none, none)
  return cidrOf r.1 r.2

def geoIpField : String × List IpCidr → Reader (String × List IpCidr) :=
  Reader.codedField parseCidr fun cidrs cidr => cidrs ++ cidr.toList

def parseGeoIp : Reader (String × List IpCidr) :=
  Cursor.untilEof geoIpField ("", [])

end Geo

namespace GeoIpDb

open Geo

def entryField : GeoIpDb → Reader GeoIpDb :=
  Reader.entriesField parseGeoIp fun db entry => { countries := db.countries.insert entry.1 entry.2 }

def parse (bytes : List UInt8) : Except (Fault GeoError) GeoIpDb :=
  (Cursor.untilEof entryField { countries := .empty } bytes).1

end GeoIpDb
end JammVpn

-- The database of the domains of the categories.
namespace JammVpn

open Text

namespace Geo

def typePlain : Nat := 0
def typeRegex : Nat := 1
def typeDomain : Nat := 2
def typeFull : Nat := 3

end Geo

namespace DomainSet

open Geo

-- There is nothing to evaluate a regular expression with: those are only counted.
def add (s : DomainSet) (dtype : Nat) (value : String) : DomainSet :=
  let v := String.ofList (DomainRule.normalize value)
  if v = "" then s
  else if dtype = typeFull then { s with full := s.full.insert v }
  else if dtype = typeDomain then { s with suffix := s.suffix.insert v }
  else if dtype = typePlain then { s with keyword := s.keyword ++ [v] }
  else if dtype = typeRegex then { s with skippedRegex := s.skippedRegex + 1 }
  else s

end DomainSet

namespace Geo

def domainField (r : Nat × String) : Reader (Nat × String) := do
  let tag ← Reader.readTag
  if tag = (1, wireVarint) then return (← Reader.readVarint, r.2)
  else if tag = (2, wireLen) then return (r.1, ← Reader.readString)
  else
    Reader.skip tag.2
    return r

def parseDomain : Reader (Nat × String) :=
  Cursor.untilEof domainField (typePlain, "")

def geoSiteField : String × DomainSet → Reader (String × DomainSet) :=
  Reader.codedField parseDomain fun set domain => set.add domain.1 domain.2

def parseGeoSite : Reader (String × DomainSet) :=
  Cursor.untilEof geoSiteField ("", {})

end Geo

namespace GeoSiteDb

open Geo

def entryField : GeoSiteDb → Reader GeoSiteDb :=
  Reader.entriesField parseGeoSite fun db entry => { categories := db.categories.insert entry.1 entry.2 }

def parse (bytes : List UInt8) : Except (Fault GeoError) GeoSiteDb :=
  (Cursor.untilEof entryField { categories := .empty } bytes).1

end GeoSiteDb
end JammVpn
