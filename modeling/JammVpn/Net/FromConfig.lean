import Mathlib.Data.List.Induction
import JammVpn.Core.Config
import JammVpn.Net.Engine

namespace JammVpn

open Ip

def dnsServerFromConfig : DnsServerConfig → Option DnsServer
  | .udp server     => (SocketAddr.parse server.toList).map .udp
  | .dot server sni => (SocketAddr.parse server.toList).map (.dot · sni)
  | .doh url        => some (.doh url)

-- How the files of the geo databases are read.
structure GeoLoader where
  geosite : String → Except String GeoSiteDb
  geoip   : String → Except String GeoIpDb

-- Servers without a usable outbound are left out; of several with one name the last one stays.
def outboundTable (servers : List ServerProfile) : PartialMap String Outbound :=
  servers.foldl (fun table server =>
    match outboundFromProfile server with
    | .ok ob   => table.insert server.name ob
    | .error _ => table) .empty

theorem outboundTable_append (servers : List ServerProfile) (s : ServerProfile) (n : String) :
    (outboundTable (servers ++ [s])).get n =
      if n = s.name then (outboundFromProfile s).toOption.or ((outboundTable servers).get n)
      else (outboundTable servers).get n := by
  simp only [outboundTable, List.foldl_append, List.foldl_cons, List.foldl_nil]
  cases outboundFromProfile s <;> simp [PartialMap.get_insert, Except.toOption]

theorem mem_outboundTable {servers : List ServerProfile} {n : String} {ob : Outbound}
    (h : (outboundTable servers).get n = some ob) :
    ∃ s ∈ servers, s.name = n ∧ outboundFromProfile s = .ok ob := by
  induction servers using List.reverseRecOn
  case nil => simp [outboundTable] at h
  case append_singleton servers s hi =>
    rw [outboundTable_append] at h
    have hs : n = s.name ∧ outboundFromProfile s = .ok ob ∨ (outboundTable servers).get n = some ob := by
      split at h
      case isFalse   => exact .inr h
      case isTrue hn => cases ho : outboundFromProfile s <;> simp_all [Except.toOption]
    cases hs
    case inl hs => exact ⟨s, by simp, hs.left.symm, hs.right⟩
    case inr hs =>
      obtain ⟨s', hm, hn⟩ := hi hs
      exact ⟨s', by simp [hm], hn⟩

-- With distinct names every usable server is in the table.
theorem outboundTable_eq_some {servers : List ServerProfile} (hd : (servers.map (·.name)).Nodup)
    {s : ServerProfile} (hs : s ∈ servers) {ob : Outbound} (ho : outboundFromProfile s = .ok ob) :
    (outboundTable servers).get s.name = some ob := by
  induction servers using List.reverseRecOn
  case nil => simp at hs
  case append_singleton servers s' hi =>
    rw [outboundTable_append]
    simp only [List.map_append, List.map_cons, List.map_nil, List.nodup_append] at hd
    simp only [List.mem_append, List.mem_singleton] at hs
    obtain hs | rfl := hs
    case inl =>
      have hne : s.name ≠ s'.name := hd.2.2 s.name (List.mem_map_of_mem hs) s'.name (by simp)
      simp [hne, hi hd.1 hs]
    case inr => simp [ho, Except.toOption]

namespace Engine

def defaultRange : String :=
  "198.18.0.0/15"

-- A range that is no good is replaced by the default one.
def fakeIpFromConfig (cfg : FakeIpConfig) : Option FakeIp :=
  if cfg.enabled then
    match FakeIp.new cfg.range with
    | .ok fi   => some fi
    | .error _ => (FakeIp.new defaultRange).toOption
  else none

def fromConfig (geo : GeoLoader) (cfg : AppConfig) : Engine where
  outbounds := outboundTable cfg.servers
  defaultProxy := cfg.settings.defaultProxy
  rules := cfg.rules
  defaultAction := if cfg.settings.defaultToProxy then .proxy none else .direct
  resolver := cfg.dns.servers.findSome? dnsServerFromConfig
  fakeip := fakeIpFromConfig cfg.dns.fakeip
  geosite := cfg.geo.geositePath.bind fun p => (geo.geosite p).toOption
  geoip := cfg.geo.geoipPath.bind fun p => (geo.geoip p).toOption

inductive GeoKind
  | geosite
  | geoip
  deriving DecidableEq

-- A rule, by its number from 1, whose categories need a database that is not there.
structure MissingGeo where
  rule       : Nat
  kind       : GeoKind
  categories : List String
  deriving DecidableEq

def missingGeoRefs (e : Engine) : List MissingGeo :=
  e.rules.zipIdx.flatMap fun (rule, i) =>
    (if !rule.geosite.isEmpty && e.geosite.isNone then [⟨i + 1, .geosite, rule.geosite⟩] else []) ++
    (if !rule.geoip.isEmpty && e.geoip.isNone then [⟨i + 1, .geoip, rule.geoip⟩] else [])

end Engine
end JammVpn
