import JammVpn.Lib.Ipv6
import JammVpn.Wfp.Theorems.Decide

-- The addresses of the VPN servers, which are kept out of the tunnel.
namespace JammVpn.Wfp

open Ip Split Text

-- A server, with or without a port.
inductive Endpoint
  | address (ip : IpAddr)
  | socket (addr : SocketAddr)

namespace Endpoint

def display : Endpoint → List Char
  | address ip  => ip.display
  | socket addr => addr.display

def ip : Endpoint → IpAddr
  | address ip  => ip
  | socket addr => addr.ip

def Listed (e : Endpoint) (cfg : SplitConfig) : Prop :=
  .ofList e.display ∈ cfg.serverEndpoints

def KeptOut (e : Endpoint) : Prop :=
  ∀ (cfg : SplitConfig) (req : ConnRequest) (tunnelUp : Bool), e.Listed cfg → req.dstIp = e.ip →
    Split.decide req cfg tunnelUp = .direct

def KeptOutByDriver (e : Endpoint) : Prop :=
  ∀ (rtl : Rtl) (cfg : SplitConfig) (port : UInt16) (pid : UInt32) (d : DriverConfig) (appId : List UInt16),
    DriverConfig.fromSplitConfig cfg port pid = .ok d → e.Listed cfg →
      jammDecide (jammConfig rtl d) appId (jammIp e.ip) = .direct

structure Recognised (e : Endpoint) : Prop where
  read            : endpointIp (.ofList e.display) = some e.ip
  copied          : ∀ {cfg port pid d}, DriverConfig.fromSplitConfig cfg port pid = .ok d → e.Listed cfg →
    e.ip ∈ d.endpoints
  keptOut         : e.KeptOut
  keptOutByDriver : e.KeptOutByDriver

-- The text that has the address in brackets.
def Bracketed (e : Endpoint) : Prop :=
  ∃ addr port flow scope, e = socket (.v6 addr port flow scope)

variable {e : Endpoint} {cfg : SplitConfig}

theorem endpointIp_eq_none (s : List Char) : endpointIp (.ofList ('[' :: s)) = none := by
  have hnone : ∀ s, IpAddr.parse ('[' :: s) = none :=
    IpAddr.parse_cons_eq_none (by decide) (by decide)
  rw [endpointIp, String.toList_ofList, hnone]
  dsimp only
  cases hr : rsplitOnce ':' ('[' :: s)
  case none => rfl
  case some r =>
    obtain ⟨host, port⟩ := r
    obtain ⟨hs, _⟩ := rsplitOnce_eq_some hr
    rw [Option.bind_some]
    cases host
    case nil => cases hs
    case cons c host =>
      cases hs
      exact hnone host

theorem endpointIp_display (h : ¬e.Bracketed) : endpointIp (.ofList e.display) = some e.ip := by
  rw [endpointIp, String.toList_ofList]
  cases e
  case address ip => rw [display, IpAddr.parse_display, Endpoint.ip]
  case socket addr =>
    cases addr
    case v6 addr port flow scope => exact absurd ⟨addr, port, flow, scope, rfl⟩ h
    case v4 addr port =>
      have hrest : ∀ c ∈ (':' :: decimal port).head?, toDigit 10 c = none := by
        rintro c ⟨⟩
        rfl
      have hparse : IpAddr.parse (displayV4 addr ++ ':' :: decimal port) = none := by
        rw [IpAddr.parse, parseWith, readIpAddr, readIpv4Addr_display addr hrest]
      rw [display, SocketAddr.display, hparse]
      dsimp only
      rw [rsplitOnce_append (not_mem_decimal (by decide) port), Option.bind_some, IpAddr.parse_display_v4]
      rfl

theorem Bracketed.endpointIp (h : e.Bracketed) : endpointIp (.ofList e.display) = none := by
  obtain ⟨addr, port, flow, scope, rfl⟩ := h
  exact endpointIp_eq_none _

-- The first step of the ladder.
theorem decide_of_listed {req : ConnRequest} (h : endpointIp (.ofList e.display) = some e.ip) (hl : e.Listed cfg)
    (hip : req.dstIp = e.ip) (tunnelUp : Bool) : Split.decide req cfg tunnelUp = .direct := by
  have hany : (cfg.serverEndpoints.any fun s => endpointIp s == some req.dstIp) = true := by
    rw [List.any_eq_true]
    exact ⟨_, hl, beq_iff_eq.mpr (hip ▸ h)⟩
  rw [Split.decide, if_pos hany]

theorem mem_endpoints {port : UInt16} {pid : UInt32} {d : DriverConfig}
    (hd : DriverConfig.fromSplitConfig cfg port pid = .ok d) (h : endpointIp (.ofList e.display) = some e.ip)
    (hl : e.Listed cfg) : e.ip ∈ d.endpoints := by
  obtain ⟨_, _, _, _, _, hends⟩ := fromSplitConfig_ok hd
  rw [hends]
  exact List.mem_filterMap.mpr ⟨_, hl, h⟩

theorem jammDecide_of_mem {ip : IpAddr} {d : DriverConfig} (h : ip ∈ d.endpoints) (rtl : Rtl) (appId : List UInt16) :
    jammDecide (jammConfig rtl d) appId (jammIp ip) = .direct := by
  have hin : jammIpInEndpoints (jammConfig rtl d).endpoints (jammIp ip) = true := by
    rw [jammConfig, jammIpInEndpoints_eq, List.any_eq_true]
    exact ⟨ip, h, beq_self_eq_true ip⟩
  rw [jammDecide, if_pos hin]

theorem recognised_of_endpointIp (h : endpointIp (.ofList e.display) = some e.ip) : e.Recognised where
  read := h
  copied hd hl := mem_endpoints hd h hl
  keptOut _ _ up hl hip := decide_of_listed h hl hip up
  keptOutByDriver rtl _ _ _ _ appId hd hl := jammDecide_of_mem (mem_endpoints hd h hl) rtl appId

theorem decide_of_bypass {req : ConnRequest} (h : cidrsContain alwaysBypassCidrs req.dstIp = true) (tunnelUp : Bool) :
    Split.decide req cfg tunnelUp = .direct := by
  rw [Split.decide, if_pos h, ite_self]

theorem jammDecide_of_bypass {ip : IpAddr} (h : cidrsContain alwaysBypassCidrs ip = true) (c : JammConfig)
    (appId : List UInt16) : jammDecide c appId (jammIp ip) = .direct := by
  obtain ⟨l, hl, hbuiltin⟩ := parseCidrs_alwaysBypassCidrs
  rw [cidrsContain_eq hl, hbuiltin] at h
  rw [jammDecide, if_pos h, ite_self]

-- Everything goes into the tunnel, and there is one server.
def everything (e : Endpoint) : SplitConfig where
  mode := .exclusive
  serverEndpoints := [.ofList e.display]

theorem listed_everything (e : Endpoint) : e.Listed (everything e) :=
  List.mem_singleton_self _

theorem decide_everything {req : ConnRequest} (h : endpointIp (.ofList e.display) = none)
    (hip : cidrsContain alwaysBypassCidrs req.dstIp = false) :
    Split.decide req (everything e) true = .tunnel := by
  have hany : ((everything e).serverEndpoints.any fun s => endpointIp s == some req.dstIp) = false := by
    rw [everything, List.any_cons, h]
    rfl
  rw [Split.decide, hany, hip]
  rfl

theorem jammDecide_everything (h : endpointIp (.ofList e.display) = none)
    (hip : cidrsContain alwaysBypassCidrs e.ip = false) (rtl : Rtl) (port : UInt16) (pid : UInt32)
    (appId : List UInt16) :
    ∃ d, DriverConfig.fromSplitConfig (everything e) port pid = .ok d ∧
      jammDecide (jammConfig rtl d) appId (jammIp e.ip) = .tunnel := by
  obtain ⟨l, hl, _⟩ := parseCidrs_alwaysBypassCidrs
  cases hd : DriverConfig.fromSplitConfig (everything e) port pid
  case error =>
    rw [DriverConfig.fromSplitConfig, hl] at hd
    cases hd
  case ok d =>
    let req : ConnRequest := ⟨{ exePath := none, processName := none }, e.ip, 443⟩
    obtain ⟨_, happs, _⟩ := fromSplitConfig_ok hd
    have hsel : jammAppSelected (jammConfig rtl d) appId = appSelected (everything e) req.app := by
      rw [jammConfig, happs]
      rfl
    have hcore : jammDecide (jammConfig rtl d) appId (jammIp e.ip) =
        jammDecision (Split.decide req (everything e) true) := jammDecide_eq rtl hd hsel
    exact ⟨d, rfl, by rw [hcore, decide_everything h hip, jammDecision]⟩

theorem Recognised.not_bracketed (h : e.Recognised) : ¬e.Bracketed := by
  intro hb
  have := h.read
  rw [hb.endpointIp] at this
  cases this

theorem keptOut_iff : e.KeptOut ↔ ¬e.Bracketed ∨ cidrsContain alwaysBypassCidrs e.ip = true := by
  constructor
  case mp =>
    intro h
    by_contra hn
    obtain ⟨hb, hip⟩ := not_or.mp hn
    have hdirect := h (everything e) ⟨{}, e.ip, 443⟩ true (listed_everything e) rfl
    rw [decide_everything (not_not.mp hb).endpointIp (eq_false_of_ne_true hip)] at hdirect
    cases hdirect
  case mpr =>
    rintro (h | h)
    · exact (recognised_of_endpointIp (endpointIp_display h)).keptOut
    · intro cfg req up _ hip
      exact decide_of_bypass (hip ▸ h) up

theorem keptOutByDriver_iff : e.KeptOutByDriver ↔ ¬e.Bracketed ∨ cidrsContain alwaysBypassCidrs e.ip = true := by
  constructor
  case mp =>
    intro h
    by_contra hn
    obtain ⟨hb, hip⟩ := not_or.mp hn
    obtain ⟨d, hd, htunnel⟩ :=
      jammDecide_everything (not_not.mp hb).endpointIp (eq_false_of_ne_true hip) .ascii 8080 1234 []
    have hdirect := h .ascii _ _ _ d [] hd (listed_everything e)
    rw [htunnel] at hdirect
    cases hdirect
  case mpr =>
    rintro (h | h)
    · exact (recognised_of_endpointIp (endpointIp_display h)).keptOutByDriver
    · intro rtl cfg port pid d appId _ _
      exact jammDecide_of_bypass h _ appId

-- Without brackets the address is found by both. In brackets it is not, and then only a network that always
-- goes directly keeps it out of the tunnel.
theorem recognised_iff (e : Endpoint) :
    (e.Recognised ↔ ¬e.Bracketed) ∧
      (e.KeptOut ↔ ¬e.Bracketed ∨ cidrsContain alwaysBypassCidrs e.ip = true) ∧
      (e.KeptOutByDriver ↔ ¬e.Bracketed ∨ cidrsContain alwaysBypassCidrs e.ip = true) :=
  ⟨⟨Recognised.not_bracketed, fun h => recognised_of_endpointIp (endpointIp_display h)⟩, keptOut_iff,
    keptOutByDriver_iff⟩

-- `[2001:db8::1]:443`.
def bracketedV6 : Endpoint :=
  socket (.new (.v6 (ofSegments [0x2001, 0xdb8, 0, 0, 0, 0, 0, 1])) 443)

-- A connection to the server itself goes into the tunnel.
theorem not_recognised_bracketedV6 :
    bracketedV6.display = "[2001:db8::1]:443".toList ∧ endpointIp "[2001:db8::1]:443" = none ∧
      (∀ app, Split.decide ⟨app, bracketedV6.ip, 443⟩ (everything bracketedV6) true = .tunnel) ∧
      (∃ d, DriverConfig.fromSplitConfig (everything bracketedV6) 8080 1234 = .ok d ∧
        jammDecide (jammConfig .ascii d) [] (jammIp bracketedV6.ip) = .tunnel) ∧
      ¬bracketedV6.Recognised := by
  have hb : bracketedV6.Bracketed := ⟨_, _, _, _, rfl⟩
  have hip : cidrsContain alwaysBypassCidrs bracketedV6.ip = false := by decide +kernel
  refine ⟨by decide +kernel, by decide +kernel, ?_, ?_, fun h => h.not_bracketed hb⟩
  case refine_1 => exact fun app => decide_everything hb.endpointIp hip
  case refine_2 => exact jammDecide_everything hb.endpointIp hip .ascii 8080 1234 []

end Endpoint
end JammVpn.Wfp
