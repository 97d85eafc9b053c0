import JammVpn.Core.Theorems.Ladder
import JammVpn.Windows.Capture

namespace JammVpn.Windows

open Attribution Ladder Split

-- A tunnel that is up takes all that is meant for it.
theorem decides_iff_decide {cfg : SplitConfig} {req : ConnRequest} {r : Route} :
    Decides (ladder cfg) req r ↔ Split.decide req cfg true = killSwitched cfg.killSwitch true r := by
  constructor
  case mp  => exact fun h => decide_of_decides h true
  case mpr =>
    intro h
    obtain ⟨r', hr⟩ := exists_decides_ladder cfg req
    rw [decide_of_decides hr] at h
    cases r <;> cases r'
    case direct.direct => exact hr
    case tunnel.tunnel => exact hr
    case direct.tunnel => cases h
    case tunnel.direct => cases h

section

variable (fileName : String → Option String) (host : Host) (cfg : SplitConfig) (resolver : ProcessResolver)

-- The application that a flow is judged by.
def appOf (f : Flow) : ConnApp :=
  (resolver.resolve host fileName f.proto f.isV6 f.localPort).1.getD {}

def requestOf (f : Flow) : ConnRequest where
  app := appOf fileName host resolver f
  dstIp := f.dstIp
  dstPort := f.dstPort

def winpkVerdict (frame : List UInt8) (outgoing : Bool) : WinpkFilter.Verdict :=
  (WinpkFilter.classify fileName host frame outgoing cfg resolver).1.1

def divertVerdict (ip : List UInt8) : WinDivert.Verdict :=
  (WinDivert.classify fileName host ip cfg resolver).1.1

variable {fileName host cfg resolver} {frame ip : List UInt8} {f : Flow} {srcIp : Ip.IpAddr} {r : Route}

theorem winpkVerdict_of_parse (hl : ethHdr ≤ frame.length)
    (hp : parseFlow (frame.drop ethHdr) = some (f, srcIp)) :
    winpkVerdict fileName host cfg resolver frame true =
      (WinpkFilter.toVerdict frame f.isV6 srcIp
        (Split.decide (requestOf fileName host resolver f) cfg true)).1 := by
  rw [winpkVerdict, WinpkFilter.classify, if_neg (Nat.not_lt.mpr hl), WinpkFilter.parseIp, hp]
  rfl

theorem winpkVerdict_of_none (hp : parseFlow (frame.drop ethHdr) = none) (outgoing : Bool) :
    winpkVerdict fileName host cfg resolver frame outgoing = WinpkFilter.passthrough outgoing := by
  rw [winpkVerdict, WinpkFilter.classify, WinpkFilter.parseIp, hp]
  split <;> rfl

theorem winpkVerdict_of_decides (hl : ethHdr ≤ frame.length)
    (hp : parseFlow (frame.drop ethHdr) = some (f, srcIp))
    (h : Decides (ladder cfg) (requestOf fileName host resolver f) r) :
    winpkVerdict fileName host cfg resolver frame true =
      match r, f.isV6 with
      | .tunnel, false => .tunnel (frame.drop ethHdr) (WinpkFilter.swappedEth frame) srcIp
      | _, _           => .toAdapter := by
  rw [winpkVerdict_of_parse hl hp, decide_of_decides h]
  cases r <;> cases f.isV6 <;> rfl

theorem divertVerdict_of_parse (hp : parseFlow ip = some (f, srcIp)) :
    divertVerdict fileName host cfg resolver ip =
      WinDivert.toVerdict (Split.decide (requestOf fileName host resolver f) cfg true) := by
  rw [divertVerdict, WinDivert.classify, WinDivert.parseIp, hp]
  rfl

theorem divertVerdict_of_decides (hp : parseFlow ip = some (f, srcIp))
    (h : Decides (ladder cfg) (requestOf fileName host resolver f) r) :
    divertVerdict fileName host cfg resolver ip =
      match r with
      | .tunnel => .tunnel
      | .direct => .direct := by
  rw [divertVerdict_of_parse hp, decide_of_decides h]
  cases r <;> rfl

theorem divertVerdict_of_none (hp : parseFlow ip = none) :
    divertVerdict fileName host cfg resolver ip = .direct := by
  rw [divertVerdict, WinDivert.classify, WinDivert.parseIp, hp]
  rfl

end

-- A SYN from `fd00::2` to `2001:db8::1`, and an echo request from `10.0.0.2` to `8.8.8.8`.
def synV6 : List UInt8 :=
  [0x60, 0, 0, 0, 0, 20, 6, 64] ++
    ([0xfd] ++ List.replicate 14 0 ++ [2]) ++ ([0x20, 1, 0xd, 0xb8] ++ List.replicate 11 0 ++ [1]) ++
    ([0x30, 0x39, 1, 0xbb] ++ List.replicate 8 0 ++ [0x50, 2] ++ List.replicate 6 0)

def echoV4 : List UInt8 :=
  [0x45, 0, 0, 28, 0, 1, 0, 0, 64, 1, 0, 0, 10, 0, 0, 2, 8, 8, 8, 8, 8, 0, 0, 0, 0, 1, 0, 1]

def everythingTunnelled : SplitConfig where
  mode := .exclusive
  killSwitch := true

theorem kill_switch_leaks :
    (¬∀ (fileName : String → Option String) (host : Host) (cfg : SplitConfig) (resolver : ProcessResolver)
        (frame : List UInt8) (f : Flow) (srcIp : Ip.IpAddr), cfg.killSwitch = true →
      parseFlow (frame.drop ethHdr) = some (f, srcIp) →
      Decides (ladder cfg) (requestOf fileName host resolver f) .tunnel →
      winpkVerdict fileName host cfg resolver frame true ≠ .toAdapter) ∧
    ¬∀ (fileName : String → Option String) (host : Host) (cfg : SplitConfig) (resolver : ProcessResolver)
        (frame : List UInt8), cfg.killSwitch = true →
      (∀ app, Decides (ladder cfg) ⟨app, v4At (frame.drop ethHdr) 16, 0⟩ .tunnel) →
      winpkVerdict fileName host cfg resolver frame true ≠ .toAdapter ∧
        divertVerdict fileName host cfg resolver (frame.drop ethHdr) ≠ .direct := by
  constructor
  case left =>
    intro h
    have hp : ∃ f srcIp, parseFlow ((List.replicate 14 0 ++ synV6).drop ethHdr) = some (f, srcIp) ∧
        Split.decide (requestOf (fun _ => none) ⟨0, {}, fun _ => none⟩ {} f) everythingTunnelled true = .tunnel ∧
        winpkVerdict (fun _ => none) ⟨0, {}, fun _ => none⟩ everythingTunnelled {}
          (List.replicate 14 0 ++ synV6) true = .toAdapter :=
      ⟨⟨.tcp, true, 12345, .v6 0x20010db8000000000000000000000001, 443⟩, .v6 0xfd000000000000000000000000000002,
        by decide +kernel, by decide +kernel, by decide +kernel⟩
    obtain ⟨f, srcIp, hp, hd, hv⟩ := hp
    exact h _ _ everythingTunnelled _ _ f srcIp rfl hp (decides_iff_decide.mpr hd) hv
  case right =>
    intro h
    refine (h (fun _ => none) ⟨0, {}, fun _ => none⟩ everythingTunnelled {} (List.replicate 14 0 ++ echoV4) rfl
      fun app => decides_iff_decide.mpr ?_).1 (by decide +kernel)
    have hd : Split.decide ⟨{}, v4At echoV4 16, 0⟩ everythingTunnelled true = .tunnel := by decide +kernel
    exact hd

theorem intended_route_kept (fileName : String → Option String) (host : Host) (cfg : SplitConfig)
    (resolver : ProcessResolver) :
    (∀ frame f srcIp, ethHdr ≤ frame.length → parseFlow (frame.drop ethHdr) = some (f, srcIp) →
      Decides (ladder cfg) (requestOf fileName host resolver f) .tunnel →
      winpkVerdict fileName host cfg resolver frame true =
        if f.isV6 then .toAdapter
        else .tunnel (frame.drop ethHdr) (WinpkFilter.swappedEth frame) srcIp) ∧
    (∀ ip f srcIp, parseFlow ip = some (f, srcIp) →
      Decides (ladder cfg) (requestOf fileName host resolver f) .tunnel →
      divertVerdict fileName host cfg resolver ip = .tunnel) ∧
    (∀ frame, parseFlow (frame.drop ethHdr) = none →
      winpkVerdict fileName host cfg resolver frame true = .toAdapter) ∧
    (∀ ip, parseFlow ip = none → divertVerdict fileName host cfg resolver ip = .direct) := by
  refine ⟨?winpk, ?divert, ?frame, fun ip hp => divertVerdict_of_none hp⟩
  case winpk =>
    intro frame f srcIp hl hp h
    rw [winpkVerdict_of_decides hl hp h]
    cases f.isV6 <;> rfl
  case divert =>
    intro ip f srcIp hp h
    rw [divertVerdict_of_decides hp h]
  case frame =>
    intro frame hp
    exact winpkVerdict_of_none hp true

end JammVpn.Windows
