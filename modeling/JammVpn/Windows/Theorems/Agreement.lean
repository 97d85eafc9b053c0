import JammVpn.Windows.Theorems.KillSwitch

namespace JammVpn.Windows

open Attribution Ladder Split

-- What the two back ends say when they do the same with a packet.
inductive Corresponds (ip : List UInt8) : WinDivert.Verdict → WinpkFilter.Verdict → Prop
  | tunnel (eth : List UInt8) (localIp : Ip.IpAddr) : Corresponds ip .tunnel (.tunnel ip eth localIp)
  | direct : Corresponds ip .direct .toAdapter
  | drop : Corresponds ip .drop .drop

variable (fileName : String → Option String) (host : Host) (cfg : SplitConfig) (resolver : ProcessResolver)

-- The rules tunnel a flow for which the stack behind one of the tunnels has no protocol.
def TunnelsV6 (ip : List UInt8) : Prop :=
  ∃ f srcIp, parseFlow ip = some (f, srcIp) ∧ f.isV6 = true ∧
    Split.decide (requestOf fileName host resolver f) cfg true = .tunnel

variable {fileName host cfg resolver} {eth ip : List UInt8} {f : Flow} {srcIp : Ip.IpAddr}

theorem ethHdr_le_length (h : eth.length = ethHdr) : ethHdr ≤ (eth ++ ip).length := by
  rw [List.length_append, h]
  exact Nat.le_add_right ethHdr ip.length

theorem drop_ethHdr (h : eth.length = ethHdr) : (eth ++ ip).drop ethHdr = ip := by
  rw [← h, List.drop_left]

-- Rung by rung, what the back ends make of the action.
theorem corresponds_toVerdict {frame : List UInt8} (hf : frame.drop ethHdr = ip) (isV6 : Bool) (a : Action) :
    Corresponds ip (WinDivert.toVerdict a) (WinpkFilter.toVerdict frame isV6 srcIp a).1 ↔
      ¬(isV6 = true ∧ a = .tunnel) := by
  cases a
  case direct => exact iff_of_true .direct fun h => by cases h.2
  case block  => exact iff_of_true .drop fun h => by cases h.2
  case tunnel =>
    cases isV6
    case true =>
      refine iff_of_false (fun h => ?_) (fun h => h ⟨rfl, rfl⟩)
      cases h
    case false =>
      refine iff_of_true ?_ fun h => by cases h.1
      rw [WinpkFilter.toVerdict, hf]
      exact .tunnel _ srcIp

theorem tunnelsV6_iff (hp : parseFlow ip = some (f, srcIp)) :
    TunnelsV6 fileName host cfg resolver ip ↔
      f.isV6 = true ∧ Split.decide (requestOf fileName host resolver f) cfg true = .tunnel := by
  constructor
  case mpr => exact fun h => ⟨f, srcIp, hp, h⟩
  case mp =>
    rintro ⟨g, src, hg, h⟩
    rw [hp] at hg
    cases hg
    exact h

theorem corresponds_iff (h : eth.length = ethHdr) :
    Corresponds ip (divertVerdict fileName host cfg resolver ip)
        (winpkVerdict fileName host cfg resolver (eth ++ ip) true) ↔
      ¬TunnelsV6 fileName host cfg resolver ip := by
  have hd := @drop_ethHdr _ ip h
  cases hp : parseFlow ip
  case none =>
    rw [divertVerdict_of_none hp, winpkVerdict_of_none (hd.symm ▸ hp)]
    refine iff_of_true .direct ?_
    rintro ⟨f, srcIp, hf, _⟩
    rw [hp] at hf
    cases hf
  case some p =>
    obtain ⟨f, srcIp⟩ := p
    rw [divertVerdict_of_parse hp, winpkVerdict_of_parse (ethHdr_le_length h) (hd.symm ▸ hp), tunnelsV6_iff hp]
    exact corresponds_toVerdict hd f.isV6 _

theorem classify_resolver (h : eth.length = ethHdr) :
    (WinpkFilter.classify fileName host (eth ++ ip) true cfg resolver).2 =
      (WinDivert.classify fileName host ip cfg resolver).2 := by
  rw [WinpkFilter.classify, WinDivert.classify, if_neg (Nat.not_lt.mpr (ethHdr_le_length h)), drop_ethHdr h,
    WinpkFilter.parseIp, WinDivert.parseIp]
  cases parseFlow ip
  case none   => rfl
  case some p => rfl

theorem back_ends_differ :
    ¬∀ (fileName : String → Option String) (host : Host) (cfg : SplitConfig) (resolver : ProcessResolver)
      (eth ip : List UInt8), eth.length = ethHdr →
      Corresponds ip (divertVerdict fileName host cfg resolver ip)
        (winpkVerdict fileName host cfg resolver (eth ++ ip) true) := by
  intro h
  have hc := h (fun _ => none) ⟨0, {}, fun _ => none⟩ everythingTunnelled {} (List.replicate 14 0) synV6 rfl
  have hd : divertVerdict (fun _ => none) ⟨0, {}, fun _ => none⟩ everythingTunnelled {} synV6 = .tunnel := by
    decide +kernel
  have hw : winpkVerdict (fun _ => none) ⟨0, {}, fun _ => none⟩ everythingTunnelled {}
      (List.replicate 14 0 ++ synV6) true = .toAdapter := by decide +kernel
  rw [hd, hw] at hc
  cases hc

theorem back_ends_agree (fileName : String → Option String) (host : Host) (cfg : SplitConfig)
    (resolver : ProcessResolver) (eth ip : List UInt8) (h : eth.length = ethHdr) :
    (Corresponds ip (divertVerdict fileName host cfg resolver ip)
        (winpkVerdict fileName host cfg resolver (eth ++ ip) true) ↔
      ¬TunnelsV6 fileName host cfg resolver ip) ∧
    (TunnelsV6 fileName host cfg resolver ip →
      divertVerdict fileName host cfg resolver ip = .tunnel ∧
        winpkVerdict fileName host cfg resolver (eth ++ ip) true = .toAdapter) ∧
    (WinpkFilter.classify fileName host (eth ++ ip) true cfg resolver).2 =
      (WinDivert.classify fileName host ip cfg resolver).2 := by
  refine ⟨corresponds_iff h, ?_, classify_resolver h⟩
  rintro ⟨f, srcIp, hp, hv, hd⟩
  have hf : parseFlow ((eth ++ ip).drop ethHdr) = some (f, srcIp) := by rw [drop_ethHdr h, hp]
  rw [divertVerdict_of_parse hp, winpkVerdict_of_parse (ethHdr_le_length h) hf, hd, hv]
  exact ⟨rfl, rfl⟩

-- A SYN from `10.0.0.2` to `8.8.8.8`.
def synV4 : List UInt8 :=
  [0x45, 0, 0, 40, 0, 1, 0, 0, 64, 6, 0, 0, 10, 0, 0, 2, 8, 8, 8, 8, 0x30, 0x39, 1, 0xbb] ++
    List.replicate 8 0 ++ [0x50, 2] ++ List.replicate 6 0

theorem back_ends_agree_synV4 :
    Corresponds synV4 (divertVerdict (fun _ => none) ⟨0, {}, fun _ => none⟩ everythingTunnelled {} synV4)
      (winpkVerdict (fun _ => none) ⟨0, {}, fun _ => none⟩ everythingTunnelled {}
        (List.replicate 14 0 ++ synV4) true) := by
  refine (back_ends_agree _ _ _ _ (List.replicate 14 0) synV4 rfl).1.mpr ?_
  have hp : parseFlow synV4 = some (⟨.tcp, false, 12345, .v4 0x08080808, 443⟩, .v4 0x0a000002) := by
    decide +kernel
  rw [tunnelsV6_iff hp]
  exact fun h => by cases h.1

end JammVpn.Windows
