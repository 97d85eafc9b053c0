import JammVpn.Wfp.Theorems.Cidr

namespace JammVpn.Wfp

open Ip Split Scanner

theorem parseCidrs_ok {list : List String} {l : List IpCidr} (h : parseCidrs list = .ok l) :
    (list.filterMap fun c => (IpCidr.parse c).toOption) = l ∧ l.length = list.length := by
  induction list generalizing l
  case nil =>
    cases h
    exact ⟨rfl, rfl⟩
  case cons s list hi =>
    rw [parseCidrs, List.mapM_cons] at h
    cases hs : IpCidr.parse s
    case error e =>
      rw [hs] at h
      cases h
    case ok c =>
      cases hl : parseCidrs list
      case error e =>
        rw [parseCidrs] at hl
        rw [hs, hl] at h
        cases h
      case ok l' =>
        have ⟨hm, hlen⟩ := hi hl
        rw [parseCidrs] at hl
        rw [hs, hl] at h
        cases h
        have hc : (IpCidr.parse s).toOption = some c := by rw [hs]; rfl
        exact ⟨by simp only [List.filterMap_cons, hc, hm], by rw [List.length_cons, hlen, List.length_cons]⟩

theorem cidrsContain_eq {list : List String} {l : List IpCidr} (h : parseCidrs list = .ok l) (ip : IpAddr) :
    cidrsContain list ip = jammIpInList (l.map jammCidr) (jammIp ip) := by
  rw [jammIpInList_eq, cidrsContain, (parseCidrs_ok h).1]

-- The table of the driver is that of the engine.
theorem parseCidrs_alwaysBypassCidrs :
    ∃ l, parseCidrs alwaysBypassCidrs = .ok l ∧ l.map jammCidr = builtinBypass := by
  have h : (parseCidrs alwaysBypassCidrs).toOption.map (·.map jammCidr) = some builtinBypass := by
    decide +kernel
  cases hp : parseCidrs alwaysBypassCidrs
  case error e =>
    rw [hp] at h
    cases h
  case ok l =>
    rw [hp] at h
    exact ⟨l, rfl, Option.some.inj h⟩

theorem any_endpointIp (list : List String) (ip : IpAddr) :
    (list.any fun e => endpointIp e == some ip) =
      jammIpInEndpoints ((list.filterMap endpointIp).map jammIp) (jammIp ip) := by
  rw [jammIpInEndpoints_eq, List.any_filterMap]
  congr 1
  funext e
  cases endpointIp e
  case none   => rfl
  case some a => rfl

-- What the snapshot is made of.
theorem fromSplitConfig_ok {cfg : SplitConfig} {port : UInt16} {pid : UInt32} {d : DriverConfig}
    (h : DriverConfig.fromSplitConfig cfg port pid = .ok d) :
    d.mode = cfg.mode ∧ d.apps = cfg.apps.map appEntry ∧
      parseCidrs alwaysBypassCidrs = .ok d.bypassCidrs ∧ parseCidrs cfg.forceDirectCidrs = .ok d.forceDirect ∧
      parseCidrs cfg.forceTunnelCidrs = .ok d.forceTunnel ∧
      d.endpoints = cfg.serverEndpoints.filterMap endpointIp := by
  rw [DriverConfig.fromSplitConfig] at h
  cases hb : parseCidrs alwaysBypassCidrs
  case error e => rw [hb] at h; cases h
  case ok b =>
    cases hd : parseCidrs cfg.forceDirectCidrs
    case error e => rw [hb, hd] at h; cases h
    case ok fd =>
      cases ht : parseCidrs cfg.forceTunnelCidrs
      case error e => rw [hb, hd, ht] at h; cases h
      case ok ft =>
        rw [hb, hd, ht] at h
        cases h
        exact ⟨rfl, rfl, rfl, rfl, rfl, rfl⟩

def jammDecision : Action → JammDecision
  | .direct => .direct
  | .tunnel => .tunnel
  | .block  => .block

-- Both ladders have the same steps; the driver takes the subnets that always go directly twice.
theorem jammDecide_eq (rtl : Rtl) {cfg : SplitConfig} {port : UInt16} {pid : UInt32} {d : DriverConfig}
    (h : DriverConfig.fromSplitConfig cfg port pid = .ok d) {appId : List UInt16} {req : ConnRequest}
    (ha : jammAppSelected (jammConfig rtl d) appId = appSelected cfg req.app) :
    jammDecide (jammConfig rtl d) appId (jammIp req.dstIp) = jammDecision (Split.decide req cfg true) := by
  have ⟨hm, _, hb, hd, ht, he⟩ := fromSplitConfig_ok h
  have ⟨l, hl, hbuiltin⟩ := parseCidrs_alwaysBypassCidrs
  cases hl.symm.trans hb
  have hends : (jammConfig rtl d).endpoints = (cfg.serverEndpoints.filterMap endpointIp).map jammIp :=
    congrArg (·.map jammIp) he
  have hmode : (jammConfig rtl d).mode = modeByte cfg.mode := congrArg modeByte hm
  have hbypass : (jammConfig rtl d).bypass = d.bypassCidrs.map jammCidr := rfl
  have hdirect : (jammConfig rtl d).forceDirect = d.forceDirect.map jammCidr := rfl
  have htunnel : (jammConfig rtl d).forceTunnel = d.forceTunnel.map jammCidr := rfl
  simp only [jammDecide, Split.decide, ha, ← hbuiltin, hends, hmode, hbypass, hdirect, htunnel,
    cidrsContain_eq hb, cidrsContain_eq hd, cidrsContain_eq ht, any_endpointIp]
  by_cases h1 : jammIpInEndpoints ((cfg.serverEndpoints.filterMap endpointIp).map jammIp) (jammIp req.dstIp)
  case pos => simp [h1, jammDecision]
  case neg =>
    by_cases h2 : jammIpInList (d.bypassCidrs.map jammCidr) (jammIp req.dstIp)
    case pos => simp [h1, h2, jammDecision]
    case neg =>
      by_cases h3 : jammIpInList (d.forceDirect.map jammCidr) (jammIp req.dstIp)
      case pos => simp [h1, h2, h3, jammDecision]
      case neg =>
        by_cases h4 : jammIpInList (d.forceTunnel.map jammCidr) (jammIp req.dstIp)
        case pos => simp [h1, h2, h3, h4, jammDecision]
        case neg =>
          cases cfg.mode <;> cases appSelected cfg req.app <;>
            simp [h1, h2, h3, h4, jammDecision, modeByte]

theorem jammDecision_eq_tunnel {a : Action} : jammDecision a = .tunnel ↔ a = .tunnel := by
  cases a <;> simp [jammDecision]

theorem jammDecision_eq_direct {a : Action} : jammDecision a = .direct ↔ a = .direct := by
  cases a <;> simp [jammDecision]

theorem fits_of_fromSplitConfig {cfg : SplitConfig} {port : UInt16} {pid : UInt32} {d : DriverConfig}
    (h : DriverConfig.fromSplitConfig cfg port pid = .ok d) (ha : cfg.apps.length < 65536)
    (hd : cfg.forceDirectCidrs.length < 65536) (ht : cfg.forceTunnelCidrs.length < 65536)
    (he : cfg.serverEndpoints.length < 65536)
    (hs : ∀ a ∈ cfg.apps, (Utf8.encode (appEntry a).value.toList).length < 65536) : d.Fits := by
  have ⟨_, happs, hbypass, hdirect, htunnel, hends⟩ := fromSplitConfig_ok h
  constructor
  case apps        => rwa [happs, List.length_map]
  case texts       => rwa [happs, List.forall_mem_map]
  case bypassCidrs => exact (parseCidrs_ok hbypass).2 ▸ by decide
  case forceDirect => exact (parseCidrs_ok hdirect).2 ▸ hd
  case forceTunnel => exact (parseCidrs_ok htunnel).2 ▸ ht
  case endpoints   => exact hends ▸ Nat.lt_of_le_of_lt (List.length_filterMap_le _ _) he

theorem driver_decides_like_core (rtl : Rtl) (cfg : SplitConfig) (port : UInt16) (pid : UInt32)
    (d : DriverConfig) (h : DriverConfig.fromSplitConfig cfg port pid = .ok d)
    (ha : cfg.apps.length < 65536) (hd : cfg.forceDirectCidrs.length < 65536)
    (ht : cfg.forceTunnelCidrs.length < 65536) (he : cfg.serverEndpoints.length < 65536)
    (hs : ∀ a ∈ cfg.apps, (Utf8.encode (appEntry a).value.toList).length < 65536) :
    ∃ c, jammParseConfig rtl (encodeConfig d) = .ok c ∧
      ∀ (req : ConnRequest) (appId : List UInt16), jammAppSelected c appId = appSelected cfg req.app →
        (jammDecide c appId (jammIp req.dstIp) = .tunnel ↔ Split.decide req cfg true = .tunnel) ∧
        (jammDecide c appId (jammIp req.dstIp) = .direct ↔ Split.decide req cfg true = .direct) := by
  refine ⟨_, jammParseConfig_encodeConfig rtl (fits_of_fromSplitConfig h ha hd ht he hs), ?_⟩
  intro req appId hsel
  rw [jammDecide_eq rtl h hsel]
  exact ⟨jammDecision_eq_tunnel, jammDecision_eq_direct⟩

-- A driver in a kernel that knows no case but that of ASCII.
def Rtl.ascii : Rtl where
  utf8ToUnicodeN bs := (Utf8.decode bs).map Utf8.utf16
  downcaseUnicodeChar u := if 65 ≤ u ∧ u ≤ 90 then u + 32 else u
  utf8_encode s := by rw [Utf8.decode_encode, Option.map_some]
  downcase_ascii c h := by
    have hall : ∀ n : Fin 128, (if 65 ≤ UInt16.ofNat n ∧ UInt16.ofNat n ≤ 90 then UInt16.ofNat n + 32
        else UInt16.ofNat n) = .ofNat (Text.toAsciiLowercase (Char.ofNat n)).toNat := by decide
    have := hall ⟨c.toNat, h⟩
    rwa [Char.ofNat_toNat] at this

-- One application goes through the tunnel, and so does one network.
def oneApp : SplitConfig where
  apps := [.processName "App.exe"]
  forceTunnelCidrs := ["1.1.0.0/16"]
  serverEndpoints := ["9.9.9.9:443"]

theorem driver_decides_like_core_oneApp :
    ∃ d, DriverConfig.fromSplitConfig oneApp 8080 1234 = .ok d ∧
      ∃ c, jammParseConfig .ascii (encodeConfig d) = .ok c ∧
        ∀ (req : ConnRequest) (appId : List UInt16), jammAppSelected c appId = appSelected oneApp req.app →
          (jammDecide c appId (jammIp req.dstIp) = .tunnel ↔ Split.decide req oneApp true = .tunnel) ∧
          (jammDecide c appId (jammIp req.dstIp) = .direct ↔ Split.decide req oneApp true = .direct) := by
  have hd : (DriverConfig.fromSplitConfig oneApp 8080 1234).toOption.isSome := by decide +kernel
  cases h : DriverConfig.fromSplitConfig oneApp 8080 1234
  case error e =>
    rw [h] at hd
    cases hd
  case ok d =>
    refine ⟨d, rfl, driver_decides_like_core .ascii oneApp 8080 1234 d h ?_ ?_ ?_ ?_ ?_⟩
    case refine_5 =>
      intro a ha
      rw [List.mem_singleton.mp ha]
      decide +kernel
    all_goals decide

section

variable {α : Type} {m : Scanner α}

theorem inside_jammU8 : Inside jammU8 :=
  (inside_take 1).bind fun o => by
    split <;> exact inside_pure _

theorem inside_jammU16 : Inside jammU16 :=
  (inside_take 2).bind fun o => by
    cases o <;> exact inside_pure _

theorem inside_jammU32 : Inside jammU32 :=
  (inside_take 4).bind fun o => by
    cases o <;> exact inside_pure _

theorem inside_fail_pure {α : Type} (a : α) : Inside (fail >>= fun _ => pure a) :=
  inside_fail.bind fun _ => inside_pure a

theorem inside_jammReadIp : Inside jammReadIp := by
  refine inside_jammU8.bind fun family => (inside_take 16).bind fun o => ?_
  cases o
  case none => exact inside_fail_pure _
  case some addr =>
    dsimp only
    split
    case isTrue  => exact inside_pure _
    case isFalse => exact inside_fail_pure _

theorem inside_jammReadStr (rtl : Rtl) : Inside (jammReadStr rtl) := by
  refine inside_jammU16.bind fun len => (inside_take len).bind fun o => ?_
  cases o
  case none => exact inside_pure []
  case some bytes =>
    dsimp only
    split
    case isTrue  => exact inside_pure []
    case isFalse =>
      split
      case h_1 => exact inside_fail_pure []
      case h_2 => exact inside_fail_pure []
      case h_3 => exact inside_pure _

theorem inside_jammReadApp (rtl : Rtl) : Inside (jammReadApp rtl) :=
  inside_jammU8.bind fun _ => (inside_jammReadStr rtl).bind fun _ => inside_pure _

theorem inside_jammReadCidr : Inside jammReadCidr :=
  inside_jammReadIp.bind fun _ => inside_jammU8.bind fun _ => inside_pure _

theorem inside_jammReadList {α : Type} {m : Scanner α} (h : Inside m) : Inside (jammReadList m) :=
  inside_jammU16.bind fun n => inside_replicate h n

theorem inside_jammReadConfig (rtl : Rtl) : Inside (jammReadConfig rtl) :=
  have hcidrs := inside_jammReadList inside_jammReadCidr
  inside_jammU8.bind fun _ => inside_jammU8.bind fun _ => inside_jammU16.bind fun _ =>
    inside_jammU32.bind fun _ => (inside_jammReadList (inside_jammReadApp rtl)).bind fun _ =>
      hcidrs.bind fun _ => hcidrs.bind fun _ => hcidrs.bind fun _ =>
        (inside_jammReadList inside_jammReadIp).bind fun _ => inside_pure _

theorem fails_jammReadIp {family : UInt8} (h : ¬(family = 4 ∨ family = 6)) (bs : List UInt8) :
    Fails jammReadIp (family :: bs) := by
  refine (reads_jammU8 family).bind_fails (fails_bind (fun o s => ?_) bs)
  cases o
  case none => rfl
  case some addr =>
    simp only [if_neg h]
    rfl

-- The number of elements is read, and then there is no element.
theorem fails_jammReadList {n : Nat} (hn : n < 65535) {bs : List UInt8} (hm : Fails m bs) (hi : Inside m) :
    Fails (jammReadList m) (pushU16 (n + 1) ++ bs) := by
  refine (reads_jammU16 (Nat.succ_lt_succ hn)).bind_fails (hm.bind fun a => ?_)
  exact (inside_more (inside_replicate hi n) a).sticky

end

-- A text of three bytes to a unit, and of one byte more.
def euros (n : Nat) : String :=
  String.ofList (List.replicate n '€' ++ ['a'])

theorem length_encode_euros (n : Nat) : (Utf8.encode (euros n).toList).length = 3 * n + 1 := by
  rw [euros, String.toList_ofList]
  induction n
  case zero => decide
  case succ n hi =>
    have h3 : (String.utf8EncodeChar '€').length = 3 := by decide
    rw [List.replicate_succ, List.cons_append, Utf8.encode_cons, List.length_append, hi, h3]
    omega

theorem length_utf16_euros (n : Nat) : (Utf8.utf16 (euros n).toList).length = n + 1 := by
  rw [euros, String.toList_ofList]
  induction n
  case zero => decide
  case succ n hi =>
    have h1 : (Utf8.utf16Char '€').length = 1 := by decide
    rw [Utf8.utf16] at hi ⊢
    rw [List.replicate_succ, List.cons_append, List.flatMap_cons, List.length_append, hi, h1,
      Nat.add_comm]

theorem encode_euros_succ (n : Nat) :
    Utf8.encode (euros (n + 1)).toList = 0xe2 :: 0x82 :: 0xac :: Utf8.encode (euros n).toList := by
  have he : String.utf8EncodeChar '€' = [0xe2, 0x82, 0xac] := by decide
  rw [euros, String.toList_ofList, List.replicate_succ, List.cons_append, Utf8.encode_cons, he, euros,
    String.toList_ofList]
  rfl

theorem pushStr_euros_succ (n : Nat) :
    pushStr (euros (n + 1)) =
      pushU16 (3 * (n + 1) + 1) ++ (pushU16 (33505 + 1) ++ 0xac :: Utf8.encode (euros n).toList) := by
  have hp : pushU16 (33505 + 1) = [0xe2, 0x82] := by decide
  rw [pushStr, length_encode_euros, encode_euros_succ, hp]
  rfl

-- The driver is told that the text has no bytes, and takes the first ones for its subnets.
theorem fails_jammReadConfig {d : DriverConfig} {n : Nat} (rtl : Rtl)
    (hn : pushU16 (3 * (n + 1) + 1) = [0, 0])
    (h : d.apps = [{ byName := false, value := euros (n + 1) }]) :
    Fails (jammReadConfig rtl) (encodeBody d) := by
  have happs := @reads_jammReadList _ _ _ [{ byName := false, value := "" }] encodeApp (jammApp rtl)
    (by decide) fun a ha => reads_jammReadApp rtl (List.mem_singleton.mp ha ▸ by decide)
  have hcidrs := inside_jammReadList inside_jammReadCidr
  have hends := inside_jammReadList inside_jammReadIp
  have hip : ∀ bs, Fails jammReadCidr (0xac :: bs) := fun bs =>
    (fails_jammReadIp (by decide) bs).bind fun ip => (inside_jammU8.bind fun _ => inside_pure _).sticky
  have hbody : encodeBody d = [modeByte d.mode] ++ ([if d.killSwitch then 1 else 0] ++
      (pushU16 d.redirectPort.toNat ++ (pushU32 d.redirectPid.toNat ++
        ((pushU16 1 ++ [0, 0, 0]) ++ (pushU16 (33505 + 1) ++ (0xac :: (Utf8.encode (euros n).toList ++
          (pushCidrs d.bypassCidrs ++ (pushCidrs d.forceDirect ++ (pushCidrs d.forceTunnel ++
            (pushU16 d.endpoints.length ++ d.endpoints.flatMap pushIp))))))))))) := by
    simp only [encodeBody, h, List.flatMap_singleton, encodeApp, pushStr_euros_succ, hn, List.append_assoc]
    rfl
  rw [hbody]
  refine (reads_jammU8 _).bind_fails ((reads_jammU8 _).bind_fails
    ((reads_jammU16 d.redirectPort.toNat_lt).bind_fails ((reads_jammU32 d.redirectPid.toNat_lt).bind_fails
      (happs.bind_fails ?_))))
  refine (fails_jammReadList (by decide) (hip _) inside_jammReadCidr).bind fun _ => ?_
  exact (hcidrs.bind fun _ => hcidrs.bind fun _ => hends.bind fun _ => inside_pure _).sticky

-- A text of 65536 bytes, in 21846 units.
def longText : SplitConfig where
  apps := [.exePath (euros (21844 + 1))]

theorem longText_refused :
    (∀ a ∈ longText.apps, (Utf8.utf16 (appEntry a).value.toList).length < 32768) ∧
      ∃ d, DriverConfig.fromSplitConfig longText 8080 1234 = .ok d ∧
        ∀ rtl, jammParseConfig rtl (encodeConfig d) = .error .invalidParameter := by
  refine ⟨fun a ha => ?_, ?_⟩
  case refine_1 =>
    rw [List.mem_singleton.mp ha]
    exact length_utf16_euros (21844 + 1) ▸ by decide
  case refine_2 =>
    have ⟨l, hl, _⟩ := parseCidrs_alwaysBypassCidrs
    cases hd : DriverConfig.fromSplitConfig longText 8080 1234
    case error e =>
      rw [DriverConfig.fromSplitConfig, hl] at hd
      cases hd
    case ok d =>
      refine ⟨d, rfl, fun rtl => ?_⟩
      have hf := fails_jammReadConfig rtl (by decide) (fromSplitConfig_ok hd).2.1 []
      rw [List.append_nil] at hf
      rw [encodeConfig_eq, jammParseConfig_eq, hf]
      rfl

end JammVpn.Wfp
