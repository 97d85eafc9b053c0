import JammVpn.Wfp.Classify
import JammVpn.Wfp.Ipc
import JammVpn.Wfp.Theorems.Decide

namespace JammVpn.Wfp

open Bytes Ip Split

namespace Reader

open Cursor

-- What the readers make of what was written, and of a part of it.

theorem reads_take {bs : List UInt8} {n : Nat} (h : bs.length = n) : Reads (take n) bs bs :=
  Cursor.reads_take h IpcError.truncated

theorem reads_u8 (b : UInt8) : Reads u8 [b] b :=
  (@reads_take [b] 1 rfl).last rfl

theorem reads_u16 {n : Nat} (h : n < 65536) : Reads u16 (pushU16 n) n :=
  (reads_take (length_toLe 2 n)).last (congrArg pure (ofLe_toLe_of_lt h))

theorem reads_u32 {n : Nat} (h : n < 4294967296) : Reads u32 (pushU32 n) n :=
  (reads_take (length_toLe 4 n)).last (congrArg pure (ofLe_toLe_of_lt h))

theorem reads_string {s : String} (h : (Utf8.encode s.toList).length < 65536) :
    Reads string (pushStr s) s := by
  refine (reads_u16 h).bind ((reads_take rfl).last ?_)
  rw [Utf8.decode_encode]
  exact congrArg pure String.ofList_toList

theorem reads_app {a : AppEntry} (h : (Utf8.encode a.value.toList).length < 65536) :
    Reads app (encodeApp a) a := by
  refine (reads_u8 _).bind ((reads_string h).last (congrArg pure ?_))
  obtain ⟨byName, value⟩ := a
  cases byName <;> rfl

theorem reads_ip_of {a : IpAddr} (fam : UInt8) {addr : List UInt8} (h : addr.length = 16)
    (ha : (if fam = 4 then return .v4 (.ofNat 32 (ofBe (addr.take 4)))
      else if fam = 6 then return .v6 (.ofNat 128 (ofBe addr))
      else Cursor.throw .truncated : Reader IpAddr) = pure a) :
    Reads ip (fam :: addr) a :=
  (reads_u8 fam).bind ((reads_take h).last ha)

theorem reads_ip (a : IpAddr) : Reads ip (pushIp a) a := by
  cases a
  case v4 a =>
    refine reads_ip_of 4 ?_ ?_
    · rw [List.length_append, length_toBe, List.length_replicate]
    · rw [if_pos rfl, List.take_left' (length_toBe 4 _), ofBe_toBe_bitVec 4 a rfl]
  case v6 a =>
    refine reads_ip_of 6 (length_toBe 16 _) ?_
    rw [if_neg (by decide), if_pos rfl, ofBe_toBe_bitVec 16 a rfl]

theorem reads_cidr (c : IpCidr) : Reads cidr (pushIp c.base ++ [.ofNat c.prefixLen]) c := by
  refine (reads_ip c.base).bind ((reads_u8 _).last ?_)
  have hw : c.base.width ≤ 128 := by cases c.base <;> simp [IpAddr.width]
  have hp : (UInt8.ofNat c.prefixLen).toNat = c.prefixLen := by
    have := c.le_width
    rw [UInt8.toNat_ofNat', Nat.mod_eq_of_lt (by omega)]
  rw [hp, IpCidr.new, IpCidr.mk?, dif_pos c.le_width]

theorem reads_list {α : Type} {m : Reader α} {l : List α} {enc : α → List UInt8} (hl : l.length < 65536)
    (h : ∀ c ∈ l, Reads m (enc c) c) :
    Reads (list m) (pushU16 l.length ++ l.flatMap enc) l := by
  have hr := reads_replicate h
  rw [List.map_id'] at hr
  exact (reads_u16 hl).bind hr

theorem reads_cidrs {l : List IpCidr} (h : l.length < 65536) : Reads cidrs (pushCidrs l) l :=
  reads_list h fun c _ => reads_cidr c

theorem reads_mode (m : SplitMode) : Reads mode [modeByte m] m := by
  refine (reads_u8 _).last ?_
  cases m <;> rfl

theorem reads_body {cfg : DriverConfig} (h : cfg.Fits) : Reads body (encodeBody cfg) cfg := by
  have happs := reads_list h.apps fun a ha => reads_app (h.texts a ha)
  have hends := reads_list h.endpoints fun a _ => reads_ip a
  refine (reads_mode _).bind ((reads_u8 _).bind ((reads_u16 cfg.redirectPort.toNat_lt).bind
    ((reads_u32 cfg.redirectPid.toNat_lt).bind (happs.bind ((reads_cidrs h.bypassCidrs).bind
      ((reads_cidrs h.forceDirect).bind ((reads_cidrs h.forceTunnel).bind (hends.last ?_))))))))
  obtain ⟨_, killSwitch, _, _, _, _, _, _, _⟩ := cfg
  cases killSwitch <;> simp only [UInt16.ofNat_toNat, UInt32.ofNat_toNat] <;> rfl

theorem reads_config {cfg : DriverConfig} (h : cfg.Fits) :
    Reads config (encodeConfig cfg) cfg := by
  rw [encodeConfig_eq]
  refine (@reads_take magic 4 rfl).bind ?_
  rw [if_neg (fun h => h rfl)]
  refine (reads_u16 (by decide)).bind ?_
  rw [if_neg (fun h => h rfl)]
  exact reads_body h

-- The readers stay in the buffer, whatever is in it.

theorem inside_take (n : Nat) : Inside (take n) .truncated :=
  Cursor.inside_take IpcError.truncated n

theorem inside_u8 : Inside u8 .truncated :=
  (inside_take 1).bind fun _ => inside_pure _

theorem inside_u16 : Inside u16 .truncated :=
  (inside_take 2).bind fun _ => inside_pure _

theorem inside_u32 : Inside u32 .truncated :=
  (inside_take 4).bind fun _ => inside_pure _

theorem inside_string : Inside string .truncated := by
  refine inside_u16.bind fun n => (inside_take n).bind fun b => ?_
  cases Utf8.decode b
  case none   => exact inside_throw _
  case some s => exact inside_pure _

theorem inside_app : Inside app .truncated :=
  inside_u8.bind fun _ => inside_string.bind fun _ => inside_pure _

theorem inside_ip : Inside ip .truncated := by
  refine inside_u8.bind fun fam => (inside_take 16).bind fun b => ?_
  by_cases h4 : fam = 4
  case pos =>
    rw [if_pos h4]
    exact inside_pure _
  case neg =>
    rw [if_neg h4]
    split
    case isTrue  => exact inside_pure _
    case isFalse => exact inside_throw _

theorem inside_cidr : Inside cidr .truncated := by
  refine inside_ip.bind fun a => inside_u8.bind fun p => ?_
  cases IpCidr.new a p.toNat
  case ok c    => exact inside_pure _
  case error e => exact inside_throw _

theorem inside_list {α : Type} {m : Reader α} (h : Inside m .truncated) : Inside (list m) .truncated :=
  inside_u16.bind fun n => inside_replicate h n

theorem inside_mode : Inside mode .truncated := by
  refine inside_u8.bind fun b => ?_
  by_cases h0 : b = 0
  case pos =>
    rw [if_pos h0]
    exact inside_pure _
  case neg =>
    rw [if_neg h0]
    split
    case isTrue  => exact inside_pure _
    case isFalse => exact inside_throw _

theorem inside_body : Inside body .truncated :=
  have hcidrs := inside_list inside_cidr
  inside_mode.bind fun _ => inside_u8.bind fun _ => inside_u16.bind fun _ => inside_u32.bind fun _ =>
    (inside_list inside_app).bind fun _ => hcidrs.bind fun _ => hcidrs.bind fun _ => hcidrs.bind fun _ =>
      (inside_list inside_ip).bind fun _ => inside_pure _

theorem inside_config : Inside config .truncated := by
  refine (inside_take 4).bind fun m => ?_
  split
  case isTrue  => exact inside_throw _
  case isFalse =>
    refine inside_u16.bind fun ver => ?_
    split
    case isTrue  => exact inside_throw _
    case isFalse => exact inside_body

end Reader

section Driver

open Scanner

def jammEnd (cfg : JammConfig) : Scanner (Except NtStatus JammConfig) :=
  fun s => (if s.ok then .ok cfg else .error .invalidParameter, s)

-- The driver's whole reader as one.
def jammScan (rtl : Rtl) : Scanner (Except NtStatus JammConfig) := do
  let m ← take 4
  if m ≠ some [0x4a, 0x56, 0x50, 0x31] then return .error .invalidParameter
  else
    let ver ← jammU16
    if ver ≠ 2 then return .error .revisionMismatch
    else
      let cfg ← jammReadConfig rtl
      jammEnd cfg

theorem jammParseConfig_eq_scan (rtl : Rtl) (buf : List UInt8) :
    jammParseConfig rtl buf = (jammScan rtl ⟨buf, true⟩).1 := by
  rw [jammParseConfig, jammScan, bind_apply]
  by_cases hm : (take 4 ⟨buf, true⟩).1 ≠ some [0x4a, 0x56, 0x50, 0x31]
  case pos =>
    rw [if_pos hm, if_pos hm]
    rfl
  case neg =>
    rw [if_neg hm, if_neg hm, bind_apply]
    dsimp only
    by_cases hv : (jammU16 (take 4 ⟨buf, true⟩).2).1 ≠ 2
    case pos =>
      rw [if_pos hv, if_pos hv]
      rfl
    case neg =>
      rw [if_neg hv, if_neg hv, bind_apply]
      rfl

theorem inside_jammEnd (cfg : JammConfig) : Inside (jammEnd cfg) := by
  refine fun s => ⟨[], rfl, fun h => ⟨h, fun rest => ?_⟩⟩
  have hok : s.ok = true := h
  simp [jammEnd, hok]

theorem inside_jammScan (rtl : Rtl) : Inside (jammScan rtl) := by
  refine (inside_take 4).bind fun m => ?_
  split
  case isTrue  => exact inside_pure _
  case isFalse =>
    refine inside_jammU16.bind fun ver => ?_
    split
    case isTrue  => exact inside_pure _
    case isFalse => exact (inside_jammReadConfig rtl).bind inside_jammEnd

theorem reads_jammScan (rtl : Rtl) {cfg : DriverConfig} (h : cfg.Fits) :
    Reads (jammScan rtl) (encodeConfig cfg) (.ok (jammConfig rtl cfg)) := by
  rw [encodeConfig_eq]
  refine (@reads_take magic 4 rfl).bind ?_
  rw [if_neg (fun h => h rfl)]
  refine (reads_jammU16 (by decide)).bind ?_
  rw [if_neg (fun h => h rfl)]
  have hend : Reads (jammEnd (jammConfig rtl cfg)) [] (.ok (jammConfig rtl cfg)) := fun _ => rfl
  have hr := (reads_jammReadConfig rtl h).bind hend
  rwa [List.append_nil] at hr

-- Rules are only had from a reader that missed nothing.
theorem ok_of_jammScan {rtl : Rtl} {s : Scan} {c : JammConfig} (h : (jammScan rtl s).1 = .ok c) :
    (jammScan rtl s).2.ok = true := by
  rw [jammScan, bind_apply] at h ⊢
  split at h
  case isTrue => cases h
  case isFalse hm =>
    rw [if_neg hm, bind_apply]
    rw [bind_apply] at h
    split at h
    case isTrue => cases h
    case isFalse hv =>
      rw [if_neg hv, bind_apply]
      rw [bind_apply, jammEnd] at h
      cases hok : (jammReadConfig rtl (jammU16 (take 4 s).2).2).2.ok
      case false =>
        rw [hok] at h
        cases h
      case true => exact hok

-- What the driver has not looked at when it returns.
def jammRest (rtl : Rtl) (buf : List UInt8) : List UInt8 :=
  (jammScan rtl ⟨buf, true⟩).2.rest

end Driver

-- How the filter engine has the address.
def remoteAddress : IpAddr → RemoteAddress
  | .v4 a => .v4 (.ofBitVec a)
  | .v6 a => .v6 ⟨(toBe 16 a.toNat).toArray, length_toBe 16 a.toNat⟩

-- Neither a flow nor a scope.
def Plain : SocketAddr → Prop
  | .v4 _ port                  => port < 65536
  | .v6 _ port flowinfo scopeId => port < 65536 ∧ flowinfo = 0 ∧ scopeId = 0

theorem length_encodeRedirectContext (a : SocketAddr) :
    (encodeRedirectContext a).length = redirectContextLen := by
  rw [encodeRedirectContext, List.length_append, length_toBe]
  cases a
  case v4 a port =>
    rw [SocketAddr.ip, pushIp, List.length_cons, List.length_append, length_toBe, List.length_replicate]
    rfl
  case v6 a port flowinfo scopeId =>
    rw [SocketAddr.ip, pushIp, List.length_cons, length_toBe]
    rfl

theorem decodeRedirectContext_of {fam : UInt8} {addr : List UInt8} (h : addr.length = 16) {port : Nat}
    (hp : port < 65536) :
    decodeRedirectContext (fam :: (addr ++ toBe 2 port)) =
      if fam = 4 then .ok (.new (.v4 (.ofNat 32 (ofBe (addr.take 4)))) port)
      else if fam = 6 then .ok (.new (.v6 (.ofNat 128 (ofBe addr))) port)
      else .error .truncated := by
  have hl : ¬(fam :: (addr ++ toBe 2 port)).length < redirectContextLen := by
    rw [List.length_cons, List.length_append, h, length_toBe]
    decide
  have ha : ((fam :: (addr ++ toBe 2 port)).drop 1).take 16 = addr := List.take_left' h
  have hport : ((fam :: (addr ++ toBe 2 port)).drop 17).take 2 = toBe 2 port := by
    rw [List.drop_succ_cons, List.drop_left' h]
    exact List.take_of_length_le (Nat.le_of_eq (length_toBe 2 port))
  rw [decodeRedirectContext, if_neg hl, ha, hport, ofBe_toBe_of_lt hp, List.headD_cons]

theorem decodeRedirectContext_encode {a : SocketAddr} (h : Plain a) :
    decodeRedirectContext (encodeRedirectContext a) = .ok a := by
  cases a
  case v4 a port =>
    have hl : (toBe 4 a.toNat ++ List.replicate 12 0).length = 16 := by
      rw [List.length_append, length_toBe, List.length_replicate]
    refine (decodeRedirectContext_of hl h).trans ?_
    rw [if_pos rfl, List.take_left' (length_toBe 4 _), ofBe_toBe_bitVec 4 a rfl]
    rfl
  case v6 a port flowinfo scopeId =>
    obtain ⟨hp, rfl, rfl⟩ := h
    refine (decodeRedirectContext_of (length_toBe 16 a.toNat) hp).trans ?_
    rw [if_neg (by decide), if_pos rfl, ofBe_toBe_bitVec 16 a rfl]
    rfl

theorem bytes_of_uint32 (v : UInt32) :
    [(v >>> 24).toUInt8, (v >>> 16).toUInt8, (v >>> 8).toUInt8, v.toUInt8] = toBe 4 v.toNat := by
  simp only [toBe_four, List.cons.injEq, ← UInt8.toNat_inj, UInt32.toNat_toUInt8, UInt32.toNat_shiftRight,
    UInt8.toNat_ofNat', Nat.shiftRight_eq_div_pow, Nat.div_div_eq_div_mul, and_true]
  exact ⟨rfl, rfl, rfl⟩

theorem bytes_of_uint16 {n : Nat} (h : n < 65536) :
    [((UInt16.ofNat n) >>> 8).toUInt8, (UInt16.ofNat n).toUInt8] = toBe 2 n := by
  simp only [toBe_two, List.cons.injEq, ← UInt8.toNat_inj, UInt16.toNat_toUInt8, UInt16.toNat_shiftRight,
    UInt8.toNat_ofNat', UInt16.toNat_ofNat', Nat.shiftRight_eq_div_pow, and_true, Nat.mod_eq_of_lt h]
  simp

theorem jammBuildDst_remoteAddress {a : SocketAddr} (h : Plain a) :
    (jammBuildDst (remoteAddress a.ip) (.ofNat a.port)).2 = encodeRedirectContext a := by
  cases a
  case v4 a port =>
    rw [encodeRedirectContext, SocketAddr.ip, remoteAddress, jammBuildDst, SocketAddr.port]
    simp only [bytes_of_uint32, bytes_of_uint16 h]
    rfl
  case v6 a port flowinfo scopeId =>
    rw [encodeRedirectContext, SocketAddr.ip, remoteAddress, jammBuildDst, SocketAddr.port]
    simp only [bytes_of_uint16 h.1]
    rfl

theorem configuration_codec (rtl : Rtl) :
    (∀ cfg : DriverConfig, cfg.Fits →
      (∀ junk, decodeConfig (encodeConfig cfg ++ junk) = .ok cfg) ∧
      ∀ front, front <+: encodeConfig cfg → front ≠ encodeConfig cfg →
        decodeConfig front = .error .truncated ∧ ∃ e, jammParseConfig rtl front = .error e) ∧
    (∀ buf : List UInt8,
      (∃ used, buf = used ++ (Reader.config buf).2 ∧
        (decodeConfig buf = .error .truncated ∨ ∀ more, decodeConfig (used ++ more) = decodeConfig buf)) ∧
      ∃ used, buf = used ++ jammRest rtl buf ∧
        ∀ c, jammParseConfig rtl buf = .ok c → ∀ more, jammParseConfig rtl (used ++ more) = .ok c) ∧
    ∀ a, Plain a →
      (encodeRedirectContext a).length = redirectContextLen ∧
      decodeRedirectContext (encodeRedirectContext a) = .ok a ∧
      (jammBuildDst (remoteAddress a.ip) (.ofNat a.port)).2 = encodeRedirectContext a := by
  refine ⟨fun cfg h => ⟨fun junk => ?_, fun front hp hn => ⟨?_, ?_⟩⟩, fun buf => ⟨?_, ?_⟩,
    fun a h => ⟨length_encodeRedirectContext a, decodeRedirectContext_encode h, jammBuildDst_remoteAddress h⟩⟩
  · exact congrArg Prod.fst (Reader.reads_config h junk)
  · exact Reader.inside_config.error_of_front (Reader.reads_config h) hp hn
  · have hf := (inside_jammScan rtl).fails_of_front (reads_jammScan rtl h) hp hn
    cases hc : jammParseConfig rtl front
    case error e => exact ⟨e, rfl⟩
    case ok c =>
      rw [jammParseConfig_eq_scan] at hc
      exact absurd (ok_of_jammScan hc) (hf ▸ Bool.false_ne_true)
  · obtain ⟨used, hu, hr⟩ := Reader.inside_config buf
    refine ⟨used, hu, hr.imp_right fun hr more => ?_⟩
    rw [decodeConfig, hr more]
    rfl
  · obtain ⟨used, hu, hr⟩ := inside_jammScan rtl ⟨buf, true⟩
    refine ⟨used, hu, fun c hc more => ?_⟩
    rw [jammParseConfig_eq_scan] at hc ⊢
    rw [(hr (ok_of_jammScan hc)).2 more, hc]

-- One of everything.
def smallConfig : DriverConfig where
  mode := .exclusive
  killSwitch := true
  redirectPort := 8080
  redirectPid := 4
  apps := [{ byName := true, value := "a" }]
  bypassCidrs := [⟨.v4 1, 32, Nat.le_refl 32⟩]
  forceDirect := []
  forceTunnel := []
  endpoints := [.v6 1]

theorem fits_smallConfig : smallConfig.Fits := by
  constructor <;> decide

theorem configuration_codec_smallConfig :
    decodeConfig (encodeConfig smallConfig ++ [0]) = .ok smallConfig ∧
      decodeConfig ((encodeConfig smallConfig).take 20) = .error .truncated ∧
      decodeRedirectContext (encodeRedirectContext (.v6 1 443 0 0)) = .ok (.v6 1 443 0 0) := by
  obtain ⟨hcfg, _, ha⟩ := configuration_codec .ascii
  obtain ⟨hr, hf⟩ := hcfg smallConfig fits_smallConfig
  refine ⟨hr [0], (hf _ (List.take_prefix 20 _) fun h => ?_).1, (ha (.v6 1 443 0 0) ?_).2.1⟩
  · exact absurd (congrArg List.length h) (by decide)
  · exact ⟨by decide, rfl, rfl⟩

end JammVpn.Wfp
