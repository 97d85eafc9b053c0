import Mathlib.Tactic.IntervalCases
import JammVpn.Wfp.Driver
import JammVpn.Wfp.Ipc

namespace JammVpn.Wfp

open Bytes Ip

-- How the driver sees an address and a subnet.
def jammIp : IpAddr → JammIp
  | .v4 a => { family := 4, addr := toBe 4 a.toNat ++ List.replicate 12 0 }
  | .v6 a => { family := 6, addr := toBe 16 a.toNat }

def jammCidr (c : IpCidr) : JammCidr where
  ip := jammIp c.base
  maskLen := .ofNat c.prefixLen

theorem jammIp_inj {a b : IpAddr} : jammIp a = jammIp b ↔ a = b := by
  constructor
  case mpr => exact fun h => by rw [h]
  case mp =>
    intro h
    cases a <;> cases b <;> simp only [jammIp, JammIp.mk.injEq] at h
    case v4.v6 => exact absurd h.1 (by decide)
    case v6.v4 => exact absurd h.1 (by decide)
    case v4.v4 a b =>
      have h := List.append_cancel_right h.2
      exact congrArg _ (BitVec.eq_of_toNat_eq ((toBe_inj a.isLt b.isLt).mp h))
    case v6.v6 a b =>
      exact congrArg _ (BitVec.eq_of_toNat_eq ((toBe_inj a.isLt b.isLt).mp h.2))

-- The bits of a byte that the driver compares.
theorem and_byteMask_eq_iff {r : Nat} (hr : r < 8) (x y : UInt8) :
    x &&& .ofNat (0xff <<< (8 - r)) = y &&& .ofNat (0xff <<< (8 - r)) ↔
      x.toNat / 2 ^ (8 - r) = y.toNat / 2 ^ (8 - r) := by
  have hm : ∀ r < 8, (UInt8.ofNat (0xff <<< (8 - r))).toBitVec = IpCidr.mask 8 r := by decide
  rw [← UInt8.toBitVec_inj, UInt8.toBitVec_and, UInt8.toBitVec_and, hm r hr]
  exact IpCidr.and_mask_eq_iff x.toBitVec y.toBitVec

theorem getD_toBe {n k : Nat} (h : k < n) (a : Nat) (z : List UInt8) :
    (toBe n a ++ z).getD k 0 = .ofNat (a / 256 ^ (n - (k + 1))) := by
  have hl : k < (toBe n a).length := by rwa [length_toBe]
  rw [List.getD_eq_getElem?_getD, List.getElem?_append_left hl,
    ← List.getElem?_take_of_lt (Nat.lt_succ_self k), take_toBe (Nat.succ_le_of_lt h), toBe,
    List.getElem?_append_right (by rw [length_toBe])]
  simp

theorem take_append_toBe {n k : Nat} (h : k ≤ n) (a : Nat) (z : List UInt8) :
    (toBe n a ++ z).take k = toBe k (a / 256 ^ (n - k)) := by
  rw [List.take_append_of_le_length (by rwa [length_toBe]), take_toBe h]

-- A number is given by its high digits and the high bits of its last digit.
theorem div_eq_div_iff {r : Nat} (h0 : r ≠ 0) (hr : r < 8) (y y' : Nat) :
    y / 2 ^ (8 - r) = y' / 2 ^ (8 - r) ↔
      y / 256 = y' / 256 ∧ y % 256 / 2 ^ (8 - r) = y' % 256 / 2 ^ (8 - r) := by
  interval_cases r <;> omega

-- Comparing the first bytes and some bits of the next one compares the first bits.
theorem bytes_eq_iff {n p : Nat} (hp : p ≤ 8 * n) {a b : Nat} (ha : a < 256 ^ n) (hb : b < 256 ^ n)
    (z : List UInt8) :
    ((toBe n a ++ z).take (p / 8) = (toBe n b ++ z).take (p / 8) ∧ (p % 8 ≠ 0 →
      (toBe n a ++ z).getD (p / 8) 0 &&& .ofNat (0xff <<< (8 - p % 8)) =
        (toBe n b ++ z).getD (p / 8) 0 &&& .ofNat (0xff <<< (8 - p % 8)))) ↔
      a / 2 ^ (8 * n - p) = b / 2 ^ (8 * n - p) := by
  have hd := Nat.div_add_mod p 8
  have hr := Nat.mod_lt p (show 0 < 8 by decide)
  have hk : p / 8 ≤ n := by omega
  have hlt : ∀ {c}, c < 256 ^ n → c / 256 ^ (n - p / 8) < 256 ^ (p / 8) := fun hc =>
    Nat.div_lt_of_lt_mul (by rwa [← Nat.pow_add, Nat.sub_add_cancel hk])
  rw [take_append_toBe hk, take_append_toBe hk, toBe_inj (hlt ha) (hlt hb)]
  by_cases h0 : p % 8 = 0
  case pos =>
    have he : 8 * n - p = 8 * (n - p / 8) := by omega
    have hpow : (2 : Nat) ^ (8 * n - p) = 256 ^ (n - p / 8) := by
      rw [he, Nat.pow_mul]
    rw [hpow]
    exact ⟨fun h => h.1, fun h => ⟨h, fun hn => absurd h0 hn⟩⟩
  case neg =>
    have hk' : p / 8 < n := by omega
    have he : 8 * n - p = 8 * (n - (p / 8 + 1)) + (8 - p % 8) := by omega
    have hpow : (2 : Nat) ^ (8 * n - p) = 256 ^ (n - (p / 8 + 1)) * 2 ^ (8 - p % 8) := by
      rw [he, Nat.pow_add, Nat.pow_mul]
    have hpow' : 256 ^ (n - p / 8) = 256 ^ (n - (p / 8 + 1)) * 256 := by
      rw [← Nat.pow_succ]
      congr 1
      omega
    rw [getD_toBe hk', getD_toBe hk', and_byteMask_eq_iff hr, hpow, hpow', ← Nat.div_div_eq_div_mul,
      ← Nat.div_div_eq_div_mul, ← Nat.div_div_eq_div_mul, ← Nat.div_div_eq_div_mul]
    simp only [ne_eq, h0, not_false_eq_true, forall_const, UInt8.toNat_ofNat']
    exact (div_eq_div_iff h0 hr _ _).symm

theorem jammCidrContains_iff {c : JammCidr} {ip : JammIp} {p : Nat} (hf : c.ip.family = ip.family)
    (hm : min c.maskLen.toNat (if ip.family = 4 then 32 else 128) = p) :
    jammCidrContains c ip = true ↔ c.ip.addr.take (p / 8) = ip.addr.take (p / 8) ∧ (p % 8 ≠ 0 →
      c.ip.addr.getD (p / 8) 0 &&& .ofNat (0xff <<< (8 - p % 8)) =
        ip.addr.getD (p / 8) 0 &&& .ofNat (0xff <<< (8 - p % 8))) := by
  simp only [jammCidrContains, hf, ne_eq, not_true_eq_false, if_false, hm]
  by_cases h0 : p / 8 = 0
  case pos =>
    simp only [h0, not_true_eq_false, false_and, if_false, List.take_zero, true_and]
    split
    case isTrue hr  => simp [hr]
    case isFalse hr => simp [hr]
  case neg =>
    by_cases ht : c.ip.addr.take (p / 8) = ip.addr.take (p / 8)
    case neg => simp [h0, ht]
    case pos =>
      simp only [ht, not_true_eq_false, and_false, if_false, true_and]
      split
      case isTrue hr  => simp [hr]
      case isFalse hr => simp [hr]

theorem jammCidrContains_eq (c : IpCidr) (ip : IpAddr) :
    jammCidrContains (jammCidr c) (jammIp ip) = c.contains ip := by
  obtain ⟨base, p, hp⟩ := c
  cases base <;> cases ip
  case v4.v6 => rfl
  case v6.v4 => rfl
  case v4.v4 a b =>
    have hp : p ≤ 32 := hp
    have hm : min (UInt8.ofNat p).toNat 32 = p := by
      rw [UInt8.toNat_ofNat']
      omega
    change jammCidrContains _ _ = IpCidr.v4Match a b p
    rw [Bool.eq_iff_iff, IpCidr.v4Match, beq_iff_eq, IpCidr.and_mask_eq_iff]
    have hj := @jammCidrContains_iff (jammCidr ⟨.v4 a, p, hp⟩) (jammIp (.v4 b)) p rfl hm
    exact hj.trans (@bytes_eq_iff 4 p hp a.toNat b.toNat a.isLt b.isLt (List.replicate 12 0))
  case v6.v6 a b =>
    have hp : p ≤ 128 := hp
    have hm : min (UInt8.ofNat p).toNat 128 = p := by
      rw [UInt8.toNat_ofNat']
      omega
    change jammCidrContains _ _ = IpCidr.v6Match a b p
    rw [Bool.eq_iff_iff, IpCidr.v6Match, beq_iff_eq, IpCidr.and_mask_eq_iff]
    have hj := @jammCidrContains_iff (jammCidr ⟨.v6 a, p, hp⟩) (jammIp (.v6 b)) p rfl hm
    have hb := @bytes_eq_iff 16 p hp a.toNat b.toNat a.isLt b.isLt []
    simp only [List.append_nil] at hb
    exact hj.trans hb

theorem jammIpInList_eq (l : List IpCidr) (ip : IpAddr) :
    jammIpInList (l.map jammCidr) (jammIp ip) = l.any (·.contains ip) := by
  simp only [jammIpInList, List.any_map, Function.comp_def, jammCidrContains_eq]

theorem jammIpInEndpoints_eq (l : List IpAddr) (ip : IpAddr) :
    jammIpInEndpoints (l.map jammIp) (jammIp ip) = l.any (· == ip) := by
  simp only [jammIpInEndpoints, List.any_map, Function.comp_def]
  congr 1
  funext a
  rw [Bool.eq_iff_iff, beq_iff_eq, beq_iff_eq, jammIp_inj]

end JammVpn.Wfp

namespace JammVpn.Wfp

open Bytes Ip Scanner

-- What the driver keeps of the text of a matcher.
def jammText (rtl : Rtl) (s : String) : List UInt16 :=
  (unicodeString (Utf8.utf16 s.toList)).map rtl.downcaseUnicodeChar

def jammApp (rtl : Rtl) (a : AppEntry) : JammApp where
  byName := a.byName
  value := jammText rtl a.value

def jammConfig (rtl : Rtl) (cfg : DriverConfig) : JammConfig where
  mode := modeByte cfg.mode
  killSwitch := cfg.killSwitch
  redirectPort := cfg.redirectPort.toNat
  redirectPid := cfg.redirectPid.toNat
  apps := cfg.apps.map (jammApp rtl)
  bypass := cfg.bypassCidrs.map jammCidr
  forceDirect := cfg.forceDirect.map jammCidr
  forceTunnel := cfg.forceTunnel.map jammCidr
  endpoints := cfg.endpoints.map jammIp

-- Every length of the configuration fits in its 16 bits.
structure DriverConfig.Fits (cfg : DriverConfig) : Prop where
  apps        : cfg.apps.length < 65536
  texts       : ∀ a ∈ cfg.apps, (Utf8.encode a.value.toList).length < 65536
  bypassCidrs : cfg.bypassCidrs.length < 65536
  forceDirect : cfg.forceDirect.length < 65536
  forceTunnel : cfg.forceTunnel.length < 65536
  endpoints   : cfg.endpoints.length < 65536

theorem reads_jammU8 (b : UInt8) : Reads jammU8 [b] b :=
  (@reads_take [b] 1 rfl).last rfl

theorem reads_jammU16 {n : Nat} (h : n < 65536) : Reads jammU16 (pushU16 n) n :=
  (reads_take (length_toLe 2 n)).last (congrArg pure (ofLe_toLe_of_lt h))

theorem reads_jammU32 {n : Nat} (h : n < 4294967296) : Reads jammU32 (pushU32 n) n :=
  (reads_take (length_toLe 4 n)).last (congrArg pure (ofLe_toLe_of_lt h))

theorem reads_jammReadIp_of {family : UInt8} (hf : family = 4 ∨ family = 6) {addr : List UInt8}
    (h : addr.length = 16) : Reads jammReadIp (family :: addr) { family, addr } :=
  (reads_jammU8 family).bind ((reads_take h).last (if_pos hf))

theorem reads_jammReadIp (ip : IpAddr) : Reads jammReadIp (pushIp ip) (jammIp ip) := by
  cases ip
  case v4 a =>
    refine reads_jammReadIp_of (.inl rfl) ?_
    rw [List.length_append, length_toBe, List.length_replicate]
  case v6 a => exact reads_jammReadIp_of (.inr rfl) (length_toBe 16 a.toNat)

theorem reads_jammReadCidr (c : IpCidr) :
    Reads jammReadCidr (pushIp c.base ++ [.ofNat c.prefixLen]) (jammCidr c) :=
  (reads_jammReadIp c.base).bind (reads_jammU8 _).map

theorem utf16Char_ne_nil (c : Char) : Utf8.utf16Char c ≠ [] := by
  rw [Utf8.utf16Char]
  split <;> exact List.cons_ne_nil _ _

theorem reads_jammReadStr (rtl : Rtl) {s : String} (h : (Utf8.encode s.toList).length < 65536) :
    Reads (jammReadStr rtl) (pushStr s) (jammText rtl s) := by
  refine (reads_jammU16 h).bind ((reads_take rfl).last ?_)
  cases hs : s.toList
  case nil =>
    rw [jammText, hs]
    rfl
  case cons c cs =>
    have hne : (Utf8.encode (c :: cs)).length ≠ 0 := by
      have := Utf8.length_encodeChar_pos c
      rw [Utf8.encode_cons, List.length_append]
      omega
    have ⟨u, us, hu⟩ := List.exists_cons_of_ne_nil (utf16Char_ne_nil c)
    have hw : Utf8.utf16 (c :: cs) = u :: (us ++ Utf8.utf16 cs) := by
      rw [Utf8.utf16, List.flatMap_cons, hu]
      rfl
    simp only [if_neg hne, rtl.utf8_encode, hw, jammText, hs]

theorem reads_jammReadApp (rtl : Rtl) {a : AppEntry} (h : (Utf8.encode a.value.toList).length < 65536) :
    Reads (jammReadApp rtl) (encodeApp a) (jammApp rtl a) := by
  refine (reads_jammU8 _).bind ((reads_jammReadStr rtl h).last (congrArg pure ?_))
  cases hb : a.byName <;> simp [jammApp, hb]

theorem reads_jammReadList {α γ : Type} {m : Scanner α} {l : List γ} {enc : γ → List UInt8} {g : γ → α}
    (hl : l.length < 65536) (h : ∀ c ∈ l, Reads m (enc c) (g c)) :
    Reads (jammReadList m) (pushU16 l.length ++ l.flatMap enc) (l.map g) :=
  (reads_jammU16 hl).bind (reads_replicate h)

theorem reads_jammReadCidrs {l : List IpCidr} (h : l.length < 65536) :
    Reads (jammReadList jammReadCidr) (pushCidrs l) (l.map jammCidr) :=
  reads_jammReadList h fun c _ => reads_jammReadCidr c

-- What follows the version.
def encodeBody (cfg : DriverConfig) : List UInt8 :=
  [modeByte cfg.mode] ++ ([if cfg.killSwitch then 1 else 0] ++ (pushU16 cfg.redirectPort.toNat ++
    (pushU32 cfg.redirectPid.toNat ++ ((pushU16 cfg.apps.length ++ cfg.apps.flatMap encodeApp) ++
      (pushCidrs cfg.bypassCidrs ++ (pushCidrs cfg.forceDirect ++ (pushCidrs cfg.forceTunnel ++
        (pushU16 cfg.endpoints.length ++ cfg.endpoints.flatMap pushIp))))))))

theorem encodeConfig_eq (cfg : DriverConfig) :
    encodeConfig cfg = magic ++ (pushU16 version ++ encodeBody cfg) := by
  simp only [encodeConfig, encodeBody, List.append_assoc]
  rfl

theorem reads_jammReadConfig (rtl : Rtl) {cfg : DriverConfig} (h : cfg.Fits) :
    Reads (jammReadConfig rtl) (encodeBody cfg) (jammConfig rtl cfg) := by
  have happs := reads_jammReadList h.apps fun a ha => reads_jammReadApp rtl (h.texts a ha)
  have hends := reads_jammReadList h.endpoints fun ip _ => reads_jammReadIp ip
  have hks : ((if cfg.killSwitch then 1 else 0 : UInt8) ≠ 0) = (cfg.killSwitch = true) := by
    cases cfg.killSwitch <;> simp
  refine (reads_jammU8 _).bind ((reads_jammU8 _).bind ((reads_jammU16 cfg.redirectPort.toNat_lt).bind
    ((reads_jammU32 cfg.redirectPid.toNat_lt).bind (happs.bind
      ((reads_jammReadCidrs h.bypassCidrs).bind ((reads_jammReadCidrs h.forceDirect).bind
        ((reads_jammReadCidrs h.forceTunnel).bind (hends.last ?_))))))))
  simp only [jammConfig, hks, Bool.decide_eq_true]

-- The bytes before the configuration are right.
theorem jammParseConfig_eq (rtl : Rtl) (body : List UInt8) :
    jammParseConfig rtl (magic ++ (pushU16 version ++ body)) =
      if (jammReadConfig rtl ⟨body, true⟩).2.ok then .ok (jammReadConfig rtl ⟨body, true⟩).1
      else .error .invalidParameter := by
  have hm := @reads_take magic 4 rfl (pushU16 version ++ body)
  have hv := @reads_jammU16 version (by decide) body
  rw [jammParseConfig, hm]
  simp only [hv]
  rfl

theorem jammParseConfig_encodeConfig (rtl : Rtl) {cfg : DriverConfig} (h : cfg.Fits) :
    jammParseConfig rtl (encodeConfig cfg) = .ok (jammConfig rtl cfg) := by
  have hr := reads_jammReadConfig rtl h []
  rw [List.append_nil] at hr
  rw [encodeConfig_eq, jammParseConfig_eq, hr]
  rfl

end JammVpn.Wfp

-- A subnet is given by the first bits of its addresses.
namespace JammVpn.Wfp

open Bytes Ip Scanner Words

-- The bits of an address, the highest one first.
def bit : IpAddr → Nat → Bool
  | .v4 a => a.getMsbD
  | .v6 a => a.getMsbD

section Bits

variable {c : IpCidr} {ip : IpAddr} {q : Nat}

theorem contains_iff_bit (c : IpCidr) (ip : IpAddr) :
    c.contains ip = true ↔ c.base.isIpv4 = ip.isIpv4 ∧ ∀ i < c.prefixLen, bit c.base i = bit ip i := by
  obtain ⟨base, p, hp⟩ := c
  cases base <;> cases ip
  case v4.v4 a b =>
    have hp : p ≤ 32 := hp
    show IpCidr.v4Match a b p = true ↔ _
    rw [IpCidr.v4Match, beq_iff_eq, IpCidr.and_mask_eq_iff_getMsbD hp]
    exact (and_iff_right rfl).symm
  case v6.v6 a b =>
    have hp : p ≤ 128 := hp
    show IpCidr.v6Match a b p = true ↔ _
    rw [IpCidr.v6Match, beq_iff_eq, IpCidr.and_mask_eq_iff_getMsbD hp]
    exact (and_iff_right rfl).symm
  case v4.v6 => exact iff_of_false Bool.false_ne_true fun h => Bool.false_ne_true h.1.symm
  case v6.v4 => exact iff_of_false Bool.false_ne_true fun h => Bool.false_ne_true h.1

-- A subnet with a shorter prefix.
def shorten (c : IpCidr) (q : Nat) (h : q ≤ c.prefixLen) : IpCidr where
  base := c.base
  prefixLen := q
  le_width := h.trans c.le_width

theorem contains_shorten (h : q ≤ c.prefixLen) (hc : c.contains ip = true) :
    (shorten c q h).contains ip = true := by
  obtain ⟨hf, hb⟩ := (contains_iff_bit c ip).mp hc
  exact (contains_iff_bit _ ip).mpr ⟨hf, fun i hi => hb i (hi.trans_le h)⟩

end Bits

section Shifts

theorem maskShl_eq (w p : Nat) : IpCidr.maskShl w p = some (IpCidr.mask w p) := by
  rw [IpCidr.maskShl, IpCidr.mask]
  split
  case isTrue => rfl
  split
  case isTrue => rfl
  case isFalse h₀ h => exact shl?_of_lt _ (by omega)

theorem containsShl_eq (c : IpCidr) (ip : IpAddr) : c.containsShl ip = some (c.contains ip) := by
  obtain ⟨base, p, hp⟩ := c
  cases base <;> cases ip
  case v4.v4 a b =>
    show IpCidr.v4MatchShl a b p = some (IpCidr.v4Match a b p)
    rw [IpCidr.v4MatchShl, maskShl_eq]
    rfl
  case v6.v6 a b =>
    show IpCidr.v6MatchShl a b p = some (IpCidr.v6Match a b p)
    rw [IpCidr.v6MatchShl, maskShl_eq]
    rfl
  all_goals rfl

theorem byteMask_eq {r : Nat} (hr : r < 8) :
    (⟨((0xff : BitVec 32) <<< (8 - r)).setWidth 8⟩ : UInt8) = .ofNat (0xff <<< (8 - r)) := by
  have h : ∀ r < 8, (⟨((0xff : BitVec 32) <<< (8 - r)).setWidth 8⟩ : UInt8) = .ofNat (0xff <<< (8 - r)) := by
    decide
  exact h r hr

-- The addresses of the driver have room for the bits of the longer family.
theorem jammCidrContainsShl_eq {c : JammCidr} {ip : JammIp} (hc : c.ip.addr.length = 16)
    (hi : ip.addr.length = 16) : jammCidrContainsShl c ip = some (jammCidrContains c ip) := by
  simp only [jammCidrContainsShl, jammCidrContains]
  split
  case isTrue => rfl
  case isFalse =>
    have hm (m n : Nat) : (if m < n then m else n) = min n m := by
      split <;> omega
    rw [hm]
    generalize hp : min c.maskLen.toNat (if ip.family = 4 then 32 else 128) = p
    have hp : p ≤ 128 := by
      rw [← hp]
      split <;> omega
    split
    case isTrue => rfl
    split
    case isFalse => rfl
    case isTrue h =>
      have hk : p / 8 < 16 := by omega
      have hg {bs : List UInt8} (hl : bs.length = 16) : bs[p / 8]? = some (bs.getD (p / 8) 0) := by
        rw [List.getD_eq_getElem?_getD, List.getElem?_eq_getElem (hl.symm ▸ hk)]
        rfl
      have hr : p % 8 < 8 := Nat.mod_lt _ (by decide)
      rw [shl?_of_lt _ (by omega : 8 - p % 8 < 32), hg hc, hg hi, ← byteMask_eq hr]
      rfl

theorem length_jammIp (ip : IpAddr) : (jammIp ip).addr.length = 16 := by
  cases ip
  case v4 a => rw [jammIp, List.length_append, length_toBe, List.length_replicate]
  case v6 a => exact length_toBe 16 a.toNat

end Shifts

theorem cidr_prefix_equality (c : IpCidr) (ip : IpAddr) :
    (c.contains ip = true ↔ c.base.isIpv4 = ip.isIpv4 ∧ ∀ i < c.prefixLen, bit c.base i = bit ip i) ∧
    (Reads jammReadCidr (pushIp c.base ++ [.ofNat c.prefixLen]) (jammCidr c) ∧
      Reads jammReadIp (pushIp ip) (jammIp ip) ∧
      jammCidrContains (jammCidr c) (jammIp ip) = c.contains ip) ∧
    (∀ q, ∀ h : q ≤ c.prefixLen, c.contains ip = true → (shorten c q h).contains ip = true) ∧
    c.containsShl ip = some (c.contains ip) ∧
    jammCidrContainsShl (jammCidr c) (jammIp ip) = some (c.contains ip) := by
  refine ⟨contains_iff_bit c ip, ⟨reads_jammReadCidr c, reads_jammReadIp ip, jammCidrContains_eq c ip⟩,
    fun q h => contains_shorten h, containsShl_eq c ip, ?_⟩
  rw [jammCidrContainsShl_eq (length_jammIp c.base) (length_jammIp ip), jammCidrContains_eq]

end JammVpn.Wfp
