import JammVpn.Core.Parse.Link
import JammVpn.Net.Outbound

namespace JammVpn

-- The security of the transport that an outbound uses. TUIC and Hysteria2 run over QUIC, which has TLS.
inductive UsesSecurity : String → Outbound → Prop
  | vless {cfg : VlessConfig} {r : RealityTransport} : cfg.transport = .reality r →
    UsesSecurity "reality" (.vless cfg)
  | trojan {cfg : TrojanConfig} {r : RealityTransport} : cfg.transport = .reality r →
    UsesSecurity "reality" (.trojan cfg)
  | shadowsocks {cfg : ShadowsocksConfig} {tls : SsTls} : cfg.tls = some tls →
    UsesSecurity "tls" (.shadowsocks cfg)
  | tuic {params : TuicParams} : UsesSecurity "tls" (.tuic params)
  | hysteria2 {params : Hysteria2Params} : UsesSecurity "tls" (.hysteria2 params)

-- The protocols that have a transport of a kind of security here.
def Carries (protocol : ProtocolKind) (security : String) : Prop :=
  protocol = .vless ∧ security = "reality" ∨
    (protocol = .shadowsocks ∨ protocol = .tuic ∨ protocol = .hysteria2) ∧ security = "tls"

namespace ServerProfile

variable (p : ServerProfile)

def Has (key : String) : Prop :=
  ∃ v, p.param key = some v

def HasUuid : Prop :=
  ∃ s u, p.param "uuid" = some s ∧ parseUuid s = some u

def HasKey (key : String) : Prop :=
  ∃ s k, p.param key = some s ∧ decodeKey s = some k

-- A profile has what its protocol needs.
def Complete : Prop :=
  match p.protocol with
  | .shadowsocks => (∃ s m, p.param "method" = some s ∧ Method.fromName s = some m) ∧ p.Has "password"
  | .vless       => p.HasUuid
  | .trojan      => p.Has "password"
  | .socks5      => True
  | .http        => True
  | .tuic        => p.HasUuid ∧ p.Has "password"
  | .hysteria2   => ¬(∃ o, p.param "obfs" = some o ∧ o ≠ "") ∧ (p.Has "auth" ∨ p.Has "password")
  | .wireguard   => WireguardComplete
  | .amneziaWg   => WireguardComplete
where
  WireguardComplete : Prop :=
    p.HasKey "private_key" ∧ p.HasKey "public_key" ∧
      (p.param "preshared_key" = none ∨ p.HasKey "preshared_key") ∧
      ∃ a, p.param "address" = some a ∧ parseAddresses a ≠ []

end ServerProfile

section Ok

variable {p : ServerProfile} {key : String}

theorem ok_bind_iff {ε α β : Type} {x : Except ε α} {f : α → Except ε β} :
    (∃ b, (x >>= f) = .ok b) ↔ ∃ a, x = .ok a ∧ ∃ b, f a = .ok b := by
  cases x
  case error e =>
    constructor
    case mp =>
      rintro ⟨b, h⟩
      cases h
    case mpr =>
      rintro ⟨a, h, _⟩
      cases h
  case ok a =>
    constructor
    case mp  => exact fun h => ⟨a, rfl, h⟩
    case mpr =>
      rintro ⟨a', h, hb⟩
      cases h
      exact hb

-- A check that can fail in front of a result.
theorem unless_ok_iff {ε α : Type} {c : Bool} {e : ε} {a : α} :
    (∃ b, (if c = true then (.error e >>= fun _ : PUnit => pure a) else pure a : Except ε α) = .ok b) ↔
      c = false := by
  cases c
  case false => exact iff_of_true ⟨a, rfl⟩ rfl
  case true =>
    refine iff_of_false (fun h => ?_) Bool.noConfusion
    obtain ⟨b, h⟩ := h
    cases h

theorem require_ok_iff {v : String} : p.require key = .ok v ↔ p.param key = some v := by
  rw [ServerProfile.require]
  cases p.param key <;> simp

theorem requireUuid_ok_iff : (∃ u, p.requireUuid = .ok u) ↔ p.HasUuid := by
  rw [ServerProfile.requireUuid, ok_bind_iff]
  simp only [require_ok_iff, ServerProfile.HasUuid]
  refine exists_congr fun s => ?_
  cases parseUuid s <;> simp

theorem requireKey_ok_iff : (∃ k, p.requireKey key = .ok k) ↔ p.HasKey key := by
  rw [ServerProfile.requireKey, ok_bind_iff]
  simp only [require_ok_iff, ServerProfile.HasKey]
  refine exists_congr fun s => ?_
  cases decodeKey s <;> simp

theorem optionalKey_ok_iff :
    (∃ k, p.optionalKey key = .ok k) ↔ p.param key = none ∨ p.HasKey key := by
  rw [ServerProfile.optionalKey]
  simp only [ServerProfile.HasKey]
  cases p.param key
  case none => simp
  case some s =>
    cases hk : decodeKey s <;> simp [hk]

theorem wireguardOutbound_ok_iff :
    (∃ ob, p.wireguardOutbound = .ok ob) ↔ ServerProfile.Complete.WireguardComplete p := by
  rw [ServerProfile.wireguardOutbound, ServerProfile.Complete.WireguardComplete, ok_bind_iff,
    ← requireKey_ok_iff, ← requireKey_ok_iff, ← optionalKey_ok_iff]
  simp only [ok_bind_iff, require_ok_iff, unless_ok_iff, List.isEmpty_eq_false_iff]
  constructor
  case mp =>
    rintro ⟨k₁, h₁, k₂, h₂, k₃, h₃, a, ha⟩
    exact ⟨⟨k₁, h₁⟩, ⟨k₂, h₂⟩, ⟨k₃, h₃⟩, a, ha⟩
  case mpr =>
    rintro ⟨⟨k₁, h₁⟩, ⟨k₂, h₂⟩, ⟨k₃, h₃⟩, a, ha⟩
    exact ⟨k₁, h₁, k₂, h₂, k₃, h₃, a, ha⟩

theorem shadowsocksOutbound_ok_iff :
    (∃ ob, p.shadowsocksOutbound = .ok ob) ↔
      (∃ s m, p.param "method" = some s ∧ Method.fromName s = some m) ∧ p.Has "password" := by
  rw [ServerProfile.shadowsocksOutbound, ok_bind_iff]
  simp only [require_ok_iff, ServerProfile.Has]
  constructor
  case mp =>
    rintro ⟨s, hs, h⟩
    cases hm : Method.fromName s
    case none =>
      rw [hm] at h
      obtain ⟨ob, h⟩ := h
      cases h
    case some m =>
      rw [hm] at h
      obtain ⟨v, hv, _⟩ := ok_bind_iff.mp h
      exact ⟨⟨s, m, hs, hm⟩, v, require_ok_iff.mp hv⟩
  case mpr =>
    rintro ⟨⟨s, m, hs, hm⟩, v, hv⟩
    refine ⟨s, hs, ?_⟩
    rw [hm]
    exact ok_bind_iff.mpr ⟨v, require_ok_iff.mpr hv, _, rfl⟩

theorem hysteria2Outbound_ok_iff {ob : Outbound} :
    p.hysteria2Outbound = .ok ob ↔ (∀ v ∈ p.param "obfs", v = "") ∧
      ∃ auth, (p.param "auth").orElse (fun _ => p.param "password") = some auth ∧
        ob = .hysteria2 { server := p.server, auth, sni := p.param "sni", insecure := p.isInsecure } := by
  have hobfs : (p.param "obfs").any (· != "") = false ↔ ∀ v ∈ p.param "obfs", v = "" := by
    cases p.param "obfs" <;> simp
  rw [← hobfs, ServerProfile.hysteria2Outbound, ServerProfile.requireAuth]
  cases (p.param "obfs").any (· != "")
  case true  => exact iff_of_false (fun h => by cases h) fun h => absurd h.1 (by decide)
  case false =>
    rw [and_iff_right rfl]
    cases (p.param "auth").orElse fun _ => p.param "password"
    case none =>
      refine iff_of_false (fun h => by cases h) fun h => ?_
      obtain ⟨a, ha, _⟩ := h
      cases ha
    case some a =>
      constructor
      case mp =>
        intro h
        cases h
        exact ⟨a, rfl, rfl⟩
      case mpr =>
        rintro ⟨a', ha, rfl⟩
        cases ha
        rfl

theorem exists_hysteria2Outbound_iff :
    (∃ ob, p.hysteria2Outbound = .ok ob) ↔
      ¬(∃ o, p.param "obfs" = some o ∧ o ≠ "") ∧ (p.Has "auth" ∨ p.Has "password") := by
  have hobfs : (∀ v ∈ p.param "obfs", v = "") ↔ ¬∃ o, p.param "obfs" = some o ∧ o ≠ "" := by
    cases p.param "obfs" <;> simp
  have hauth : (∃ auth, (p.param "auth").orElse (fun _ => p.param "password") = some auth) ↔
      p.Has "auth" ∨ p.Has "password" := by
    simp only [ServerProfile.Has]
    cases p.param "auth" <;> cases p.param "password" <;> simp
  rw [← hobfs, ← hauth]
  constructor
  case mp =>
    rintro ⟨ob, ho⟩
    obtain ⟨ho, auth, ha, _⟩ := hysteria2Outbound_ok_iff.mp ho
    exact ⟨ho, auth, ha⟩
  case mpr =>
    rintro ⟨ho, auth, ha⟩
    exact ⟨_, hysteria2Outbound_ok_iff.mpr ⟨ho, auth, ha, rfl⟩⟩

-- An outbound is made of a profile that has what its protocol needs, and of no other.
theorem outboundFromProfile_ok_iff (p : ServerProfile) :
    (∃ ob, outboundFromProfile p = .ok ob) ↔ p.Complete := by
  have huuid : ∀ f : List.Vector UInt8 16 → Outbound,
      (∃ ob, (p.requireUuid >>= fun u => .ok (f u)) = .ok ob) ↔ p.HasUuid := by
    intro f
    rw [ok_bind_iff, ← requireUuid_ok_iff]
    exact exists_congr fun u => and_iff_left ⟨_, rfl⟩
  rw [outboundFromProfile, ServerProfile.Complete]
  cases p.protocol
  case vless       => exact huuid _
  case shadowsocks => exact shadowsocksOutbound_ok_iff
  case trojan =>
    rw [ServerProfile.trojanOutbound, ok_bind_iff]
    exact exists_congr fun v => by rw [require_ok_iff]; exact and_iff_left ⟨_, rfl⟩
  case wireguard   => exact wireguardOutbound_ok_iff
  case amneziaWg   => exact wireguardOutbound_ok_iff
  case socks5      => exact iff_of_true ⟨_, rfl⟩ trivial
  case http        => exact iff_of_true ⟨_, rfl⟩ trivial
  case hysteria2   => exact exists_hysteria2Outbound_iff
  case tuic =>
    rw [ServerProfile.tuicOutbound, ok_bind_iff, ← requireUuid_ok_iff]
    simp only [ok_bind_iff, require_ok_iff, ServerProfile.Has]
    constructor
    case mp =>
      rintro ⟨u, hu, v, hv, _⟩
      exact ⟨⟨u, hu⟩, v, hv⟩
    case mpr =>
      rintro ⟨⟨u, hu⟩, v, hv⟩
      exact ⟨u, hu, v, hv, _, rfl⟩

end Ok

section Uses

variable {p : ServerProfile} {ob : Outbound} {sec : String}

theorem vless_uses_iff (h : p.vlessOutbound = .ok ob) (hs : p.param "security" = some sec) :
    UsesSecurity sec ob ↔ sec = "reality" := by
  obtain ⟨uuid, -, h⟩ := bind_eq_ok h
  cases h
  constructor
  case mp =>
    intro h
    cases h
    rfl
  case mpr =>
    rintro rfl
    exact .vless (if_pos hs)

theorem trojan_not_uses (h : p.trojanOutbound = .ok ob) : ¬UsesSecurity sec ob := by
  obtain ⟨password, -, h⟩ := bind_eq_ok h
  cases h
  intro h
  cases h
  case trojan h => cases h

theorem wireguard_not_uses (h : p.wireguardOutbound = .ok ob) : ¬UsesSecurity sec ob := by
  obtain ⟨_, -, h⟩ := bind_eq_ok h
  obtain ⟨_, -, h⟩ := bind_eq_ok h
  obtain ⟨_, -, h⟩ := bind_eq_ok h
  obtain ⟨a, -, h⟩ := bind_eq_ok h
  dsimp only at h
  split at h
  case isTrue => cases h
  case isFalse =>
    cases h
    intro h
    cases h

theorem shadowsocks_uses_iff (h : p.shadowsocksOutbound = .ok ob) (hs : p.param "security" = some sec) :
    UsesSecurity sec ob ↔ sec = "tls" := by
  obtain ⟨name, -, h⟩ := bind_eq_ok h
  split at h
  case h_1 => cases h
  case h_2 =>
    obtain ⟨password, -, h⟩ := bind_eq_ok h
    cases h
    constructor
    case mp =>
      intro h
      cases h
      rfl
    case mpr =>
      rintro rfl
      exact .shadowsocks (if_pos hs)

-- An outbound has one kind of security at most.
theorem UsesSecurity.iff_eq {s : String} (h : UsesSecurity s ob) : UsesSecurity sec ob ↔ sec = s := by
  constructor
  case mp =>
    intro h'
    cases h <;> cases h' <;> rfl
  case mpr =>
    rintro rfl
    exact h

theorem tuic_uses_iff (h : p.tuicOutbound = .ok ob) : UsesSecurity sec ob ↔ sec = "tls" := by
  obtain ⟨_, -, h⟩ := bind_eq_ok h
  obtain ⟨_, -, h⟩ := bind_eq_ok h
  cases h
  exact UsesSecurity.tuic.iff_eq

theorem hysteria2_uses_iff (h : p.hysteria2Outbound = .ok ob) : UsesSecurity sec ob ↔ sec = "tls" := by
  rw [ServerProfile.hysteria2Outbound] at h
  split at h
  case isTrue  => cases h
  case isFalse =>
    obtain ⟨_, -, h⟩ := bind_eq_ok h
    cases h
    exact UsesSecurity.hysteria2.iff_eq

theorem usesSecurity_iff (h : outboundFromProfile p = .ok ob) (hs : p.param "security" = some sec) :
    UsesSecurity sec ob ↔ Carries p.protocol sec := by
  rw [outboundFromProfile] at h
  rw [Carries]
  cases hp : p.protocol <;> rw [hp] at h <;> dsimp only at h
  case vless       => simpa using vless_uses_iff h hs
  case shadowsocks => simpa using shadowsocks_uses_iff h hs
  case trojan      => simpa using trojan_not_uses h
  case wireguard   => simpa using wireguard_not_uses h
  case amneziaWg   => simpa using wireguard_not_uses h
  case tuic        => simpa using tuic_uses_iff h
  case hysteria2   => simpa using hysteria2_uses_iff h
  all_goals
    cases h
    simp only [reduceCtorEq, false_and, or_self, iff_false]
    intro h
    cases h

-- Without REALITY, VLESS goes over plain TCP, and Trojan always does.
theorem vless_tls_plain (h : p.vlessOutbound = .ok ob) (hs : p.param "security" = some "tls") :
    ∃ cfg, ob = .vless cfg ∧ cfg.transport = .tcp := by
  obtain ⟨uuid, -, h⟩ := bind_eq_ok h
  cases h
  refine ⟨_, rfl, if_neg ?_⟩
  rw [hs]
  decide

theorem trojan_plain (h : p.trojanOutbound = .ok ob) : ∃ cfg, ob = .trojan cfg ∧ cfg.transport = .tcp := by
  obtain ⟨password, -, h⟩ := bind_eq_ok h
  cases h
  exact ⟨_, rfl, rfl⟩

end Uses

-- An outbound that sends what it has to send over TCP as it is.
def Plain (ob : Outbound) : Prop :=
  (∃ cfg, ob = .vless cfg ∧ cfg.transport = .tcp) ∨ ∃ cfg, ob = .trojan cfg ∧ cfg.transport = .tcp

theorem link_tls_dropped :
    ¬∀ (link : List Char) (p : ServerProfile) (ob : Outbound), Link.parseLink link = .ok p →
      p.param "security" = some "tls" → outboundFromProfile p = .ok ob → ¬Plain ob := by
  intro h
  have hl : (Link.parseLink "trojan://pw@example.com:443?security=tls#t".toList).toOption =
      some { name := "t", protocol := .trojan, address := "example.com", port := 443,
             params := (OrdMap.empty.insert "security" "tls").insert "password" "pw", tags := [] } := by
    decide +kernel
  cases hp : Link.parseLink "trojan://pw@example.com:443?security=tls#t".toList
  case error e =>
    rw [hp] at hl
    cases hl
  case ok p =>
    rw [hp] at hl
    cases hl
    exact h _ _ _ hp (by decide +kernel) rfl (.inr ⟨_, rfl, rfl⟩)

theorem security_kept_iff (p : ServerProfile) (sec : String) (hs : p.param "security" = some sec) :
    ((∀ ob, outboundFromProfile p = .ok ob → UsesSecurity sec ob) ↔
      ¬p.Complete ∨ Carries p.protocol sec) ∧
    (∀ ob, p.protocol = .vless ∨ p.protocol = .trojan → sec = "tls" → outboundFromProfile p = .ok ob →
      Plain ob) := by
  constructor
  case left =>
    rw [← outboundFromProfile_ok_iff]
    constructor
    case mp =>
      intro h
      by_cases hc : ∃ ob, outboundFromProfile p = .ok ob
      case neg => exact .inl hc
      case pos =>
        obtain ⟨ob, ho⟩ := hc
        exact .inr ((usesSecurity_iff ho hs).mp (h ob ho))
    case mpr =>
      rintro (hn | hc) ob ho
      · exact absurd ⟨ob, ho⟩ hn
      · exact (usesSecurity_iff ho hs).mpr hc
  case right =>
    rintro ob hp rfl ho
    rw [outboundFromProfile] at ho
    rcases hp with hp | hp <;> rw [hp] at ho
    · exact .inl (vless_tls_plain ho hs)
    · exact .inr (trojan_plain ho)

theorem security_kept_iff_trojan :
    (∀ ob, outboundFromProfile ⟨"t", .trojan, "example.com", 443,
        (OrdMap.empty.insert "security" "tls").insert "password" "pw", []⟩ = .ok ob → UsesSecurity "tls" ob) ↔
      ¬(⟨"t", .trojan, "example.com", 443, (OrdMap.empty.insert "security" "tls").insert "password" "pw",
          []⟩ : ServerProfile).Complete ∨ Carries .trojan "tls" :=
  (security_kept_iff ⟨"t", .trojan, "example.com", 443,
    (OrdMap.empty.insert "security" "tls").insert "password" "pw", []⟩ "tls" (by decide +kernel)).1

end JammVpn
