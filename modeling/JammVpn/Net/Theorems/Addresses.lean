import JammVpn.Net.Shadowsocks
import JammVpn.Net.Trojan
import JammVpn.Net.Vless
import JammVpn.Net.Connect
import JammVpn.Net.Http

-- What is written of a target is read as that target, and nothing else.
namespace JammVpn

open Bytes Incremental

section Target

variable {t : Target} {rest payload : List UInt8}

-- There is room for all of the target.
structure Target.Fits (t : Target) : Prop where
  host  : ∀ name port, t = .domain name port → (Utf8.encode name.toList).length ≤ 255
  port  : t.port < 65536
  plain : ∀ a port flow scope, t = .socket (.v6 a port flow scope) → flow = 0 ∧ scope = 0

-- What is read of a target that has been written.
def Target.received : Target → Target
  | .domain host port        => .domain (.ofList (Utf8.decodeLossy ((Utf8.encode host.toList).take 255))) (port % 65536)
  | .socket (.v4 a port)     => .socket (.v4 a (port % 65536))
  | .socket (.v6 a port _ _) => .socket (.v6 a (port % 65536) 0 0)

theorem Target.Fits.received (h : t.Fits) : t.received = t := by
  cases t
  case domain name port =>
    have hp : port < 65536 := h.port
    rw [Target.received, List.take_of_length_le (h.host _ _ rfl), Utf8.decodeLossy_encode, String.ofList_toList,
      Nat.mod_eq_of_lt hp]
  case socket addr =>
    cases addr
    case v4 a port =>
      have hp : port < 65536 := h.port
      rw [Target.received, Nat.mod_eq_of_lt hp]
    case v6 a port flow scope =>
      have hp : port < 65536 := h.port
      obtain ⟨rfl, rfl⟩ := h.plain _ _ _ _ rfl
      rw [Target.received, Nat.mod_eq_of_lt hp]

-- The bytes of an address, its port, and what follows.
theorem pieces {addr : List UInt8} {n : Nat} (hl : addr.length = n) (port : Nat) (rest : List UInt8) :
    ¬(addr ++ toBe 2 port ++ rest).length < n + 2 ∧ (addr ++ toBe 2 port ++ rest).take n = addr ∧
      ofBe (((addr ++ toBe 2 port ++ rest).drop n).take 2) = port % 65536 ∧
      (addr ++ toBe 2 port ++ rest).drop (n + 2) = rest := by
  have hlen : (addr ++ toBe 2 port).length = n + 2 := by rw [List.length_append, hl, length_toBe]
  refine ⟨?length, ?address, ?port, List.drop_left' hlen⟩
  case length =>
    rw [List.length_append, hlen]
    exact Nat.not_lt_of_le (Nat.le_add_right _ _)
  case address => rw [List.append_assoc, List.take_left' hl]
  case port    =>
    rw [List.append_assoc, List.drop_left' hl, List.take_left' (length_toBe 2 port), ofBe_toBe]
    rfl

-- Whatever the target is, no more is read than what has been written.
theorem Shadowsocks.parseAddress_encodeAddress (t : Target) (rest : List UInt8) :
    parseAddress (encodeAddress t ++ rest) = .ok (t.received, rest) := by
  cases t
  case domain name port =>
    have hl := List.length_take_le 255 (Utf8.encode name.toList)
    have ho : (UInt8.ofNat ((Utf8.encode name.toList).take 255).length).toNat =
        ((Utf8.encode name.toList).take 255).length := by
      rw [UInt8.toNat_ofNat', Nat.mod_eq_of_lt (Nat.lt_succ_of_le hl)]
    obtain ⟨hlt, ha, hv, hr⟩ := pieces ho.symm port rest
    simp only [encodeAddress, Udp.encodeAddress, List.cons_append, parseAddress]
    rw [if_neg (by decide), if_neg (by decide), if_pos trivial, if_neg hlt, ha, hv, hr]
    rfl
  case socket addr =>
    cases addr
    case v4 a port =>
      obtain ⟨hlt, ha, hv, hr⟩ := pieces (length_toBe 4 a.toNat) port rest
      simp only [encodeAddress, Udp.encodeAddress, List.cons_append, parseAddress]
      rw [if_pos trivial, if_neg hlt, ha, hv, hr, ofBe_toBe_bitVec 4 a rfl]
      rfl
    case v6 a port flow scope =>
      obtain ⟨hlt, ha, hv, hr⟩ := pieces (length_toBe 16 a.toNat) port rest
      simp only [encodeAddress, Udp.encodeAddress, List.cons_append, parseAddress]
      rw [if_neg (by decide), if_pos trivial, if_neg hlt, ha, hv, hr, ofBe_toBe_bitVec 16 a rfl]
      rfl

-- The address as a server could have sent it.
theorem Target.Fits.address (h : t.Fits) : ∃ a : Trojan.Address,
    a.encode ++ toBe 2 t.port = Trojan.encodeAddress t ∧ a.target (t.port % 65536) = t := by
  have hm : t.port % 65536 = t.port := Nat.mod_eq_of_lt h.port
  rw [hm]
  cases t
  case domain name port =>
    have hl := h.host _ _ rfl
    refine ⟨.name (Utf8.encode name.toList) (Nat.lt_succ_of_le hl), ?_, ?_⟩
    case refine_1 => simp [Trojan.Address.encode, Trojan.encodeAddress, Udp.encodeAddress, Target.port,
      List.take_of_length_le hl]
    case refine_2 => rw [Trojan.Address.target, Utf8.decodeLossy_encode, String.ofList_toList, Target.port]
  case socket addr =>
    cases addr
    case v4 a port => exact ⟨.v4 a, rfl, rfl⟩
    case v6 a port flow scope =>
      obtain ⟨rfl, rfl⟩ := h.plain _ _ _ _ rfl
      exact ⟨.v6 a, rfl, rfl⟩

theorem Trojan.readUdpPacket_encodeUdpPacket (h : t.Fits) (hl : payload.length ≤ 65535) :
    readUdpPacket (encodeUdpPacket t payload) = .done (t, payload) [] := by
  obtain ⟨a, he, ht⟩ := h.address
  have hp := readUdpPacket_encode ⟨a, t.port, payload, Nat.lt_succ_of_le hl⟩
  rw [Packet.encode, he, ht] at hp
  exact hp

end Target

namespace Vless

variable {t t' : Target} {as bs : List UInt8}

theorem toBe_bitVec_append_inj {w width : Nat} (hw : 2 ^ w = 256 ^ width) {a a' : BitVec w}
    (h : toBe width a.toNat ++ as = toBe width a'.toNat ++ bs) : a = a' ∧ as = bs := by
  obtain ⟨ha, hr⟩ := toBe_append_inj (hw ▸ a.isLt) (hw ▸ a'.isLt) h
  exact ⟨BitVec.eq_of_toNat_eq ha, hr⟩

-- The port has been read before.
theorem pushAddress_append_inj (ht : t.Fits) (ht' : t'.Fits) (hp : t.port = t'.port)
    (h : pushAddress t ++ as = pushAddress t' ++ bs) : t = t' ∧ as = bs := by
  cases t
  case domain name port =>
    cases t'
    case domain name' port' =>
      have hl := ht.host _ _ rfl
      have hl' := ht'.host _ _ rfl
      rw [pushAddress, pushAddress, List.take_of_length_le hl, List.take_of_length_le hl'] at h
      obtain ⟨hn, hr⟩ := field_append_inj hl hl' (List.cons.inj h).right
      cases hp
      exact ⟨by rw [String.toList_inj.mp (Utf8.encode_inj hn)], hr⟩
    case socket addr => cases addr <;> cases (List.cons.inj h).left
  case socket addr =>
    cases addr
    case v4 a port =>
      cases t'
      case domain => cases (List.cons.inj h).left
      case socket addr' =>
        cases addr'
        case v6 => cases (List.cons.inj h).left
        case v4 a' port' =>
          obtain ⟨rfl, hr⟩ := toBe_bitVec_append_inj rfl (List.cons.inj h).right
          cases hp
          exact ⟨rfl, hr⟩
    case v6 a port flow scope =>
      cases t'
      case domain => cases (List.cons.inj h).left
      case socket addr' =>
        cases addr'
        case v4 => cases (List.cons.inj h).left
        case v6 a' port' flow' scope' =>
          obtain ⟨rfl, hr⟩ := toBe_bitVec_append_inj rfl (List.cons.inj h).right
          obtain ⟨rfl, rfl⟩ := ht.plain _ _ _ _ rfl
          obtain ⟨rfl, rfl⟩ := ht'.plain _ _ _ _ rfl
          cases hp
          exact ⟨rfl, hr⟩

theorem toNat_or_high {n : Nat} (h : n < 128) : (UInt8.ofNat n ||| 0x80).toNat = 128 + n := by
  have hn : (UInt8.ofNat n).toNat = n := by
    rw [UInt8.toNat_ofNat', Nat.mod_eq_of_lt (h.trans (by decide))]
  have ho := Nat.two_pow_add_eq_or_of_lt (show n < 2 ^ 7 from h) 1
  rw [UInt8.toNat_or, hn, Nat.or_comm]
  exact ho.symm

theorem varint_small {n : Nat} (h : n / 128 = 0) : varint n = [.ofNat n] := by
  rw [varint, if_pos h]

theorem varint_large {n : Nat} (h : ¬n / 128 = 0) :
    varint n = (.ofNat (n % 128) ||| 0x80) :: varint (n / 128) := by
  rw [varint, if_neg h]

-- A last byte is not like the others.
theorem ofNat_ne_or_high {m n : Nat} (h : m / 128 = 0) : UInt8.ofNat m ≠ .ofNat (n % 128) ||| 0x80 := by
  intro he
  have hv := congrArg UInt8.toNat he
  rw [toNat_or_high (Nat.mod_lt _ (by decide)), UInt8.toNat_ofNat'] at hv
  omega

-- Of two numbers, the bytes tell where the first one ends.
theorem varint_append_inj {m n : Nat} (h : varint m ++ as = varint n ++ bs) : m = n ∧ as = bs := by
  induction m using varint.induct generalizing n
  case case1 m hm =>
    rw [varint_small hm] at h
    by_cases hn : n / 128 = 0
    case pos =>
      rw [varint_small hn] at h
      obtain ⟨hv, hr⟩ := List.cons.inj h
      exact ⟨ofNat_inj (by omega) (by omega) hv, hr⟩
    case neg =>
      rw [varint_large hn] at h
      exact absurd (List.cons.inj h).left (ofNat_ne_or_high hm)
  case case2 m hm hi =>
    rw [varint_large hm] at h
    by_cases hn : n / 128 = 0
    case pos =>
      rw [varint_small hn] at h
      exact absurd (List.cons.inj h).left.symm (ofNat_ne_or_high hn)
    case neg =>
      rw [varint_large hn] at h
      obtain ⟨hv, ht⟩ := List.cons.inj h
      have hv := congrArg UInt8.toNat hv
      rw [toNat_or_high (Nat.mod_lt _ (by decide)), toNat_or_high (Nat.mod_lt _ (by decide))] at hv
      obtain ⟨hd, hr⟩ := hi ht
      exact ⟨by omega, hr⟩

-- A flow that is absent is written as an empty one.
theorem addon_getD (flow : Option String) : addon (some (flow.getD "")) = addon flow := by
  cases flow <;> rfl

theorem encode_isEmpty {flow : String} (h : (Utf8.encode flow.toList).isEmpty = true) : flow = "" := by
  rw [List.isEmpty_iff] at h
  exact String.toList_inj.mp (Utf8.encode_inj (t := []) h)

theorem addon_inj {flow flow' : String} (h : addon (some flow) = addon (some flow')) : flow = flow' := by
  simp only [addon] at h
  split at h <;> split at h
  case isTrue.isTrue he he'   => rw [encode_isEmpty he, encode_isEmpty he']
  case isTrue.isFalse         => cases h
  case isFalse.isTrue         => cases h
  case isFalse.isFalse he he' =>
    exact String.toList_inj.mp (Utf8.encode_inj (varint_append_inj (List.cons.inj h).right).right)

-- What a request says.
structure Meaning where
  uuid    : List.Vector UInt8 16
  flow    : String
  command : UInt8
  target  : Target
  deriving DecidableEq

inductive Request
  | tcp (uuid : List.Vector UInt8 16) (flow : Option String) (target : Target)
  | udp (uuid : List.Vector UInt8 16) (target : Target)

def Request.encode : Request → List UInt8
  | tcp uuid flow target => encodeRequest uuid flow target
  | udp uuid target      => encodeRequestUdp uuid target

def Request.meaning : Request → Meaning
  | tcp uuid flow target => { uuid, flow := flow.getD "", command := cmdTcp, target }
  | udp uuid target      => { uuid, flow := "", command := cmdUdp, target }

-- There is room for the flow and for the target.
structure Meaning.Fits (m : Meaning) : Prop where
  addon  : (addon (some m.flow)).length ≤ 255
  target : m.target.Fits

def Meaning.header (m : Meaning) : List UInt8 :=
  version :: (m.uuid.toList ++ (field (Vless.addon (some m.flow)) ++
    (m.command :: (toBe 2 m.target.port ++ pushAddress m.target))))

theorem Request.encode_eq (r : Request) : r.encode = r.meaning.header := by
  cases r
  case udp => rfl
  case tcp uuid flow target => rw [encode, meaning, Meaning.header, addon_getD, encodeRequest]

theorem Meaning.header_append_inj {m m' : Meaning} (hm : m.Fits) (hm' : m'.Fits)
    (h : m.header ++ as = m'.header ++ bs) : m = m' ∧ as = bs := by
  simp only [header, List.cons_append, List.append_assoc] at h
  obtain ⟨hu, h⟩ :=
    List.append_inj (List.cons.inj h).right (by rw [List.Vector.toList_length, List.Vector.toList_length])
  obtain ⟨hf, h⟩ := field_append_inj hm.addon hm'.addon h
  obtain ⟨hc, h⟩ := List.cons.inj h
  obtain ⟨hp, h⟩ := toBe_append_inj hm.target.port hm'.target.port h
  obtain ⟨ht, hr⟩ := pushAddress_append_inj hm.target hm'.target hp h
  obtain ⟨uuid, flow, command, target⟩ := m
  obtain ⟨uuid', flow', command', target'⟩ := m'
  cases List.Vector.toList_injective hu
  cases addon_inj hf
  cases hc
  cases ht
  exact ⟨rfl, hr⟩

end Vless

-- Every codec gives back what has been put into it, and what followed it.
theorem codecs_exact :
    (∀ t : Target, t.Fits → ∀ rest,
      Shadowsocks.parseAddress (Shadowsocks.encodeAddress t ++ rest) = .ok (t, rest)) ∧
    (∀ packets : List (Target × List UInt8), (∀ p ∈ packets, p.1.Fits ∧ p.2.length ≤ 65535) →
      readAll Trojan.readUdpPacket (packets.flatMap fun p => Trojan.encodeUdpPacket p.1 p.2) = (packets, .more, [])) ∧
    ∀ r r' : Vless.Request, r.meaning.Fits → r'.meaning.Fits → ∀ payload payload',
      r.encode ++ payload = r'.encode ++ payload' ↔ r.meaning = r'.meaning ∧ payload = payload' := by
  refine ⟨?shadowsocks, ?trojan, ?vless⟩
  case shadowsocks =>
    intro t h rest
    rw [Shadowsocks.parseAddress_encodeAddress, h.received]
  case trojan =>
    intro packets h
    apply readAll_encode Trojan.lawful_readUdpPacket rfl
    intro p hp
    refine ⟨Trojan.readUdpPacket_encodeUdpPacket (h p hp).left (h p hp).right, ?_⟩
    simp [Trojan.encodeUdpPacket, Trojan.crlf]
  case vless =>
    intro r r' hr hr' payload payload'
    rw [r.encode_eq, r'.encode_eq]
    constructor
    case mp => exact Vless.Meaning.header_append_inj hr hr'
    case mpr =>
      rintro ⟨hm, rfl⟩
      rw [hm]

-- Among the requests an absent flow says what an empty one does, and a flow makes a difference.
theorem codecs_exact_named :
    let uuid := .replicate 16 1
    Target.Fits (.domain "ab" 443) ∧
      Shadowsocks.parseAddress (Shadowsocks.encodeAddress (.domain "ab" 443) ++ [9]) = .ok (.domain "ab" 443, [9]) ∧
      readAll Trojan.readUdpPacket
        ([(.domain "ab" 443, [7]), (.domain "ab" 443, [])].flatMap fun p => Trojan.encodeUdpPacket p.1 p.2) =
        ([(.domain "ab" 443, [7]), (.domain "ab" 443, [])], .more, []) ∧
      Vless.encodeRequest uuid none (.domain "ab" 443) ++ [7] =
        Vless.encodeRequest uuid (some "") (.domain "ab" 443) ++ [7] ∧
      Vless.encodeRequest uuid none (.domain "ab" 443) ++ [7] ≠
        Vless.encodeRequest uuid (some "c") (.domain "ab" 443) ++ [7] := by
  intro uuid
  have h : Target.Fits (.domain "ab" 443) := by
    refine ⟨?host, by decide, nofun⟩
    case host =>
      rintro _ _ ⟨⟩
      decide
  have hn : Vless.Meaning.Fits (Vless.Request.tcp uuid none (.domain "ab" 443)).meaning := ⟨by decide, h⟩
  have hs : Vless.Meaning.Fits (Vless.Request.tcp uuid (some "c") (.domain "ab" 443)).meaning :=
    ⟨by decide +kernel, h⟩
  have ⟨shadowsocks, trojan, vless⟩ := codecs_exact
  refine ⟨h, shadowsocks _ h _, trojan _ (by simp [h]), ?empty, fun he => ?_⟩
  case empty => exact (vless (.tcp uuid none _) (.tcp uuid (some "") _) hn hn _ _).mpr ⟨rfl, rfl⟩
  have hm := (vless (.tcp uuid none _) (.tcp uuid (some "c") _) hn hs _ _).mp he
  exact absurd (congrArg Vless.Meaning.flow hm.left) (by decide)

end JammVpn

-- Names and passwords that are too long for the bytes that count them.
namespace JammVpn.Outbound

open Bytes Incremental

section

variable {cfg : Socks5Config} {target : Target} {bs : List UInt8}

def Exchange.Writes (x : Exchange) (bss : List (List UInt8)) : Prop :=
  ∀ w ∈ x.writes, w ∈ bss

theorem Exchange.Writes.write {x : Exchange} {bss : List (List UInt8)} (h : x.Writes bss) (hb : bs ∈ bss) :
    (x.write bs).Writes bss :=
  List.forall_mem_cons.mpr ⟨hb, h⟩

theorem Exchange.Writes.read {α : Type} {r : Reader α} {server : List UInt8} {next : α → List UInt8 → Exchange}
    {bss : List (List UInt8)} (h : ∀ a rest, (next a rest).Writes bss) :
    (Exchange.read r server next).Writes bss := by
  rw [Exchange.read]
  split
  case h_1 => exact List.forall_mem_nil _
  case h_2 => exact List.forall_mem_nil _
  case h_3 => exact h _ _

theorem writes_socks5Open (server : List UInt8) {bss : List (List UInt8)} (h : socks5Request target ∈ bss) :
    (socks5Open target server).Writes bss := by
  apply Exchange.Writes.write _ h
  exact .read fun _ _ => List.forall_mem_nil _

-- Whatever the server answers, it is sent no more than this.
theorem writes_socks5Connect (cfg : Socks5Config) (target : Target) (server : List UInt8) :
    (socks5Connect cfg target server).Writes [socks5Greeting cfg, socks5Auth cfg, socks5Request target] := by
  have hopen : ∀ server, (socks5Open target server).Writes [socks5Greeting cfg, socks5Auth cfg, socks5Request target] :=
    fun server => writes_socks5Open server (by simp)
  refine .write (.read fun method server => ?_) (by simp)
  split
  case isTrue  => exact List.forall_mem_nil _
  case isFalse =>
    split
    case h_1 => exact hopen server
    case h_3 => exact List.forall_mem_nil _
    case h_2 =>
      refine .write (.read fun ar server => ?_) (by simp)
      split
      case isTrue  => exact List.forall_mem_nil _
      case isFalse => exact hopen server

-- As much of a field as there is room for.
def Cut (bs full : List UInt8) : Prop :=
  bs <+: full ∧ bs.length ≤ 255

def username (cfg : Socks5Config) : List UInt8 :=
  Utf8.encode (cfg.username.getD "").toList

def password (cfg : Socks5Config) : List UInt8 :=
  Utf8.encode (cfg.password.getD "").toList

-- The requests say how long their fields are, and a server that reads them by that finds their ends.
structure Synchronous (cfg : Socks5Config) (target : Target) : Prop where
  address : encodeSsAddress target = Shadowsocks.encodeAddress target
  parsed  : ∀ rest, ∃ t, Shadowsocks.parseAddress (encodeSsAddress target ++ rest) = .ok (t, rest)
  auth    : ∃ user pass, Cut user (username cfg) ∧ Cut pass (password cfg) ∧
    socks5Auth cfg = 0x01 :: (field user ++ field pass)
  request : ∀ host port, target = .domain host port → ∃ name, Cut name (Utf8.encode host.toList) ∧
    socks5Request target = [0x05, 0x01, 0x00, 0x03] ++ field name ++ toBe 2 port

-- Nothing has to be cut.
structure Short (cfg : Socks5Config) (target : Target) : Prop where
  host     : ∀ host port, target = .domain host port → (Utf8.encode host.toList).length ≤ 255
  username : (username cfg).length ≤ 255
  password : (password cfg).length ≤ 255

theorem encodeSsAddress_of_short
    (h : ∀ host port, target = .domain host port → (Utf8.encode host.toList).length ≤ 255) :
    encodeSsAddress target = Shadowsocks.encodeAddress target := by
  cases target
  case socket addr => cases addr <;> rfl
  case domain host port =>
    rw [encodeSsAddress, Shadowsocks.encodeAddress, Udp.encodeAddress, List.take_of_length_le (h _ _ rfl)]
    rfl

theorem Short.synchronous (h : Short cfg target) : Synchronous cfg target where
  address := encodeSsAddress_of_short h.host
  parsed rest := by
    rw [encodeSsAddress_of_short h.host]
    exact ⟨_, Shadowsocks.parseAddress_encodeAddress target rest⟩
  auth := ⟨_, _, ⟨List.prefix_refl _, h.username⟩, ⟨List.prefix_refl _, h.password⟩, rfl⟩
  request := by
    rintro host port rfl
    exact ⟨_, ⟨List.prefix_refl _, h.host _ _ rfl⟩, rfl⟩

theorem length_field (bs : List UInt8) : (field bs).length = bs.length + 1 :=
  rfl

theorem socks5Auth_eq (cfg : Socks5Config) : socks5Auth cfg = 0x01 :: (field (username cfg) ++ field (password cfg)) :=
  rfl

-- All of the name and of the password is written.
theorem Synchronous.auth_short (h : Synchronous cfg target) :
    (username cfg).length ≤ 255 ∧ (password cfg).length ≤ 255 := by
  obtain ⟨user, pass, hu, hp, ha⟩ := h.auth
  have hul := hu.left.length_le
  have hpl := hp.left.length_le
  have hl := congrArg List.length ((socks5Auth_eq cfg).symm.trans ha)
  simp only [List.length_cons, List.length_append, length_field] at hl
  exact ⟨(by omega : (username cfg).length = user.length) ▸ hu.right,
    (by omega : (password cfg).length = pass.length) ▸ hp.right⟩

-- A longer field is written whole, and its length is not.
theorem Synchronous.short (h : Synchronous cfg target) : Short cfg target where
  username := h.auth_short.left
  password := h.auth_short.right
  host     := by
    rintro host port rfl
    have hl := congrArg List.length h.address
    simp only [encodeSsAddress, Shadowsocks.encodeAddress, Udp.encodeAddress, List.length_cons, List.length_append,
      length_field, length_toBe, List.length_take] at hl
    omega

-- The requests say where their fields end exactly when none of these is too long for that.
theorem synchronous_iff (cfg : Socks5Config) (target : Target) :
    (∀ server, (socks5Connect cfg target server).Writes [socks5Greeting cfg, socks5Auth cfg, socks5Request target]) ∧
      (Synchronous cfg target ↔ Short cfg target) :=
  ⟨writes_socks5Connect cfg target, Synchronous.short, Short.synchronous⟩

-- A name of 256 bytes.
def longHost : List Char :=
  .replicate 256 'a'

def longHead : List UInt8 :=
  Http.headOf [Http.ascii "CONNECT " ++ Utf8.encode longHost ++ Http.ascii ":443 HTTP/1.1"]

theorem request_longHead : Http.request longHead = .connect longHost 443 := by
  have htext : longHead = Utf8.encode ("CONNECT ".toList ++ longHost ++ ":443 HTTP/1.1\r\n\r\n".toList) := by
    decide +kernel
  rw [Http.request, Http.parseHead, htext, Utf8.decodeLossy_encode]
  decide +kernel

theorem parseAddress_longHost :
    Shadowsocks.parseAddress (encodeSsAddress (.domain (.ofList longHost) 443)) =
      .ok (.domain "" 24929, Utf8.encode (.replicate 254 'a') ++ [1, 187]) := by
  rw [encodeSsAddress, String.toList_ofList]
  decide +kernel

-- A client of the HTTP proxy can ask for it. The server takes the name for an empty one, two of its letters
-- for the port, and the others for data.
theorem not_synchronous_longHost :
    longHead.length ≤ 16385 ∧ Http.IsHead longHead ∧ Http.request longHead = .connect longHost 443 ∧
      ¬Synchronous ⟨"", none, none⟩ (.domain (.ofList longHost) 443) ∧
      Shadowsocks.parseAddress (encodeSsAddress (.domain (.ofList longHost) 443)) =
        .ok (.domain "" 24929, Utf8.encode (.replicate 254 'a') ++ [1, 187]) := by
  refine ⟨by decide +kernel, Http.isHead_headOf (by simp) (by decide +kernel), request_longHead, ?_,
    parseAddress_longHost⟩
  intro h
  have hl := h.short.host _ _ rfl
  rw [String.toList_ofList] at hl
  exact absurd hl (by decide +kernel)

end
end JammVpn.Outbound
