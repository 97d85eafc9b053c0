import JammVpn.Lib.Ipv6
import JammVpn.Net.Connect
import JammVpn.Net.Http

-- What a server reads of a target that has been printed.
namespace JammVpn

open Ip Text

section Grammar

-- An address of IPv6, which can have a zone.
def isV6Text (host : List Char) : Bool :=
  match IpAddr.parse (host.takeWhile (· != '%')) with
  | some (.v6 _) => true
  | _            => false

-- `host:port`, where an address of IPv6 is in brackets. Names have neither colons nor brackets.
def readHostPort (s : List Char) : Option (List Char × Nat) :=
  match stripPrefix ['['] s with
  | some s =>
    match splitOnce ']' s with
    | none              => none
    | some (host, rest) =>
      if isV6Text host then
        (stripPrefix [':'] rest).bind fun port => (parseUnsigned 65536 port).map (host, ·)
      else none
  | none   =>
    match splitOnce ':' s with
    | none              => none
    | some (host, port) =>
      if '[' ∈ host ∨ ']' ∈ host then none else (parseUnsigned 65536 port).map (host, ·)

end Grammar

namespace Target

variable {t : Target} {host s : List Char} {port : Nat}

-- The host without brackets.
def hostText : Target → List Char
  | domain host _              => host.toList
  | socket (.v4 a _)           => displayV4 a
  | socket (.v6 a _ _ scope)   => displayV6 a ++ if scope = 0 then [] else '%' :: decimal scope

-- The address that is meant, if it is one.
def literal : Target → Option IpAddr
  | domain host _ => IpAddr.parse host.toList
  | socket addr   => some addr.ip

structure Unambiguous (t : Target) : Prop where
  recovered : readHostPort t.display = some (t.hostText, t.port)
  bracketed : ∀ a, t.literal = some (.v6 a) → t.display.head? = some '['

-- A name that is not an address of IPv6, with or without its brackets.
def Plain (t : Target) : Prop :=
  ∀ host port, t = .domain host port → ':' ∉ host.toList ∧ '[' ∉ host.toList ∧ ']' ∉ host.toList

theorem readHostPort_plain (hc : ':' ∉ host) (ho : '[' ∉ host) (hb : ']' ∉ host) (hp : port < 65536) :
    readHostPort (host ++ ':' :: decimal port) = some (host, port) := by
  have hhead : (host ++ ':' :: decimal port).head? ≠ some '[' := by
    cases host
    case nil => exact fun h => by cases h
    case cons c host =>
      intro h
      cases h
      exact ho List.mem_cons_self
  rw [readHostPort, stripPrefix_single_eq_none hhead]
  dsimp only
  rw [splitOnce_append hc]
  dsimp only
  rw [if_neg (not_or.mpr ⟨ho, hb⟩), parseUnsigned_decimal hp]
  rfl

theorem readHostPort_bracketed (hb : ']' ∉ host) (hv : isV6Text host = true) (hp : port < 65536) :
    readHostPort ('[' :: (host ++ ']' :: ':' :: decimal port)) = some (host, port) := by
  have hopen : stripPrefix ['['] ('[' :: (host ++ ']' :: ':' :: decimal port)) =
      some (host ++ ']' :: ':' :: decimal port) :=
    stripPrefix_append ['['] _
  have hcolon : stripPrefix [':'] (':' :: decimal port) = some (decimal port) := stripPrefix_append [':'] _
  rw [readHostPort, hopen]
  dsimp only
  rw [splitOnce_append hb]
  dsimp only
  rw [if_pos hv, hcolon, Option.bind_some, parseUnsigned_decimal hp]
  rfl

theorem not_mem_displayV4 {c : Char} {a : BitVec 32} (hc : c.isDigit = false) (hdot : c ≠ '.') : c ∉ displayV4 a := by
  simp only [displayV4, List.mem_append, List.mem_cons, not_or]
  exact ⟨not_mem_decimal hc _, hdot, not_mem_decimal hc _, hdot, not_mem_decimal hc _, hdot, not_mem_decimal hc _⟩

theorem not_mem_displayV6 {c : Char} {a : BitVec 128} (hc : toDigit 16 c = none) (hcolon : c ≠ ':') (hdot : c ≠ '.') :
    c ∉ displayV6 a :=
  not_mem_display hc hcolon hdot (.v6 a)

theorem isV6Text_hostText (a : BitVec 128) (port flow scope : Nat) :
    isV6Text (hostText (.socket (.v6 a port flow scope))) = true := by
  have hall : ∀ c ∈ displayV6 a, (c != '%') = true := by
    rintro c hc
    rw [bne_iff_ne]
    rintro rfl
    exact not_mem_displayV6 rfl (by decide) (by decide) hc
  have hzone : (if scope = 0 then [] else '%' :: decimal scope).takeWhile (· != '%') = [] := by
    split <;> rfl
  rw [isV6Text, hostText, List.takeWhile_append_of_pos hall, hzone, List.append_nil]
  rw [show IpAddr.parse (displayV6 a) = some (.v6 a) from IpAddr.parse_display (.v6 a)]

theorem Plain.unambiguous (h : t.Plain) (hp : t.port < 65536) : t.Unambiguous := by
  cases t
  case domain host port =>
    obtain ⟨hc, ho, hb⟩ := h _ _ rfl
    refine ⟨readHostPort_plain hc ho hb hp, fun a ha => absurd (IpAddr.colon_mem_of_parse ha) hc⟩
  case socket addr =>
    cases addr
    case v4 a port =>
      refine ⟨readHostPort_plain ?_ ?_ ?_ hp, nofun⟩
      all_goals exact not_mem_displayV4 (by decide) (by decide)
    case v6 a port flow scope =>
      have hb : ']' ∉ hostText (.socket (.v6 a port flow scope)) := by
        rw [hostText, List.mem_append, not_or]
        refine ⟨not_mem_displayV6 rfl (by decide) (by decide), ?_⟩
        split
        case isTrue  => exact List.not_mem_nil
        case isFalse => exact List.not_mem_cons_of_ne_of_not_mem (by decide) (not_mem_decimal (by decide) _)
      exact ⟨readHostPort_bracketed hb (isV6Text_hostText a port flow scope) hp, fun _ _ => rfl⟩

-- In front of the closing bracket there would be the name, with a bracket before it.
theorem ne_of_bracketed {rest : List Char} (hs : s = host ++ ']' :: rest) :
    host ++ ':' :: decimal port ≠ '[' :: s := by
  intro h
  rw [hs] at h
  have h₁ : host ++ [':'] ++ decimal port = '[' :: host ++ ']' :: rest := by
    rw [List.append_assoc]
    exact h
  obtain ⟨h₂, _⟩ := List.append_inj h₁ (by simp)
  have hcount := congrArg (List.count ':') h₂
  simp at hcount

theorem Unambiguous.plain (h : t.Unambiguous) : t.Plain := by
  rintro host port rfl
  have hr := h.recovered
  rw [readHostPort] at hr
  split at hr
  case h_1 s hs =>
    split at hr
    case h_1 => cases hr
    case h_2 name rest hsplit =>
      split at hr
      case isFalse => cases hr
      case isTrue =>
        obtain ⟨p, _, hr⟩ := Option.bind_eq_some_iff.mp hr
        obtain ⟨_, _, hr⟩ := Option.map_eq_some_iff.mp hr
        cases hr
        exact absurd (stripPrefix_eq_some_iff.mp hs) (ne_of_bracketed (splitOnce_eq_some_iff.mp hsplit).left)
  case h_2 =>
    split at hr
    case h_1 => cases hr
    case h_2 name rest hsplit =>
      split at hr
      case isTrue => cases hr
      case isFalse hn =>
        obtain ⟨_, _, hr⟩ := Option.map_eq_some_iff.mp hr
        cases hr
        exact ⟨(splitOnce_eq_some_iff.mp hsplit).right, not_or.mp hn⟩

theorem hostport_eq (t : Target) : Outbound.hostport t = t.display := by
  cases t <;> rfl

-- Both requests have the printed form in them. It can be read back, with the addresses of IPv6 in brackets, exactly if
-- a target that has come as a name has neither colons nor brackets in it.
theorem unambiguous_iff (hp : t.port < 65536) :
    (∀ cfg, Outbound.httpConnectRequest cfg t =
      Utf8.encode ("CONNECT ".toList ++ t.display ++ " HTTP/1.1\r\nHost: ".toList ++ t.display ++ "\r\n".toList ++
        Outbound.httpAuthorization cfg ++ "\r\n".toList)) ∧
      Hysteria2.encodeTcpRequest t = Hysteria2.putVarint Hysteria2.tcpRequestId ++
        (Hysteria2.putVarint (Utf8.encode t.display).length ++ Utf8.encode t.display) ++ Hysteria2.putVarint 0 ∧
      (t.Unambiguous ↔ t.Plain) := by
  refine ⟨?_, rfl, Unambiguous.plain, fun h => h.unambiguous hp⟩
  intro cfg
  rw [Outbound.httpConnectRequest, hostport_eq]

theorem unambiguous_iff_name : (Target.domain "a.b" 443).Unambiguous := by
  apply (unambiguous_iff (by decide)).right.right.mpr
  rintro _ _ ⟨⟩
  decide

-- A client of the HTTP proxy asks for an address of IPv6.
def connectV6 : List UInt8 :=
  Http.headOf [Http.ascii "CONNECT [::1]:443 HTTP/1.1"]

-- The brackets are gone, and nobody puts them back.
theorem not_unambiguous_v6 :
    Http.IsHead connectV6 ∧ Http.request connectV6 = .connect "::1".toList 443 ∧
      (Target.domain "::1" 443).display = "::1:443".toList ∧ readHostPort "::1:443".toList = none ∧
      ¬(Target.domain "::1" 443).Unambiguous := by
  refine ⟨Http.isHead_headOf (by simp) (by decide +kernel), by decide +kernel, by decide, by decide, ?_⟩
  intro h
  have hr := h.recovered
  revert hr
  decide

end Target
end JammVpn
