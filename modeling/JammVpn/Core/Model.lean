import JammVpn.Lib.Maps
import JammVpn.Lib.Text

namespace JammVpn

theorem bind_eq_ok {ε α β : Type} {x : Except ε α} {f : α → Except ε β} {b : β} (h : (x >>= f) = .ok b) :
    ∃ a, x = .ok a ∧ f a = .ok b := by
  cases x
  case error e => cases h
  case ok a    => exact ⟨a, rfl, h⟩

-- The errors of the configuration parsers, with the text that the user sees.
inductive ParseError
  | emptyInput
  | malformedUrl (s : String)
  | unknownScheme (s : String)
  | missingHost
  | missingPort
  | invalidPort (s : String)
  | missingField (field : String)
  | base64 (s : String)
  | utf8
  | invalidCidr (s : String)
  | json (s : String)
  deriving DecidableEq, Repr

def ParseError.display : ParseError → String
  | emptyInput      => "пустой ввод"
  | malformedUrl s  => "некорректный URL: " ++ s
  | unknownScheme s => "неизвестная схема: " ++ s
  | missingHost     => "отсутствует хост"
  | missingPort     => "отсутствует порт"
  | invalidPort s   => "некорректный порт: " ++ s
  | missingField f  => "отсутствует поле: " ++ f
  | base64 s        => "ошибка base64: " ++ s
  | utf8            => "некорректный UTF-8"
  | invalidCidr s   => "некорректный CIDR/IP: " ++ s
  | json s          => "ошибка JSON: " ++ s

inductive ProtocolKind
  | vless
  | shadowsocks
  | trojan
  | wireguard
  | amneziaWg
  | socks5
  | http
  | hysteria2
  | tuic
  deriving DecidableEq, Repr

def ProtocolKind.asStr : ProtocolKind → String
  | vless       => "vless"
  | shadowsocks => "shadowsocks"
  | trojan      => "trojan"
  | wireguard   => "wireguard"
  | amneziaWg   => "amneziawg"
  | socks5      => "socks5"
  | http        => "http"
  | hysteria2   => "hysteria2"
  | tuic        => "tuic"

structure ServerProfile where
  name     : String
  protocol : ProtocolKind
  address  : String
  port     : Nat
  params   : OrdMap String String
  tags     : List String
  deriving DecidableEq

namespace ServerProfile

def param (p : ServerProfile) (key : String) : Option String :=
  p.params.get key

end ServerProfile
end JammVpn
