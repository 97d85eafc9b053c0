import JammVpn.Cli.Theorems.Links.Vless
import JammVpn.Cli.Theorems.Links.Shadowsocks
import JammVpn.Cli.Theorems.Links.Hysteria2

-- The link of a node is read back as that node, up to what its exporter leaves out.
namespace JammVpn.Link

open Text

variable {p : ServerProfile} {ob : Outbound}

-- What the link of a node has to keep. There are no links for the other protocols.
def Kept (p : ServerProfile) : Prop :=
  match p.protocol with
  | .vless       => VlessKept p
  | .shadowsocks => SsKept p
  | .hysteria2   => (∀ e ∈ written p, '#' ∉ e.1.toList) ∧ Hysteria2Kept p
  | _            => False

theorem exported_link_keeps_node {s : List Char} (hp : parseLink s = .ok p)
    (ho : outboundFromProfile p = .ok ob) : Exports p ob ↔ Addressable p.address ∧ Kept p := by
  have h := fromLink_parseLink hp
  cases hk : p.protocol
  case vless       => simpa only [Kept, hk] using vless_exports_iff h hk ho
  case shadowsocks => simpa only [Kept, hk] using ss_exports_iff h hk ho
  case hysteria2   => simpa only [Kept, hk, and_assoc] using hysteria2_exports_iff h hk ho
  all_goals
    refine iff_of_false ?_ fun hkept => ?_
    · rintro ⟨link, p', hl, _⟩
      rw [exportLink, hk] at hl
      cases hl
    · have hfalse := hkept.2
      simp only [Kept, hk] at hfalse

section Examples

def hysteria2Node : ServerProfile where
  name := "Node"
  protocol := .hysteria2
  address := "1.2.3.4"
  port := 8443
  params := .ofList [("auth", "Secret123"), ("insecure", "1"), ("sni", "ex.com")]
  tags := []

theorem exported_link_keeps_hysteria2Node : Exports hysteria2Node (.hysteria2 {
    server := "1.2.3.4:8443", auth := "Secret123", sni := some "ex.com", insecure := true }) := by
  have hp : parseLink "hysteria2://Secret123@1.2.3.4:8443?insecure=1&sni=ex.com#Node".toList =
    .ok hysteria2Node := rfl
  have ho : outboundFromProfile hysteria2Node = .ok (.hysteria2 {
    server := "1.2.3.4:8443", auth := "Secret123", sni := some "ex.com", insecure := true }) := rfl
  have hplain : ∀ e ∈ written hysteria2Node, PlainKey e.1 := by decide +kernel
  refine (exported_link_keeps_node hp ho).mpr ⟨?_, fun e he => ?_, ?_⟩
  · exact ⟨⟨by decide, by decide⟩, by decide, by decide⟩
  · exact hplain e he ▸ not_mem_percentEncode (by decide) e.1
  · exact (hysteria2Kept_iff_of_plain hplain ho).mpr (by decide +kernel)

-- A node that asks for the check of the certificate. Its link does not, and then there is none.
def checkedNode : ServerProfile where
  name := "n"
  protocol := .shadowsocks
  address := "1.2.3.4"
  port := 8388
  params := .ofList
    [("method", "aes-256-gcm"), ("password", "pass"), ("security", "tls"), ("allow_insecure", "0")]
  tags := []

def checkedOutbound (insecure : Bool) : Outbound :=
  .shadowsocks {
    server := "1.2.3.4:8388"
    method := .aes256Gcm
    password := "pass"
    tls := some { sni := "1.2.3.4", alpn := [], insecure }
  }

theorem exported_link_drops_check :
    ∃ p', parseLink "ss://YWVzLTI1Ni1nY206cGFzcw@1.2.3.4:8388?security=tls&allowInsecure=0#n".toList =
        .ok checkedNode ∧
      outboundFromProfile checkedNode = .ok (checkedOutbound false) ∧
      exportLink checkedNode =
        some "ss://YWVzLTI1Ni1nY206cGFzcw==@1.2.3.4:8388?security=tls#n".toList ∧
      parseLink "ss://YWVzLTI1Ni1nY206cGFzcw==@1.2.3.4:8388?security=tls#n".toList = .ok p' ∧
      outboundFromProfile p' = .ok (checkedOutbound true) ∧
      ¬Exports checkedNode (checkedOutbound false) := by
  have hp : parseLink "ss://YWVzLTI1Ni1nY206cGFzcw@1.2.3.4:8388?security=tls&allowInsecure=0#n".toList =
    .ok checkedNode := rfl
  have ho : outboundFromProfile checkedNode = .ok (checkedOutbound false) := rfl
  refine ⟨ssBack checkedNode "aes-256-gcm" "pass", hp, ho, rfl, rfl, rfl, fun h => ?_⟩
  have hkept := ((ss_exports_iff (fromLink_parseLink hp) rfl ho).mp h).2
  exact (hkept rfl "0" rfl).1 rfl

end Examples

end JammVpn.Link
