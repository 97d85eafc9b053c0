import JammVpn.Lib.Text

-- Authenticated encryption with associated data, as far as it is relied on: what is sealed is opened
-- under the same key, nonce and associated data, and nothing else is.
structure Aead where
  encrypt         : (key nonce aad plain : List UInt8) → List UInt8
  decrypt         : (key nonce aad cipher : List UInt8) → Option (List UInt8)
  decrypt_encrypt : ∀ k n a p, decrypt k n a (encrypt k n a p) = some p
  eq_encrypt      : ∀ {k n a c p}, decrypt k n a c = some p → c = encrypt k n a p
  length          : ∀ k n a p, (encrypt k n a p).length = p.length + 16

namespace Aead

-- Seals nothing: the tag is made of zeros.
def zeroTag : Aead where
  encrypt _ _ _ p := p ++ List.replicate 16 0
  decrypt _ _ _ c := Text.stripSuffix (List.replicate 16 0) c
  decrypt_encrypt _ _ _ p := Text.stripSuffix_append p _
  eq_encrypt h := Text.stripSuffix_eq_some_iff.mp h
  length _ _ _ p := by simp

theorem length_of_decrypt (a : Aead) {k n d c p : List UInt8} (h : a.decrypt k n d c = some p) :
    c.length = p.length + 16 :=
  a.eq_encrypt h ▸ a.length k n d p

end Aead
