import JammVpn.Lib.Aead
import JammVpn.Lib.Bytes
import JammVpn.Lib.Utf8
import JammVpn.Net.Outbound
import JammVpn.Net.Udp

namespace JammVpn

open Bytes Ip

-- The ciphers and the key derivations of other packages. Their keys come as bytes.
structure Primitives where
  aes128Gcm         : Aead
  aes256Gcm         : Aead
  chacha20Poly1305  : Aead
  xchacha20Poly1305 : Aead
  aesDecryptBlock   : (key block : List UInt8) → List UInt8
  hkdfSha1          : (salt ikm info : List UInt8) → Nat → List UInt8
  blake3DeriveKey   : (context material : List UInt8) → List UInt8
  length_hkdfSha1   : ∀ salt ikm info n, (hkdfSha1 salt ikm info n).length = n
  length_blake3     : ∀ context material, (blake3DeriveKey context material).length = 32

-- Seals nothing, and derives keys of zeros.
def Primitives.trivial : Primitives where
  aes128Gcm := .zeroTag
  aes256Gcm := .zeroTag
  chacha20Poly1305 := .zeroTag
  xchacha20Poly1305 := .zeroTag
  aesDecryptBlock _ block := block
  hkdfSha1 _ _ _ n := List.replicate n 0
  blake3DeriveKey _ _ := List.replicate 32 0
  length_hkdfSha1 := by simp
  length_blake3 := by simp

namespace Method

def keyLen : Method → Nat
  | aes128Gcm | ss2022Aes128Gcm => 16
  | aes256Gcm | chacha20IetfPoly1305 | ss2022Aes256Gcm | ss2022Chacha20Poly1305 => 32

def saltLen (m : Method) : Nat :=
  m.keyLen

def isChacha2022 : Method → Bool
  | ss2022Chacha20Poly1305 => true
  | _                      => false

def cipher (m : Method) (p : Primitives) : Aead :=
  match m with
  | aes128Gcm | ss2022Aes128Gcm                   => p.aes128Gcm
  | aes256Gcm | ss2022Aes256Gcm                   => p.aes256Gcm
  | chacha20IetfPoly1305 | ss2022Chacha20Poly1305 => p.chacha20Poly1305

end Method

namespace Shadowsocks

variable (p : Primitives)

def sessionSubkey (method : Method) (master salt : List UInt8) : List UInt8 :=
  p.hkdfSha1 salt master "ss-subkey".toUTF8.toList method.keyLen

def sessionSubkey2022 (method : Method) (psk salt : List UInt8) : List UInt8 :=
  (p.blake3DeriveKey "shadowsocks 2022 session subkey".toUTF8.toList (psk ++ salt)).take method.keyLen

-- A key has the length that its cipher takes. (`open` and `seal` are keywords here.)
structure AeadKey where
  method : Method
  subkey : List UInt8
  length : subkey.length = method.keyLen

def AeadKey.new (method : Method) (subkey : List UInt8) : Except String AeadKey :=
  if h : subkey.length = method.keyLen then .ok { method, subkey, length := h }
  else .error "ss: неверная длина подключа"

def AeadKey.sealBytes (k : AeadKey) (nonce plain : List UInt8) : List UInt8 :=
  (k.method.cipher p).encrypt k.subkey nonce [] plain

def AeadKey.openBytes (k : AeadKey) (nonce sealed : List UInt8) : Except String (List UInt8) :=
  match (k.method.cipher p).decrypt k.subkey nonce [] sealed with
  | some plain => .ok plain
  | none       => .error "ss: ошибка расшифровки (аутентификация)"

-- A counter whose first byte is the lowest.
def incrNonce : List UInt8 → List UInt8
  | []      => []
  | b :: bs => if b + 1 ≠ 0 then (b + 1) :: bs else (b + 1) :: incrNonce bs

theorem incrNonce_toLe (w n : Nat) : incrNonce (toLe w n) = toLe w (n + 1) := by
  induction w generalizing n
  case zero => rfl
  case succ w hi =>
    have hb : UInt8.ofNat n + 1 = .ofNat (n + 1) := (UInt8.ofNat_add n 1).symm
    rw [toLe_succ, toLe_succ, incrNonce, hb]
    by_cases h : UInt8.ofNat (n + 1) = 0
    case neg =>
      have hn : ¬256 ∣ n + 1 := fun hd => h (UInt8.toNat_inj.mp (by simpa using Nat.mod_eq_zero_of_dvd hd))
      rw [if_pos h, Nat.succ_div_of_not_dvd hn]
    case pos =>
      have hn : 256 ∣ n + 1 := Nat.dvd_of_mod_eq_zero (by simpa using congrArg UInt8.toNat h)
      rw [if_neg (not_not.mpr h), hi, Nat.succ_div_of_dvd hn]

-- One direction of a stream.
structure Crypto where
  key   : AeadKey
  nonce : List UInt8

def Crypto.new (method : Method) (subkey : List UInt8) : Except String Crypto := do
  let key ← AeadKey.new method subkey
  return { key, nonce := List.replicate 12 0 }

def Crypto.sealBytes (c : Crypto) (plain : List UInt8) : List UInt8 × Crypto :=
  (c.key.sealBytes p c.nonce plain, { c with nonce := incrNonce c.nonce })

def Crypto.openBytes (c : Crypto) (sealed : List UInt8) : Except String (List UInt8 × Crypto) := do
  let plain ← c.key.openBytes p c.nonce sealed
  return (plain, { c with nonce := incrNonce c.nonce })

theorem length_sessionSubkey2022 (method : Method) (psk salt : List UInt8) :
    (sessionSubkey2022 p method psk salt).length = method.keyLen := by
  rw [sessionSubkey2022, List.length_take_of_le]
  rw [p.length_blake3]
  cases method <;> decide

-- The cipher of a stream with this salt.
def sessionCrypto (method : Method) (psk salt : List UInt8) : Crypto where
  key := {
    method
    subkey := sessionSubkey2022 p method psk salt
    length := length_sessionSubkey2022 p method psk salt
  }
  nonce := List.replicate 12 0

theorem Crypto.new_sessionSubkey2022 (method : Method) (psk salt : List UInt8) :
    Crypto.new method (sessionSubkey2022 p method psk salt) = .ok (sessionCrypto p method psk salt) := by
  rw [Crypto.new, AeadKey.new, dif_pos (length_sessionSubkey2022 p method psk salt)]
  rfl

theorem Crypto.length_sealBytes (c : Crypto) (plain : List UInt8) :
    (c.sealBytes p plain).1.length = plain.length + 16 :=
  Aead.length ..

variable {p}

-- What is opened is what has been sealed.
theorem Crypto.openBytes_eq_ok_iff {c c' : Crypto} {frame plain : List UInt8} :
    c.openBytes p frame = .ok (plain, c') ↔ (frame, c') = c.sealBytes p plain := by
  rw [Crypto.openBytes, AeadKey.openBytes, Crypto.sealBytes, AeadKey.sealBytes]
  constructor
  case mp =>
    intro h
    cases hd : (c.key.method.cipher p).decrypt c.key.subkey c.nonce [] frame
    case none =>
      rw [hd] at h
      cases h
    case some plain' =>
      rw [hd] at h
      cases h
      rw [Aead.eq_encrypt _ hd]
  case mpr =>
    intro h
    cases h
    rw [Aead.decrypt_encrypt]
    rfl

theorem Crypto.openBytes_sealBytes (c : Crypto) (plain : List UInt8) :
    c.openBytes p (c.sealBytes p plain).1 = .ok (plain, (c.sealBytes p plain).2) :=
  openBytes_eq_ok_iff.mpr rfl

theorem Crypto.length_of_openBytes {c c' : Crypto} {frame plain : List UInt8}
    (h : c.openBytes p frame = .ok (plain, c')) : frame.length = plain.length + 16 := by
  have hf : frame = (c.sealBytes p plain).1 := congrArg Prod.fst (openBytes_eq_ok_iff.mp h)
  rw [hf, Crypto.length_sealBytes]

-- As in SOCKS5.
def encodeAddress : Target → List UInt8 :=
  Udp.encodeAddress

-- Also returns what follows the address.
def parseAddress : List UInt8 → Except String (Target × List UInt8)
  | []          => .error "ss-udp: пустой заголовок"
  | atyp :: buf =>
    if atyp = 0x01 then
      if buf.length < 6 then .error "ss-udp: усечённый IPv4-адрес"
      else
        let ip := IpAddr.v4 (.ofNat 32 (ofBe (buf.take 4)))
        .ok (.socket (.new ip (ofBe ((buf.drop 4).take 2))), buf.drop 6)
    else if atyp = 0x04 then
      if buf.length < 18 then .error "ss-udp: усечённый IPv6-адрес"
      else
        let ip := IpAddr.v6 (.ofNat 128 (ofBe (buf.take 16)))
        .ok (.socket (.new ip (ofBe ((buf.drop 16).take 2))), buf.drop 18)
    else if atyp = 0x03 then
      match buf with
      | []         => .error "ss-udp: домен без байта длины"
      | len :: buf =>
        if buf.length < len.toNat + 2 then .error "ss-udp: усечённый домен"
        else
          let host := String.ofList (Utf8.decodeLossy (buf.take len.toNat))
          .ok (.domain host (ofBe ((buf.drop len.toNat).take 2)), buf.drop (len.toNat + 2))
    else .error "ss-udp: неизвестный ATYP"

end Shadowsocks
end JammVpn
