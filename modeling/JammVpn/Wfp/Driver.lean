import JammVpn.Lib.Bytes
import JammVpn.Lib.Scan
import JammVpn.Lib.Text
import JammVpn.Lib.Utf8

-- The driver in the kernel: its reader of the rules, and its decisions. Allocations succeed.
namespace JammVpn.Wfp

open Bytes Scanner Words

-- What the kernel has: `RtlUTF8ToUnicodeN` is right for all that is UTF-8, and
-- `RtlDowncaseUnicodeChar` for all of ASCII.
structure Rtl where
  utf8ToUnicodeN      : List UInt8 → Option (List UInt16)
  downcaseUnicodeChar : UInt16 → UInt16
  utf8_encode         : ∀ s, utf8ToUnicodeN (Utf8.encode s) = some (Utf8.utf16 s)
  downcase_ascii      : ∀ c : Char, c.toNat < 128 →
    downcaseUnicodeChar (.ofNat c.toNat) = .ofNat (Text.toAsciiLowercase c).toNat

-- An address of the fourth version is in the first four bytes.
structure JammIp where
  family : UInt8
  addr   : List UInt8
  deriving DecidableEq

structure JammCidr where
  ip      : JammIp
  maskLen : UInt8
  deriving DecidableEq

structure JammApp where
  byName : Bool
  value  : List UInt16
  deriving DecidableEq

structure JammConfig where
  mode         : UInt8
  killSwitch   : Bool
  redirectPort : Nat
  redirectPid  : Nat
  apps         : List JammApp
  bypass       : List JammCidr
  forceDirect  : List JammCidr
  forceTunnel  : List JammCidr
  endpoints    : List JammIp
  deriving DecidableEq

inductive NtStatus
  | invalidParameter
  | revisionMismatch
  deriving DecidableEq

section Parse

def jammU8 : Scanner UInt8 := do
  match ← take 1 with
  | some [b] => return b
  | _        => return 0

def jammU16 : Scanner Nat := do
  match ← take 2 with
  | some bs => return ofLe bs
  | none    => return 0

def jammU32 : Scanner Nat := do
  match ← take 4 with
  | some bs => return ofLe bs
  | none    => return 0

def jammReadIp : Scanner JammIp := do
  let family ← jammU8
  match ← take 16 with
  | some addr =>
    if family = 4 ∨ family = 6 then return { family, addr }
    else
      fail
      return { family := 0, addr := List.replicate 16 0 }
  | none =>
    fail
    return { family := 0, addr := List.replicate 16 0 }

-- The length of a string is counted in bytes, of which 16 bits are kept.
def unicodeString (wide : List UInt16) : List UInt16 :=
  wide.take (2 * wide.length % 65536 / 2)

def jammReadStr (rtl : Rtl) : Scanner (List UInt16) := do
  let len ← jammU16
  match ← take len with
  | none       => return []
  | some bytes =>
    if len = 0 then return []
    else
      match rtl.utf8ToUnicodeN bytes with
      | none | some [] =>
        fail
        return []
      | some wide      => return (unicodeString wide).map rtl.downcaseUnicodeChar

def jammReadApp (rtl : Rtl) : Scanner JammApp := do
  let byName ← jammU8
  let value ← jammReadStr rtl
  return { byName := byName ≠ 0, value }

def jammReadCidr : Scanner JammCidr := do
  let ip ← jammReadIp
  let maskLen ← jammU8
  return { ip, maskLen }

def jammReadList {α : Type} (m : Scanner α) : Scanner (List α) := do
  let n ← jammU16
  replicate m n

def jammReadConfig (rtl : Rtl) : Scanner JammConfig := do
  let mode ← jammU8
  let killSwitch ← jammU8
  let redirectPort ← jammU16
  let redirectPid ← jammU32
  let apps ← jammReadList (jammReadApp rtl)
  let bypass ← jammReadList jammReadCidr
  let forceDirect ← jammReadList jammReadCidr
  let forceTunnel ← jammReadList jammReadCidr
  let endpoints ← jammReadList jammReadIp
  return {
    mode
    killSwitch := killSwitch ≠ 0
    redirectPort
    redirectPid
    apps
    bypass
    forceDirect
    forceTunnel
    endpoints
  }

-- Bytes behind the configuration are of no meaning.
def jammParseConfig (rtl : Rtl) (buf : List UInt8) : Except NtStatus JammConfig :=
  let magic := take 4 { rest := buf, ok := true }
  if magic.1 ≠ some [0x4a, 0x56, 0x50, 0x31] then .error .invalidParameter
  else
    let version := jammU16 magic.2
    if version.1 ≠ 2 then .error .revisionMismatch
    else
      let cfg := jammReadConfig rtl version.2
      if cfg.2.ok then .ok cfg.1 else .error .invalidParameter

end Parse

-- Compares the bytes that the prefix covers, and the bits of one more byte.
def jammCidrContains (c : JammCidr) (ip : JammIp) : Bool :=
  if c.ip.family ≠ ip.family then false
  else
    let maxBits := if ip.family = 4 then 32 else 128
    let maskLen := min c.maskLen.toNat maxBits
    let fullBytes := maskLen / 8
    let remBits := maskLen % 8
    if fullBytes ≠ 0 ∧ c.ip.addr.take fullBytes ≠ ip.addr.take fullBytes then false
    else if remBits ≠ 0 then
      let mask : UInt8 := .ofNat (0xff <<< (8 - remBits))
      c.ip.addr.getD fullBytes 0 &&& mask == ip.addr.getD fullBytes 0 &&& mask
    else true

-- The same with the accesses and the shift of the source, which is on an `int`: `none` where one of them
-- has no meaning.
def jammCidrContainsShl (c : JammCidr) (ip : JammIp) : Option Bool :=
  if c.ip.family ≠ ip.family then some false
  else
    let maxBits := if ip.family = 4 then 32 else 128
    let maskLen := if maxBits < c.maskLen.toNat then maxBits else c.maskLen.toNat
    let fullBytes := maskLen / 8
    let remBits := maskLen % 8
    if fullBytes ≠ 0 ∧ c.ip.addr.take fullBytes ≠ ip.addr.take fullBytes then some false
    else if remBits ≠ 0 then do
      let mask : UInt8 := ⟨(← shl? (0xff : BitVec 32) (8 - remBits)).setWidth 8⟩
      return (← c.ip.addr[fullBytes]?) &&& mask == (← ip.addr[fullBytes]?) &&& mask
    else some true

def jammIpInList (list : List JammCidr) (ip : JammIp) : Bool :=
  list.any (jammCidrContains · ip)

def jammIpInEndpoints (list : List JammIp) (ip : JammIp) : Bool :=
  list.any (· == ip)

def jammEndsWithCi (hay suffix : List UInt16) : Bool :=
  if suffix.length = 0 ∨ hay.length < suffix.length then false
  else hay.drop (hay.length - suffix.length) == suffix

def backslash : UInt16 := 0x5c
def slash : UInt16 := 0x2f
def colon : UInt16 := 0x3a

def jammAppMatches (a : JammApp) (appIdLower : List UInt16) : Bool :=
  if a.byName then
    if appIdLower == a.value then true
    else if a.value.length + 1 ≤ appIdLower.length then
      let off := appIdLower.length - a.value.length
      let sep := if 0 < off then appIdLower.getD (off - 1) 0 else 0
      (sep == backslash || sep == slash) && jammEndsWithCi appIdLower a.value
    else false
  else
    -- The drive of the path is left out: the id of an application has a device in its place.
    let v := if 2 ≤ a.value.length ∧ a.value.getD 1 0 = colon then a.value.drop 2 else a.value
    jammEndsWithCi appIdLower v

def jammAppSelected (cfg : JammConfig) (appIdLower : List UInt16) : Bool :=
  cfg.apps.any (jammAppMatches · appIdLower)

inductive JammDecision
  | direct
  | tunnel
  | block
  deriving DecidableEq

def builtinV4 (addr : List UInt8) (maskLen : UInt8) : JammCidr where
  ip := { family := 4, addr := addr ++ List.replicate (16 - addr.length) 0 }
  maskLen := maskLen

def builtinV6 (addr : List UInt8) (maskLen : UInt8) : JammCidr where
  ip := { family := 6, addr := addr ++ List.replicate (16 - addr.length) 0 }
  maskLen := maskLen

def builtinBypass : List JammCidr :=
  [
    builtinV4 [10] 8,
    builtinV4 [172, 16] 12,
    builtinV4 [192, 168] 16,
    builtinV4 [127] 8,
    builtinV4 [169, 254] 16,
    builtinV4 [224] 4,
    builtinV4 [255, 255, 255, 255] 32,
    builtinV6 [0, 0, 0, 0, 0, 0, 0, 0, 0, 0, 0, 0, 0, 0, 0, 1] 128,
    builtinV6 [0xfe, 0x80] 10,
    builtinV6 [0xfc] 7,
    builtinV6 [0xff] 8
  ]

def jammDecide (cfg : JammConfig) (appIdLower : List UInt16) (remote : JammIp) : JammDecision :=
  if jammIpInEndpoints cfg.endpoints remote then .direct
  else if jammIpInList builtinBypass remote then .direct
  else if jammIpInList cfg.bypass remote then .direct
  else if jammIpInList cfg.forceDirect remote then .direct
  else if jammIpInList cfg.forceTunnel remote then .tunnel
  else
    let selected := jammAppSelected cfg appIdLower
    if cfg.mode = 0 then if selected then .tunnel else .direct
    else if selected then .direct
    else .tunnel

end JammVpn.Wfp
