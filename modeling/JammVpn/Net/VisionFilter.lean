import JammVpn.Lib.Bytes

-- What is looked for in the records of a handshake.
namespace JammVpn.Vision

open Bytes

-- A reader of a buffer.
abbrev BufReader :=
  StateT (List UInt8) (Except String)

namespace BufReader

def readSlice (len : Nat) : BufReader (List UInt8) := do
  let buf ← get
  if buf.length < len then throw "Read past end of buffer"
  else
    set (buf.drop len)
    return buf.take len

def readU8 : BufReader UInt8 := do
  return (← readSlice 1).headD 0

def readU16Be : BufReader Nat := do
  return ofBe (← readSlice 2)

def readU24Be : BufReader Nat := do
  return ofBe (← readSlice 3)

def skip (amount : Nat) : BufReader Unit := do
  let _ ← readSlice amount

def remaining : BufReader Nat := do
  return (← get).length

end BufReader

open BufReader

def retryRequestRandomBytes : List UInt8 := [
  0xCF, 0x21, 0xAD, 0x74, 0xE5, 0x9A, 0x61, 0x11, 0xBE, 0x1D, 0x8C, 0x02, 0x1E, 0x65, 0xB8, 0x91,
  0xC2, 0xA2, 0x11, 0x16, 0x7A, 0xBB, 0x8C, 0x5E, 0x07, 0x9E, 0x09, 0xE2, 0xC8, 0xA8, 0x33, 0x9C
]

structure ParsedServerHello where
  serverRandom : List UInt8
  cipherSuite  : Nat
  sessionIdLen : UInt8
  isTls13      : Bool
  deriving DecidableEq

-- The last extension with the supported versions tells.
def supportedVersions (isTls13 : Bool) : List UInt8 → Except String Bool
  | []                         => .ok isTls13
  | t₁ :: t₂ :: l₁ :: l₂ :: ext =>
    if ofBe [t₁, t₂] = 0x002b then
      if ofBe [l₁, l₂] ≠ 2 then
        .error s!"supported_versions extension should be 2 bytes, got {ofBe [l₁, l₂]}"
      else
        match ext with
        | v₁ :: v₂ :: ext => supportedVersions (v₁ = 0x03 ∧ v₂ = 0x04) ext
        | _               => .error "Read past end of buffer"
    else if ext.length < ofBe [l₁, l₂] then .error "Read past end of buffer"
    else supportedVersions isTls13 (ext.drop (ofBe [l₁, l₂]))
  | _ => .error "Read past end of buffer"
termination_by ext => ext.length
decreasing_by
  all_goals simp only [List.length_cons, List.length_drop]
  all_goals omega

def readServerHello : BufReader ParsedServerHello := do
  if (← readU8) ≠ 0x02 then throw "expected ServerHello handshake type"
  let messageLen ← readU24Be
  if (← remaining) < messageLen then throw "ServerHello message length exceeds frame"
  let versionMajor ← readU8
  let versionMinor ← readU8
  if versionMajor ≠ 3 ∨ versionMinor ≠ 3 then
    throw s!"expected TLS version 3.3, got {versionMajor}.{versionMinor}"
  let serverRandom ← readSlice 32
  if serverRandom = retryRequestRandomBytes then throw "server sent a HelloRetryRequest"
  let sessionIdLen ← readU8
  if 32 < sessionIdLen then throw s!"invalid session_id_len {sessionIdLen}, max is 32"
  skip sessionIdLen.toNat
  let cipherSuite ← readU16Be
  skip 1
  if (← remaining) = 0 then return { serverRandom, cipherSuite, sessionIdLen, isTls13 := false }
  let extensionsLen ← readU16Be
  if (← remaining) < extensionsLen then throw "extensions length exceeds remaining data"
  let isTls13 ← supportedVersions false (← readSlice extensionsLen)
  return { serverRandom, cipherSuite, sessionIdLen, isTls13 }

def parseServerHello (frame : List UInt8) : Except String ParsedServerHello :=
  if frame.length < 47 then .error "ServerHello frame too short"
  else if frame.getD 0 0 ≠ 0x16 then .error "expected handshake content type"
  else if frame.getD 1 0 ≠ 3 ∨ frame.getD 2 0 ≠ 3 then
    .error s!"unexpected record TLS version {frame.getD 1 0}.{frame.getD 2 0}"
  else (readServerHello.run (frame.drop 5)).map Prod.fst

structure VisionFilter where
  recordFilterCount : Nat
  isTls             : Bool
  isTls12OrAbove    : Bool
  supportsXtls      : Bool
  deriving DecidableEq

namespace VisionFilter

def new : VisionFilter where
  recordFilterCount := 8
  isTls := false
  isTls12OrAbove := false
  supportsXtls := false

variable (f : VisionFilter)

def isFiltering : Bool :=
  0 < f.recordFilterCount

def decrementFilterCount : VisionFilter :=
  { f with recordFilterCount := f.recordFilterCount - 1 }

def stopFiltering : VisionFilter :=
  { f with recordFilterCount := 0 }

-- The first client hello.
def seesClientHello (data : List UInt8) : VisionFilter :=
  if !f.isTls ∧ 6 ≤ data.length ∧ data.getD 0 0 = 0x16 ∧ data.getD 1 0 = 0x03 ∧ data.getD 5 0 = 0x01 then
    { f with isTls := true }
  else f

-- The first server hello.
def seesServerHello (data : List UInt8) : VisionFilter :=
  if !f.isTls12OrAbove ∧ 6 ≤ data.length ∧ data.getD 0 0 = 0x16 ∧ data.getD 1 0 = 0x03 ∧ data.getD 2 0 = 0x03 ∧
      data.getD 5 0 = 0x02 then
    let f := { f with isTls12OrAbove := true, isTls := true }
    match parseServerHello data with
    | .error _   => f.stopFiltering
    | .ok parsed =>
      if parsed.isTls13 then
        { f with supportsXtls := f.supportsXtls || parsed.cipherSuite != 0x1305 }.stopFiltering
      else f
  else f

def filterRecord (data : List UInt8) : VisionFilter :=
  if f.recordFilterCount = 0 then f
  else
    let f := f.decrementFilterCount
    if data.length < 5 then f.stopFiltering
    else (f.seesClientHello data).seesServerHello data

end VisionFilter
end JammVpn.Vision
