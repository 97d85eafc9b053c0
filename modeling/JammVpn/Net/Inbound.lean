import JammVpn.Lib.Utf8
import JammVpn.Net.Conn

namespace JammVpn

open Ip Timed

inductive SocksRequest
  | connect (target : Target)
  | udpAssociate
  deriving DecidableEq

namespace Inbound

open Conn

-- `from_be_bytes`.
def ofBytes (bs : List UInt8) : Nat :=
  bs.foldl (fun n b => n * 256 + b.toNat) 0

def reply (rep : UInt8) : List UInt8 :=
  [0x05, rep, 0x00, 0x01, 0, 0, 0, 0, 0, 0]

def readPort : Task (Option Nat) := do
  match ← readExact 2 with
  | none   => return none
  | some p => return some (ofBytes p)

def readSocket (width : Nat) (ip : Nat → IpAddr) : Task (Option Target) := do
  match ← readExact width with
  | none   => return none
  | some a =>
    match ← readPort with
    | none   => return none
    | some p => return some (.socket (.new (ip (ofBytes a)) p))

def readDomain : Task (Option Target) := do
  match ← readByte with
  | none   => return none
  | some l =>
    match ← readExact l.toNat with
    | none   => return none
    | some d =>
      match Utf8.decode d with
      | none      => return none
      | some host =>
        match ← readPort with
        | none   => return none
        | some p => return some (.domain (.ofList host) p)

def readTarget (atyp : UInt8) : Task (Option Target) :=
  match atyp.toNat with
  | 0x01 => readSocket 4 fun n => .v4 (.ofNat 32 n)
  | 0x04 => readSocket 16 fun n => .v6 (.ofNat 128 n)
  | 0x03 => readDomain
  | _    => return none

-- The command after the greeting; its address is read in any case.
def readCommand : Task (Option SocksRequest) := do
  match ← readExact 4 with
  | some [_, cmd, _, atyp] =>
    match ← readTarget atyp with
    | none      => return none
    | some addr =>
      if cmd = 0x01 then return some (.connect addr)
      else if cmd = 0x03 then return some .udpAssociate
      else do
        .emit (.reply (reply 0x07))
        return none
  | _ => return none

-- No method of authentication but the empty one; it is chosen even if the client does not offer it.
def socksHandshake : Task (Option SocksRequest) := do
  match ← readExact 2 with
  | some [version, nmethods] =>
    if version ≠ 0x05 then return none
    else match ← readExact nmethods.toNat with
    | none   => return none
    | some _ => do
      .emit (.reply [0x05, 0x00])
      readCommand
  | _ => return none

end Inbound
end JammVpn
