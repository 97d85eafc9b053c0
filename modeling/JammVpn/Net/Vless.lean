import JammVpn.Lib.PollRead
import JammVpn.Net.Udp

-- The header of a request to a VLESS server.
namespace JammVpn.Vless

open Bytes

def version : UInt8 := 0x00
def cmdTcp : UInt8 := 0x01
def cmdUdp : UInt8 := 0x02

-- The types are not those of SOCKS5, and the port is elsewhere.
def pushAddress : Target → List UInt8
  | .domain host _         => 0x02 :: field ((Utf8.encode host.toList).take 255)
  | .socket (.v4 a _)      => 0x01 :: toBe 4 a.toNat
  | .socket (.v6 a _ _ _)  => 0x03 :: toBe 16 a.toNat

-- Seven bits a byte, the lowest first.
def varint (len : Nat) : List UInt8 :=
  if len / 128 = 0 then [.ofNat len]
  else (.ofNat (len % 128) ||| 0x80) :: varint (len / 128)
decreasing_by omega

-- The message `Addons` with its first field, if there is a flow.
def addon : Option String → List UInt8
  | none      => []
  | some flow =>
    let fb := Utf8.encode flow.toList
    if fb.isEmpty then [] else 0x0A :: (varint fb.length ++ fb)

def encodeRequest (uuid : List.Vector UInt8 16) (flow : Option String) (target : Target) : List UInt8 :=
  version :: (uuid.toList ++ (field (addon flow) ++ (cmdTcp :: (toBe 2 target.port ++ pushAddress target))))

def encodeRequestUdp (uuid : List.Vector UInt8 16) (target : Target) : List UInt8 :=
  version :: (uuid.toList ++ (0x00 :: (cmdUdp :: (toBe 2 target.port ++ pushAddress target))))

end JammVpn.Vless

-- A stream to a VLESS server, without the header of its response.
namespace JammVpn

open PollIo

-- The stream below, as it is read and as it is written.
structure BoxedStream where
  source : Source
  sink   : Sink

structure VlessRespStrip where
  inner    : BoxedStream
  hdrBuf   : List UInt8 := []
  addonLen : Option Nat := none
  done     : Bool := false

namespace VlessRespStrip

def new (inner : BoxedStream) : VlessRespStrip where
  inner := inner

-- How long the header is, as far as that is known.
def need (s : VlessRespStrip) : Nat :=
  match s.addonLen with
  | none   => 2
  | some a => 2 + a

def readInner (s : VlessRespStrip) (cap : Nat) : Poll (List UInt8) × VlessRespStrip :=
  let (p, source) := s.inner.source.pollRead cap
  (p, { s with inner.source := source })

theorem readInner_eq {s s' : VlessRespStrip} {cap : Nat} {p : Poll (List UInt8)} (h : s.readInner cap = (p, s')) :
    s.inner.source.pollRead cap = (p, s'.inner.source) ∧
      s' = { s with inner.source := s'.inner.source } := by
  cases h
  exact ⟨rfl, rfl⟩

-- The loop, until the header is complete.
def skipHeader (s : VlessRespStrip) : Poll Unit × VlessRespStrip :=
  if s.done then (.ready (), s)
  else if s.need ≤ s.hdrBuf.length then
    match _ha : s.addonLen with
    | none   => skipHeader { s with addonLen := some (s.hdrBuf.getD 1 0).toNat }
    | some _ => (.ready (), { s with done := true })
  else
    match _hr : s.readInner (min (s.need - s.hdrBuf.length) 64) with
    | (.pending, s')      => (.pending, s')
    | (.error e, s')      => (.error e, s')
    | (.ready filled, s') =>
      if filled.isEmpty then (.error .unexpectedEof, s')
      else skipHeader { s' with hdrBuf := s'.hdrBuf ++ filled }
termination_by (s.inner.source.responses.length, if s.addonLen.isNone then 1 else 0)
decreasing_by
  case _ =>
    rw [_ha]
    exact .right _ Nat.zero_lt_one
  case _ => exact .left _ _ (Source.length_pollRead (readInner_eq _hr).left)

def pollRead (s : VlessRespStrip) (cap : Nat) : Poll (List UInt8) × VlessRespStrip :=
  match s.skipHeader with
  | (.pending, s)  => (.pending, s)
  | (.error e, s)  => (.error e, s)
  | (.ready (), s) => s.readInner cap

def pollWrite (s : VlessRespStrip) (buf : List UInt8) : Poll Nat × VlessRespStrip :=
  let (p, sink) := s.inner.sink.pollWrite buf
  (p, { s with inner.sink := sink })

-- `poll_flush` and `poll_shutdown`.
def pollDone (s : VlessRespStrip) : Poll Unit × VlessRespStrip :=
  let (p, sink) := s.inner.sink.pollDone
  (p, { s with inner.sink := sink })

inductive Call
  | read (cap : Nat)
  | write (buf : List UInt8)
  | done

-- The stream and what has been delivered. It can be polled again after an error.
structure Run where
  strip     : VlessRespStrip
  delivered : List UInt8 := []

def Run.step (r : Run) : Call → Run
  | .read cap =>
    match r.strip.pollRead cap with
    | (.ready bs, s) => { strip := s, delivered := r.delivered ++ bs }
    | (_, s)         => { r with strip := s }
  | .write buf => { r with strip := (r.strip.pollWrite buf).2 }
  | .done      => { r with strip := r.strip.pollDone.2 }

def Run.run (r : Run) (calls : List Call) : Run :=
  calls.foldl step r

end VlessRespStrip
end JammVpn
