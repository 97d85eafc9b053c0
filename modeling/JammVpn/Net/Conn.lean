import JammVpn.Lib.Timed
import JammVpn.Net.Outbound

namespace JammVpn

open Timed

-- What the two ends of a connection and its user do; every byte of a chunk is an event of its own.
inductive Input
  | client (b : UInt8)
  | clientClosed
  | clientFailed
  | upstream (b : UInt8)
  | upstreamClosed
  | upstreamFailed
  | dropped
  deriving DecidableEq

-- Events with their times, as far as they have not been looked at.
abbrev Script := List (Nat × Input)

-- Bytes come from the proxy itself (`reply`, `request`) or from the other end (`up`, `down`). The
-- monitor shows a label for the target.
inductive Effect
  | reply (bs : List UInt8)
  | connected (ob : Outbound) (target : Target)
  | request (bs : List UInt8)
  | notice (target : Target) (failedNode via : String)
  | register (target : Target) (via : String)
  | up (b : UInt8)
  | down (b : UInt8)
  | shutdownUp
  | shutdownDown
  deriving DecidableEq

-- Why the task of a connection has ended.
inductive End
  | handshake
  | badRequest
  | blocked
  | unreachable
  | udpAssociate
  | closed
  | failed
  | dropped
  | timedOut
  deriving DecidableEq

abbrev Task := Proc Script Effect

namespace Conn

def isClient : Input → Bool
  | .client _ | .clientClosed | .clientFailed => true
  | _                                         => false

-- The next thing that the client does, and everything else.
def nextClient : Script → Option ((Nat × Input) × Script)
  | []      => none
  | x :: es =>
    if isClient x.2 then some (x, es)
    else (nextClient es).map fun (y, es) => (y, x :: es)

-- `none` at the end of the stream, and also on errors: both end the handshake.
def readByte : Task (Option UInt8) := fun es now =>
  match nextClient es with
  | some ((t, .client b), es') => { trace := [], done := some (some b, es', max now t) }
  | some ((t, _), _)           => { trace := [], done := some (none, es, max now t) }
  | none                       => { trace := [], done := none }

def peek : Task (Option UInt8) := fun es now =>
  { trace := [], done := (readByte es now).done.map fun (b, _, t) => (b, es, t) }

def readExact : Nat → Task (Option (List UInt8))
  | 0     => return some []
  | n + 1 => do
    match ← readByte with
    | none   => return none
    | some b =>
      match ← readExact n with
      | none    => return none
      | some bs => return some (b :: bs)

-- Which of the two directions are still open.
structure Open where
  up   : Bool := true
  down : Bool := true
  deriving DecidableEq

-- What comes of an event, and whether the relay goes on. An end that has closed its side has no more
-- to say. A connection cannot be dropped before it is registered: an earlier request has no effect.
def step (o : Open) (now : Nat) : Nat × Input → List Effect × Except End Open
  | (_, .client b)       => (if o.up then [.up b] else [], .ok o)
  | (_, .upstream b)     => (if o.down then [.down b] else [], .ok o)
  | (_, .clientClosed)   =>
    (if o.up then [.shutdownUp] else [], if o.down then .ok { o with up := false } else .error .closed)
  | (_, .upstreamClosed) =>
    (if o.down then [.shutdownDown] else [], if o.up then .ok { o with down := false } else .error .closed)
  | (_, .clientFailed)   => ([], .error .failed)
  | (_, .upstreamFailed) => ([], .error .failed)
  | (t, .dropped)        => ([], if t < now then .ok o else .error .dropped)

-- Events from before the relay wait for it to start.
def copyBidirectional (o : Open) : Script → Nat → Outcome Script Effect End
  | [], _        => { trace := [], done := none }
  | x :: es, now =>
    let (effects, next) := step o now x
    let now := max now x.1
    let r := match next with
      | .ok o    => copyBidirectional o es now
      | .error e => { trace := [], done := some (e, es, now) }
    { r with trace := effects.map (now, ·) ++ r.trace }

def copyCounted : Task End :=
  copyBidirectional {}

section Relay

variable {o o' : Open} {es : Script} {x : Nat × Input} {now : Nat} {effects : List Effect} {e : End}

theorem copyBidirectional_ok (h : step o now x = (effects, .ok o')) :
    copyBidirectional o (x :: es) now = {
      trace := effects.map (max now x.1, ·) ++ (copyBidirectional o' es (max now x.1)).trace
      done := (copyBidirectional o' es (max now x.1)).done
    } := by
  simp only [copyBidirectional, h]

theorem copyBidirectional_error (h : step o now x = (effects, .error e)) :
    copyBidirectional o (x :: es) now = {
      trace := effects.map (max now x.1, ·)
      done := some (e, es, max now x.1)
    } := by
  simp [copyBidirectional, h]

end Relay
end Conn
end JammVpn
