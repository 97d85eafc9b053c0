import JammVpn.Lib.Ip
import JammVpn.Lib.Machine
import JammVpn.Lib.Maps

-- What a task waits for at a `Notify`: a future that does not exist yet or any more, waits, or has been
-- woken. A signal wakes the futures that exist, and nothing is kept for later ones.
inductive Notified
  | absent
  | waiting
  | woken
  deriving DecidableEq

namespace Notified

def notifyWaiters : Notified → Notified
  | absent          => absent
  | waiting | woken => woken

variable {f : Notified}

theorem notifyWaiters_of_ne (h : f ≠ absent) : f.notifyWaiters = woken := by
  cases f
  case absent  => exact absurd rfl h
  case waiting => rfl
  case woken   => rfl

theorem notifyWaiters_ne_absent : f.notifyWaiters ≠ absent ↔ f ≠ absent := by
  cases f <;> simp [notifyWaiters]

end Notified

-- The registry of active connections, and the tasks that relay them.
namespace JammVpn.Registry

open Ip

inductive Proto
  | tcp
  | udp
  deriving DecidableEq

-- Where the task of a connection is: between `register` and the `select!` of its relay, in a poll of it,
-- in which the signal has been looked at or not, waiting for data or for the signal, or behind it.
inductive Phase
  | registered
  | polling (checked : Bool)
  | waiting
  | ended
  deriving DecidableEq

-- An entry, and the task that holds its guard.
structure Conn where
  target : String
  via    : String
  proto  : Proto
  src    : Option SocketAddr
  up     : Nat := 0
  down   : Nat := 0
  kill   : Notified := .absent
  phase  : Phase := .registered
  deriving DecidableEq

inductive Action
  | start
  | transfer (up down : Nat)
  | check
  | park
  | wake
  | finish
  deriving DecidableEq

namespace Conn

variable (c : Conn)

def behind : Conn :=
  { c with kill := .absent, phase := .ended }

-- `copy_counted` makes the future for the signal before it polls anything, and `relay_udp` when it first
-- polls the branch with the signal. The branches are polled in any order.
def act : Action → Option Conn
  | .start            =>
    if c.phase = .registered then
      some { c with
        kill := match c.proto with
          | .tcp => .waiting
          | .udp => .absent
        phase := .polling false }
    else none
  | .transfer up down =>
    match c.phase with
    | .polling _ => some { c with up := c.up + up, down := c.down + down }
    | _          => none
  | .check            =>
    if c.phase = .polling false then
      some <| match c.kill with
        | .woken => c.behind
        | _      => { c with kill := .waiting, phase := .polling true }
    else none
  | .park             => if c.phase = .polling true then some { c with phase := .waiting } else none
  | .wake             => if c.phase = .waiting then some { c with phase := .polling false } else none
  | .finish           =>
    match c.phase with
    | .polling _ => some c.behind
    | _          => none

end Conn

-- Connections by the number of their registration, as long as their guards exist.
structure State where
  next    : Nat := 0
  entries : PartialMap Nat Nat := .empty
  conns   : PartialMap Nat Conn := .empty

-- `NEXT_ID` starts with 1 and wraps.
def idOf (n : Nat) : Nat :=
  (1 + n) % 2 ^ 64

namespace State

variable (s : State)

def register (c : Conn) : State where
  next := s.next + 1
  entries := s.entries.insert (idOf s.next) s.next
  conns := s.conns.insert s.next c

def set (n : Nat) (c : Conn) : State :=
  { s with conns := s.conns.insert n c }

def kill (n : Nat) : State :=
  match s.conns.get n with
  | some c => s.set n { c with kill := c.kill.notifyWaiters }
  | none   => s

def dropConnection (id : Nat) : State × Bool :=
  match s.entries.get id with
  | some n => (s.kill n, true)
  | none   => (s, false)

-- The guard goes, also when the task is aborted.
def release (n : Nat) : State :=
  { s with entries := s.entries.erase (idOf n), conns := s.conns.erase n }

end State

inductive Event
  | register (target via : String) (proto : Proto) (src : Option SocketAddr)
  | task (n : Nat) (a : Action)
  | release (n : Nat)
  | dropConnection (id : Nat)
  deriving DecidableEq

def step (s : State) : Event → Option State
  | .register target via proto src => some (s.register { target, via, proto, src })
  | .task n a                      => ((s.conns.get n).bind (·.act a)).map (s.set n)
  | .release n                     => if (s.conns.get n).isSome then some (s.release n) else none
  | .dropConnection id             => some (s.dropConnection id).1

end JammVpn.Registry
