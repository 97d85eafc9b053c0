import JammVpn.Core.Split
import JammVpn.Lib.Maps

-- Which process a packet belongs to: local ports are looked up in the socket tables of the system.
namespace JammVpn.Attribution

inductive Proto
  | tcp
  | udp
  deriving DecidableEq

def millis (n : Nat) : Nat :=
  n * 1000000

-- Times are in nanoseconds.
def refresh : Nat :=
  millis 1000

def forceCooldown : Nat :=
  millis 20

-- TCP or not, IPv6 or not, and the local port.
abbrev Key := Bool × Bool × Nat

-- A row of a socket table: `dwLocalPort` and `dwOwningPid`.
structure Row where
  localPort : UInt32
  owningPid : UInt32
  deriving DecidableEq

structure Row6 extends Row where
  localAddr : BitVec 128
  deriving DecidableEq

structure Tables where
  tcp  : List Row := []
  tcp6 : List Row6 := []
  udp  : List Row := []
  udp6 : List Row6 := []

-- The system at one moment: the time, its sockets, and the image paths of the processes that can be
-- opened.
structure Host where
  now       : Nat
  tables    : Tables := {}
  imageName : UInt32 → Option String := fun _ => none

-- The port is in network byte order in the low half.
def swapPort (dw : UInt32) : Nat :=
  let port := dw.toNat % 65536
  port % 256 * 256 + port / 256

def queryExePath (host : Host) (pid : UInt32) : Option String :=
  if pid = 0 then none else host.imageName pid

abbrev Ports := PartialMap Key UInt32

def loadRow (tcp : Bool) (ports : Ports) (r : Row) : Ports :=
  ports.insert (tcp, false, swapPort r.localPort) r.owningPid

-- A socket on `::` also sends IPv4, and the IPv4 table does not have it.
def loadRow6 (tcp : Bool) (ports : Ports) (r : Row6) : Ports :=
  let port := swapPort r.localPort
  let ports := ports.insert (tcp, true, port) r.owningPid
  if r.localAddr = 0 ∧ ports.get (tcp, false, port) = none then
    ports.insert (tcp, false, port) r.owningPid
  else ports

def loadTcp (host : Host) (isV6 : Bool) (ports : Ports) : Ports :=
  if isV6 then host.tables.tcp6.foldl (loadRow6 true) ports
  else host.tables.tcp.foldl (loadRow true) ports

def loadUdp (host : Host) (isV6 : Bool) (ports : Ports) : Ports :=
  if isV6 then host.tables.udp6.foldl (loadRow6 false) ports
  else host.tables.udp.foldl (loadRow false) ports

structure ProcessResolver where
  ports      : Ports := .empty
  pidExe     : PartialMap UInt32 (Option String) := .empty
  forcedKeys : List Key := []
  last       : Option Nat := none
  lastForced : Option Nat := none

namespace ProcessResolver

variable (host : Host) (self : ProcessResolver)

def loadTables : ProcessResolver :=
  let ports := loadTcp host false .empty
  let ports := loadTcp host true ports
  let ports := loadUdp host false ports
  let ports := loadUdp host true ports
  { self with ports, forcedKeys := [], last := some host.now }

def stale : Bool :=
  match self.last with
  | some t => refresh ≤ host.now - t
  | none   => true

def maybeRefresh : ProcessResolver :=
  if self.stale host then loadTables host { self with pidExe := .empty } else self

def recent : Bool :=
  match self.lastForced with
  | some t => host.now - t < forceCooldown
  | none   => false

def forceRefreshFor (key : Key) : Bool × ProcessResolver :=
  if key ∈ self.forcedKeys then (false, self)
  else if self.recent host then (false, self)
  else
    let self := loadTables host { self with lastForced := some host.now }
    (true, { self with forcedKeys := key :: self.forcedKeys })

def exeFor (pid : UInt32) : Option String × ProcessResolver :=
  match self.pidExe.get pid with
  | some cached => (cached, self)
  | none        =>
    let exe := queryExePath host pid
    (exe, { self with pidExe := self.pidExe.insert pid exe })

-- The process that the tables have for a key, after a rebuild if there is none.
def lookup (key : Key) : Option UInt32 × ProcessResolver :=
  match self.ports.get key with
  | some pid => (some pid, self)
  | none     =>
    match self.forceRefreshFor host key with
    | (true, self)  => (self.ports.get key, self)
    | (false, self) => (none, self)

-- `fileName` is `Path::file_name`.
def resolve (fileName : String → Option String) (proto : Proto) (isV6 : Bool) (localPort : Nat) :
    Option ConnApp × ProcessResolver :=
  let self := self.maybeRefresh host
  match self.lookup host (proto = .tcp, isV6, localPort) with
  | (none, self)     => (none, self)
  | (some pid, self) =>
    let (exe, self) := self.exeFor host pid
    (some { exePath := exe, processName := exe.bind fileName }, self)

end ProcessResolver
end JammVpn.Attribution
