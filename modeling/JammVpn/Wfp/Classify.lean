import JammVpn.Lib.Machine
import JammVpn.Wfp.Driver

-- The callout of the driver, and the requests that replace its rules while it runs.
namespace JammVpn.Wfp

-- An address of the fourth version comes as a number, one of the sixth as its bytes.
inductive RemoteAddress
  | v4 (addr : UInt32)
  | v6 (bytes : Vector UInt8 16)
  deriving DecidableEq

-- The address as the rules have it, and with the port as the proxy reads it.
def jammBuildDst (remote : RemoteAddress) (port : UInt16) : JammIp × List UInt8 :=
  let portBe := [(port >>> 8).toUInt8, port.toUInt8]
  match remote with
  | .v4 addr =>
    let bytes := [(addr >>> 24).toUInt8, (addr >>> 16).toUInt8, (addr >>> 8).toUInt8, addr.toUInt8] ++
      List.replicate 12 0
    ({ family := 4, addr := bytes }, 4 :: bytes ++ portBe)
  | .v6 bytes => ({ family := 6, addr := bytes.toList }, 6 :: bytes.toList ++ portBe)

def loopback : RemoteAddress → RemoteAddress
  | .v4 _ => .v4 0x7f000001
  | .v6 _ => .v6 ((Vector.replicate 16 0).set 15 1)

inductive RedirectState
  | notRedirected
  | redirectedBySelf
  | redirectedByOther
  | previouslyRedirectedBySelf
  deriving DecidableEq

inductive ActionType
  | permit
  | block
  deriving DecidableEq

structure ClassifyOut where
  actionType  : Option ActionType := none
  actionWrite : Bool
  deriving DecidableEq

-- What the filter engine calls the driver with.
structure ClassifyArgs where
  out           : ClassifyOut
  redirectState : Option RedirectState
  appId         : List UInt16
  remote        : RemoteAddress
  remotePort    : UInt16
  processId     : Option Nat

structure ConnectRequest where
  remote                 : RemoteAddress
  remotePort             : Nat
  localRedirectTargetPID : Nat
  localRedirectContext   : List UInt8
  deriving DecidableEq

-- What is copied while the lock is held.
structure Snapshot where
  decision     : JammDecision
  redirectPort : Nat
  redirectPid  : Nat
  killSwitch   : Bool

-- A call between two of its steps. Other processors run in between.
inductive Phase
  | entered
  | decided (snap : Snapshot)
  | readdressed (snap : Snapshot)
  | done (out : ClassifyOut) (request : Option ConnectRequest)

def appLower (rtl : Rtl) (args : ClassifyArgs) : List UInt16 :=
  (unicodeString args.appId).map rtl.downcaseUnicodeChar

def ClassifyArgs.remoteIp (args : ClassifyArgs) : JammIp :=
  (jammBuildDst args.remote args.remotePort).1

-- Up to the lock.
def jammEnter (args : ClassifyArgs) : Phase :=
  if !args.out.actionWrite then .done args.out none
  else if args.redirectState = some .redirectedBySelf ∨
      args.redirectState = some .previouslyRedirectedBySelf then
    .done { args.out with actionType := some .permit } none
  else .entered

-- Under the lock.
def jammSnapshot (rtl : Rtl) (args : ClassifyArgs) (gConfig : JammConfig) : Snapshot where
  decision := jammDecide gConfig (appLower rtl args) args.remoteIp
  redirectPort := gConfig.redirectPort
  redirectPid := gConfig.redirectPid
  killSwitch := gConfig.killSwitch

-- The connections of the proxy itself are left alone.
def ownConnection (args : ClassifyArgs) (snap : Snapshot) : Prop :=
  snap.redirectPid ≠ 0 ∧ args.processId.getD 0 = snap.redirectPid

instance (args : ClassifyArgs) (snap : Snapshot) : Decidable (ownConnection args snap) :=
  inferInstanceAs (Decidable (_ ∧ _))

-- Up to the new address in the connect request, which can only be had if both calls for it succeed.
def jammRedirect (args : ClassifyArgs) (snap : Snapshot) (handle writable : Bool) : Phase :=
  if snap.decision = .block then .done { actionType := some .block, actionWrite := false } none
  else if snap.decision = .direct ∨ snap.redirectPort = 0 ∨ ownConnection args snap then
    .done { args.out with actionType := some .permit } none
  else if !handle || !writable then
    if snap.killSwitch then .done { actionType := some .block, actionWrite := false } none
    else .done { args.out with actionType := some .permit } none
  else .readdressed snap

-- The rest of the connect request. The process to redirect to is read from the rules once more.
def jammComplete (args : ClassifyArgs) (snap : Snapshot) (gConfig : JammConfig) : Phase :=
  .done { actionType := some .permit, actionWrite := false } <| some {
    remote := loopback args.remote
    remotePort := snap.redirectPort
    localRedirectTargetPID := gConfig.redirectPid
    localRedirectContext := (jammBuildDst args.remote args.remotePort).2
  }

def JammConfig.zero : JammConfig where
  mode := 0
  killSwitch := false
  redirectPort := 0
  redirectPid := 0
  apps := []
  bypass := []
  forceDirect := []
  forceTunnel := []
  endpoints := []

inductive Ioctl
  | setConfig (buf : List UInt8)
  | clear

-- Rules that cannot be read do not replace those in force.
def jammDeviceControl (rtl : Rtl) (gConfig : JammConfig) : Ioctl → Except NtStatus Unit × JammConfig
  | .clear         => (.ok (), .zero)
  | .setConfig buf =>
    match jammParseConfig rtl buf with
    | .ok parsed => (.ok (), parsed)
    | .error e   => (.error e, gConfig)

-- A call, with the rules that were in force during it and those that it was decided on.
structure Call where
  args      : ClassifyArgs
  phase     : Phase
  seen      : List JammConfig
  decidedOn : Option JammConfig := none

structure Driver where
  gConfig : JammConfig := .zero
  calls   : List Call := []

inductive Event
  | enter (args : ClassifyArgs)
  | classify (i : Nat) (handle writable : Bool)
  | ioctl (request : Ioctl)

def Phase.isDone : Phase → Bool
  | .done _ _ => true
  | _         => false

def Call.sees (c : Call) (gConfig : JammConfig) : Call :=
  if c.phase.isDone then c else { c with seen := gConfig :: c.seen }

def Call.step (rtl : Rtl) (gConfig : JammConfig) (handle writable : Bool) (c : Call) : Option Call :=
  match c.phase with
  | .entered          => some { c with
      phase := .decided (jammSnapshot rtl c.args gConfig), decidedOn := some gConfig }
  | .decided snap     => some { c with phase := jammRedirect c.args snap handle writable }
  | .readdressed snap => some { c with phase := jammComplete c.args snap gConfig }
  | .done _ _         => none

def Driver.step (rtl : Rtl) (s : Driver) : Event → Option Driver
  | .enter args =>
    some { s with calls := s.calls ++ [{ args, phase := jammEnter args, seen := [s.gConfig] }] }
  | .classify i handle writable => do
    let c ← s.calls[i]?
    let c ← c.step rtl s.gConfig handle writable
    return { s with calls := s.calls.set i c }
  | .ioctl request =>
    let gConfig := (jammDeviceControl rtl s.gConfig request).2
    some { gConfig, calls := s.calls.map (·.sees gConfig) }

end JammVpn.Wfp
