import JammVpn.Net.Engine
import JammVpn.Net.Http
import JammVpn.Net.Inbound

namespace JammVpn

open Timed

-- What the network does for the task of a connection: the answers of the resolver and how long
-- routing waits for them, and how long an attempt to connect takes and whether it succeeds. An
-- attempt that hangs has no time.
structure Network where
  resolve : String → DnsResolver.Answer
  lookup  : Target → Nat → Nat
  dial    : Outbound → Target → Nat → Option (Nat × Bool)

namespace Serve

-- In milliseconds.
def handshakeTimeout : Nat := 10000
def connectTimeout : Nat := 8000

def connectAttempts : Nat := 3

def viaLabel : Outbound → String
  | .direct => "direct"
  | _       => "proxy"

variable (net : Network) (engine : Engine)

def route (target : Target) : Task Routed := fun es now => {
  trace := []
  done := some (engine.route net.resolve target, es, now + net.lookup target now)
}

def connectTcp (ob : Outbound) (target : Target) : Task Bool := fun es now =>
  { trace := [], done := (net.dial ob target now).map fun (d, ok) => (ok, es, now + d) }

-- The number of attempts that are left, and how many there have been.
def connectWithRetryFrom (ob : Outbound) (target : Target) : Nat → Nat → Task Bool
  | 0, _           => return false
  | n + 1, attempt => do
    match ← (connectTcp net ob target).timeout connectTimeout with
    | some true => return true
    | _         =>
      if n = 0 then return false
      else do
        .sleep (60 * (attempt * 2 + 1))
        connectWithRetryFrom ob target n (attempt + 1)

def connectWithRetry (ob : Outbound) (target : Target) : Task Bool :=
  connectWithRetryFrom net ob target connectAttempts 0

-- The outbound that the connection goes through in the end.
def connectRouted (routed : Routed) (ob : Outbound) : Task (Option Outbound) := do
  if ← connectWithRetry net ob routed.target then
    .emit (.connected ob routed.target)
    return some ob
  else match routed.fallback, routed.chosenNode, routed.fallbackName with
    | some fb, some node, some name =>
      if ← connectWithRetry net fb routed.target then
        .emit (.connected fb routed.target)
        .emit (.notice routed.target node name)
        return some fb
      else return none
    | _, _, _ => return none

-- The texts with which a client is answered.
structure Replies where
  established : List UInt8
  unreachable : List UInt8
  blocked     : List UInt8

def socksReplies : Replies where
  established := Inbound.reply 0x00
  unreachable := Inbound.reply 0x05
  blocked := Inbound.reply 0x02

def httpReplies : Replies where
  established := Http.ascii "HTTP/1.1 200 Connection Established\r\n\r\n"
  unreachable := Http.ascii "HTTP/1.1 502 Bad Gateway\r\n\r\n"
  blocked := Http.ascii "HTTP/1.1 403 Forbidden\r\n\r\n"

-- A connection is set up and registered, or the client learns why it is not. `greet` is what is sent
-- first, to one of the two ends.
def setUp (replies : Replies) (greet : Effect) (target : Target) : Task (Except End Unit) := do
  let routed ← route net engine target
  match routed.decision with
  | .block      => do
    .emit (.reply replies.blocked)
    return .error .blocked
  | .connect ob =>
    match ← connectRouted net routed ob with
    | none     => do
      .emit (.reply replies.unreachable)
      return .error .unreachable
    | some via => do
      .emit greet
      .emit (.register routed.target (viaLabel via))
      return .ok ()

def setUpSocks (target : Target) : Task (Except End Unit) :=
  setUp net engine socksReplies (.reply socksReplies.established) target

-- The two kinds of requests differ in what is sent once there is a connection.
def setUpHttp : Task (Except End Unit) := do
  match ← Http.readHttpHead with
  | none      => return .error .handshake
  | some head =>
    match Http.request head with
    | .connect host port      =>
      setUp net engine httpReplies (.reply httpReplies.established) (.domain (.ofList host) port)
    | .forward host port head =>
      setUp net engine httpReplies (.request head) (.domain (.ofList host) port)
    | .malformed              => do
      .emit (.reply (Http.ascii "HTTP/1.1 400 Bad Request\r\n\r\n"))
      return .error .badRequest

def relay : Except End Unit → Task End
  | .ok ()   => Conn.copyCounted
  | .error e => return e

def handleHttp : Task End := do
  relay (← setUpHttp net engine)

def handleSocks : Task End := do
  match ← Inbound.socksHandshake.timeout handshakeTimeout with
  | some (some (.connect target)) => do relay (← setUpSocks net engine target)
  | some (some .udpAssociate)     => return .udpAssociate
  | _                             => return .handshake

-- The task of a connection. The first byte tells SOCKS from HTTP.
def serveRouted : Task End := do
  match ← Conn.peek.timeout handshakeTimeout with
  | some (some first) =>
    if first ≠ 0x05 then do
      return (← (handleHttp net engine).timeout handshakeTimeout).getD .timedOut
    else handleSocks net engine
  | _ => return .handshake

-- Connections that are tried come about.
def Reachable : Prop :=
  ∀ ob target now, ∃ d, net.dial ob target now = some (d, true) ∧ d ≤ connectTimeout

section SetUp

open Proc

variable {net engine} {es : Script} {now : Nat} {ob : Outbound} {target : Target} {replies : Replies}
variable {greet : Effect}

-- The first attempt is enough.
theorem connectWithRetry_of_dial {d : Nat} (hd : net.dial ob target now = some (d, true))
    (hl : d ≤ connectTimeout) :
    connectWithRetry net ob target es now = { trace := [], done := some (true, es, now + d) } := by
  have hc : connectTcp net ob target es now = { trace := [], done := some (true, es, now + d) } := by
    simp [connectTcp, hd]
  have ht : ((connectTcp net ob target).timeout connectTimeout es now) =
      { trace := [], done := some (some true, es, now + d) } := by
    simp [timeout, Outcome.cut, hc, hl]
  rw [connectWithRetry, connectAttempts, connectWithRetryFrom, bind_of_done (by rw [ht]), ht]
  rfl

theorem connectWithRetry_reachable (h : Reachable net) :
    ∃ t, connectWithRetry net ob target es now = { trace := [], done := some (true, es, t) } :=
  have ⟨d, hd, hl⟩ := h ob target now
  ⟨now + d, connectWithRetry_of_dial hd hl⟩

theorem setUp_connect (h : Reachable net)
    (hd : (engine.route net.resolve target).decision = .connect ob) :
    ∃ t, setUp net engine replies greet target es now = {
      trace := [
        (t, .connected ob (engine.route net.resolve target).target),
        (t, greet),
        (t, .register (engine.route net.resolve target).target (viaLabel ob))]
      done := some (.ok (), es, t)
    } := by
  have ⟨t, ht⟩ := @connectWithRetry_reachable net es (now + net.lookup target now) ob
    (engine.route net.resolve target).target h
  have hc : connectRouted net (engine.route net.resolve target) ob es (now + net.lookup target now) =
      { trace := [(t, .connected ob (engine.route net.resolve target).target)]
        done := some (some ob, es, t) } := by
    rw [connectRouted, bind_of_done (by rw [ht]), ht]
    rfl
  refine ⟨t, ?_⟩
  rw [setUp, bind_of_done (p := route net engine target) rfl]
  simp only [hd]
  rw [bind_of_done (by rw [hc]), hc]
  rfl

theorem setUp_block (hd : (engine.route net.resolve target).decision = .block) :
    ∃ t, setUp net engine replies greet target es now =
      { trace := [(t, .reply replies.blocked)], done := some (.error .blocked, es, t) } := by
  refine ⟨now + net.lookup target now, ?_⟩
  rw [setUp, bind_of_done (p := route net engine target) rfl]
  simp only [hd]
  rfl

end SetUp

-- A network where everything comes about at once.
def promptNetwork : Network where
  resolve _ := .error "no resolver"
  lookup _ _ := 0
  dial _ _ _ := some (0, true)

theorem reachable_promptNetwork : Reachable promptNetwork :=
  fun _ _ _ => ⟨0, rfl, by decide⟩

end Serve
end JammVpn

-- The same for every front end, from the routing of its target on.
namespace JammVpn.Serve

open Ip Timed

variable (net : Network) (engine : Engine)

-- What comes after the routing of a request over SOCKS or HTTP.
def setUpRouted (replies : Replies) (greet : Effect) (routed : Routed) : Task (Except End Unit) :=
  match routed.decision with
  | .block      => do
    .emit (.reply replies.blocked)
    return .error .blocked
  | .connect ob => do
    match ← connectRouted net routed ob with
    | none     => do
      .emit (.reply replies.unreachable)
      return .error .unreachable
    | some via => do
      .emit greet
      .emit (.register routed.target (viaLabel via))
      return .ok ()

-- Redirected connections have no protocol of their own: a client that cannot be served is closed.
def redirectRouted (routed : Routed) : Task End :=
  match routed.decision with
  | .block      => return .blocked
  | .connect ob => do
    if ← connectWithRetry net ob routed.target then
      .emit (.connected ob routed.target)
      .emit (.register routed.target (viaLabel ob))
      Conn.copyCounted
    else return .unreachable

-- The task of a redirected connection. Without its original destination it is not ours.
def serveTransparentRedirect (originalDst : Option SocketAddr) : Task End :=
  match originalDst with
  | none     => return .handshake
  | some dst => do redirectRouted net (← route net engine (.socket dst))

-- The monitor shows the destination of the packets, not the target of the outbound.
def relayTcpRouted (dst : Target) (routed : Routed) : Task End :=
  match routed.decision with
  | .block      => return .blocked
  | .connect ob => do
    if ← connectTcp net ob routed.target then
      .emit (.connected ob routed.target)
      .emit (.register dst (viaLabel ob))
      Conn.copyCounted
    else return .unreachable

-- The task of a flow of the network stack, whose handshake with the application comes first. When the
-- task ends, the stack closes the flow, or resets it if there was no connection.
def relayTcp (established : Bool) (dst : SocketAddr) : Task End :=
  if established then do relayTcpRouted net (.socket dst) (← route net engine (.socket dst))
  else return .handshake

-- The ways in which connections reach the engine. Requests over HTTP have a deadline, and `left` is
-- what routing has left of it.
inductive FrontEnd
  | socks
  | httpConnect (left : Nat)
  | redirect
  | netstack (dst : Target)

def FrontEnd.serve (routed : Routed) : FrontEnd → Task End
  | socks            => do
    relay (← setUpRouted net socksReplies (.reply socksReplies.established) routed)
  | httpConnect left => do
    let setUp := setUpRouted net httpReplies (.reply httpReplies.established) routed
    return (← (setUp >>= relay).timeout left).getD .timedOut
  | redirect         => redirectRouted net routed
  | netstack dst     => relayTcpRouted net dst routed

section

open Proc

variable {net engine} {target : Target} {es : Script} {now : Nat}

theorem route_bind {α : Type} (f : Routed → Task α) :
    (route net engine target >>= f) es now =
      f (engine.route net.resolve target) es (now + net.lookup target now) :=
  bind_of_done rfl

-- What both protocols do with a target.
theorem relay_setUp (replies : Replies) (greet : Effect) :
    (setUp net engine replies greet target >>= relay) es now =
      (setUpRouted net replies greet (engine.route net.resolve target) >>= relay) es
        (now + net.lookup target now) := by
  have h : setUp net engine replies greet target es now =
      setUpRouted net replies greet (engine.route net.resolve target) es
        (now + net.lookup target now) := route_bind _
  simp only [bind, Proc.bind, h]

end
end JammVpn.Serve
