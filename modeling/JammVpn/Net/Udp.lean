import JammVpn.Lib.Bytes
import JammVpn.Lib.Machine
import JammVpn.Lib.Maps
import JammVpn.Lib.Utf8
import JammVpn.Net.Outbound

namespace JammVpn.Udp

open Bytes Ip

def flowQueue : Nat := 64

-- `outOfBounds` is not an error but a panic, which ends the task.
inductive ParseError
  | short
  | unknownAtyp
  | outOfBounds
  deriving DecidableEq

-- The fragment number, the target, and where the data begins.
def parseUdpDatagram : List UInt8 → Except ParseError (UInt8 × Target × Nat)
  | _ :: _ :: frag :: atyp :: buf =>
    if atyp = 0x01 then
      if buf.length < 6 then .error .short
      else
        let ip := .v4 (.ofNat 32 (ofBe (buf.take 4)))
        .ok (frag, .socket (.new ip (ofBe ((buf.drop 4).take 2))), 10)
    else if atyp = 0x04 then
      if buf.length < 18 then .error .short
      else
        let ip := .v6 (.ofNat 128 (ofBe (buf.take 16)))
        .ok (frag, .socket (.new ip (ofBe ((buf.drop 16).take 2))), 22)
    else if atyp = 0x03 then
      match buf with
      | []         => .error .outOfBounds
      | len :: buf =>
        if buf.length < len.toNat + 2 then .error .short
        else
          let host := .ofList (Utf8.decodeLossy (buf.take len.toNat))
          .ok (frag, .domain host (ofBe ((buf.drop len.toNat).take 2)), 5 + len.toNat + 2)
    else .error .unknownAtyp
  | _ => .error .short

-- The type of an address, the address and the port.
def encodeAddress : Target → List UInt8
  | .socket (.v4 a port)     => 0x01 :: (toBe 4 a.toNat ++ toBe 2 port)
  | .socket (.v6 a port _ _) => 0x04 :: (toBe 16 a.toNat ++ toBe 2 port)
  | .domain host port        =>
    let name := (Utf8.encode host.toList).take 255
    0x03 :: .ofNat name.length :: (name ++ toBe 2 port)

def encodeUdpDatagram (target : Target) (payload : List UInt8) : List UInt8 :=
  [0, 0, 0] ++ encodeAddress target ++ payload

-- The loop of a flow has ended before its session is closed. As long as the task has not ended, its
-- queue takes datagrams.
inductive Phase
  | running
  | closing
  | ended
  deriving DecidableEq

-- The task of a flow.
structure Flow where
  client   : SocketAddr
  replyDst : Target
  queue    : List (List UInt8)
  phase    : Phase := .running

-- A datagram of the client; `address` is how it has written its destination.
structure Datagram where
  client  : SocketAddr
  target  : Target
  address : List UInt8
  payload : List UInt8
  deriving DecidableEq

def Datagram.key (d : Datagram) : List Char :=
  d.target.display

-- What has gone through a flow: datagrams of the client, and what the client has been sent.
inductive Passed
  | put (d : Datagram)
  | reply (bytes : List UInt8)
  deriving DecidableEq

-- Tasks are numbered in the order in which they have been spawned. A datagram for which there is no flow
-- waits until there is one, and so does everything behind it.
structure State where
  client : Option SocketAddr := none
  flows  : PartialMap (List Char) Nat := .empty
  tasks  : List Flow := []
  waits  : Option Datagram := none
  closed : Bool := false
  passed : List (Nat × Passed) := []

-- `opened` tells whether routing and the outbound have given a session. `send`, `reply` and `broken` are
-- what a task does with its session, `drained` that it has no sender and no datagram left.
inductive Event
  | datagram (src : SocketAddr) (buf : List UInt8)
  | opened (ok : Bool)
  | send (id : Nat) (ok : Bool)
  | reply (id : Nat) (payload : List UInt8) (ok : Bool)
  | broken (id : Nat)
  | drained (id : Nat)
  | finished (id : Nat)
  | idle
  | hangup

namespace State

variable (s : State)

def setTask (id : Nat) (f : Flow) : State :=
  { s with tasks := s.tasks.set id f }

-- The association ends, and with it the senders of all flows.
def close : State :=
  { s with closed := true, flows := .empty }

-- Datagrams come from the host of the control connection, and from the first client there.
def admits (peer : IpAddr) (src : SocketAddr) : Bool :=
  src.ip = peer && s.client.all (· = src)

-- The datagram waits for a new flow. A flow that does not take it is removed.
def await (d : Datagram) : State :=
  { s with flows := s.flows.erase d.key, waits := some d }

def put (id : Nat) (f : Flow) (d : Datagram) : State :=
  { s with
    tasks := s.tasks.set id { f with queue := f.queue ++ [d.payload] }
    passed := (id, .put d) :: s.passed }

-- `try_send` fails when the queue is full and when the task has ended; nobody asks which of the two.
def dispatch (d : Datagram) : State :=
  match s.flows.get d.key with
  | none    => s.await d
  | some id =>
    match s.tasks[id]? with
    | none   => s.await d
    | some f => if f.phase ≠ .ended ∧ f.queue.length < flowQueue then s.put id f d else s.await d

def spawn (d : Datagram) : State :=
  { s with
    flows := s.flows.insert d.key s.tasks.length
    tasks := s.tasks ++ [{ client := d.client, replyDst := d.target, queue := [d.payload] }]
    waits := none
    passed := (s.tasks.length, .put d) :: s.passed }

def running (id : Nat) : Option Flow :=
  s.tasks[id]?.filter (·.phase = .running)

end State

-- What a datagram is to the association, if it is anything.
def received (src : SocketAddr) (buf : List UInt8) : Except ParseError (Option Datagram) := do
  let (frag, target, off) ← parseUdpDatagram buf
  if frag ≠ 0 then return none
  else return some ⟨src, target, (buf.take off).drop 3, buf.drop off⟩

variable (peer : IpAddr)

def receive (s : State) (src : SocketAddr) (buf : List UInt8) : State :=
  if s.admits peer src then
    let s := { s with client := some src }
    match received src buf with
    | .ok (some d)        => s.dispatch d
    | .ok none            => s
    | .error .outOfBounds => s.close
    | .error _            => s
  else s

def step (s : State) : Event → Option State
  | .datagram src buf    => if s.closed ∨ s.waits.isSome then none else some (receive peer s src buf)
  | .opened ok           =>
    match s.waits with
    | none   => none
    | some d => if ok then some (s.spawn d) else some { s with waits := none }
  | .send id ok          =>
    match s.running id with
    | some f =>
      match f.queue with
      | []         => none
      | _ :: queue => some (s.setTask id { f with queue, phase := if ok then .running else .closing })
    | none => none
  | .reply id payload ok =>
    match s.running id with
    | some f =>
      if ok then
        some { s with passed := (id, .reply (encodeUdpDatagram f.replyDst payload)) :: s.passed }
      else some (s.setTask id { f with phase := .closing })
    | none => none
  | .broken id           =>
    match s.running id with
    | some f => some (s.setTask id { f with phase := .closing })
    | none   => none
  | .drained id          =>
    match s.running id with
    | some f =>
      if f.queue = [] ∧ s.flows.get f.replyDst.display ≠ some id then
        some (s.setTask id { f with phase := .closing })
      else none
    | none => none
  | .finished id         =>
    match s.tasks[id]? with
    | some f => if f.phase = .closing then some (s.setTask id { f with phase := .ended }) else none
    | none   => none
  | .idle                =>
    if s.closed ∨ s.waits.isSome then none
    else if s.client.isNone then some s.close else some s
  | .hangup              => if s.closed ∨ s.waits.isSome then none else some s.close

-- The datagram is dispatched.
def Dispatches (s : State) (e : Event) (d : Datagram) : Prop :=
  ∃ buf, e = .datagram d.client buf ∧ s.admits peer d.client = true ∧
    received d.client buf = .ok (some d)

-- What happens to the table and the tasks when no datagram is dispatched.
inductive Change (s : State) : State → Prop
  | client c : Change s { s with client := c }
  | close c : Change s ({ s with client := c } : State).close
  | spawn d : s.waits = some d → Change s (s.spawn d)
  | drop : Change s { s with waits := none }
  | task id f f' :
    s.tasks[id]? = some f → f.phase ≠ .ended → f'.replyDst = f.replyDst → Change s (s.setTask id f')
  | reply id f payload :
    s.tasks[id]? = some f →
    Change s { s with passed := (id, .reply (encodeUdpDatagram f.replyDst payload)) :: s.passed }

section

variable {peer : IpAddr} {s s' : State} {e : Event}

-- A datagram is received if it can be read and is not a fragment.
theorem received_cases {src : SocketAddr} {buf : List UInt8} {d : Datagram}
    (h : received src buf = .ok (some d)) :
    ∃ target off, parseUdpDatagram buf = .ok (0, target, off) ∧
      d = ⟨src, target, (buf.take off).drop 3, buf.drop off⟩ := by
  cases hp : parseUdpDatagram buf
  case error => simp [received, hp, bind, Except.bind] at h
  case ok r =>
    obtain ⟨frag, target, off⟩ := r
    simp only [received, hp, bind, Except.bind] at h
    split at h
    case isTrue => cases h
    case isFalse hf =>
      cases h
      exact ⟨target, off, by rw [not_not.mp hf], rfl⟩

theorem client_of_received {src : SocketAddr} {buf : List UInt8} {d : Datagram}
    (h : received src buf = .ok (some d)) : d.client = src := by
  obtain ⟨_, _, _, rfl⟩ := received_cases h
  rfl

theorem running_eq_some {id : Nat} {f : Flow} (h : s.running id = some f) :
    s.tasks[id]? = some f ∧ f.phase = .running := by
  simpa [State.running, Option.filter_eq_some_iff] using h

theorem receive_cases {src : SocketAddr} {buf : List UInt8} :
    (∃ d, Dispatches peer s (.datagram src buf) d ∧
      receive peer s src buf = ({ s with client := some d.client } : State).dispatch d) ∨
    (∀ d, ¬Dispatches peer s (.datagram src buf) d) ∧ Change s (receive peer s src buf) := by
  by_cases ha : s.admits peer src = true
  case neg =>
    refine .inr ⟨fun d hd => ?_, ?_⟩
    · obtain ⟨_, ⟨⟩, hd, _⟩ := hd
      exact ha hd
    · rw [receive, if_neg ha]
      exact .client s.client
  case pos =>
    by_cases hd : ∃ d, received src buf = .ok (some d)
    case pos =>
      have ⟨d, hd⟩ := hd
      cases client_of_received hd
      refine .inl ⟨d, ⟨buf, rfl, ha, hd⟩, ?_⟩
      rw [receive, if_pos ha]
      simp only [hd]
    case neg =>
      refine .inr ⟨fun d hr => ?_, ?_⟩
      · obtain ⟨_, ⟨⟩, _, hr⟩ := hr
        exact hd ⟨d, hr⟩
      · rw [receive, if_pos ha]
        dsimp only
        split
        case h_1 d hr => exact absurd ⟨d, hr⟩ hd
        case h_3      => exact .close (some src)
        all_goals exact .client (some src)

theorem not_dispatches (h : ∀ src buf, e ≠ .datagram src buf) (d : Datagram) : ¬Dispatches peer s e d :=
  fun ⟨buf, he, _⟩ => h d.client buf he

-- The steps by what they do to the table and the tasks.
theorem step_cases (h : step peer s e = some s') :
    (∃ d, Dispatches peer s e d ∧ s.closed = false ∧ s.waits = none ∧
      s' = ({ s with client := some d.client } : State).dispatch d) ∨
    (∀ d, ¬Dispatches peer s e d) ∧ Change s s' := by
  cases e <;> simp only [step] at h
  case datagram src buf =>
    split at h <;> cases h
    case isFalse hc =>
      have ⟨hc, hw⟩ : s.closed = false ∧ s.waits = none := by simpa using hc
      obtain ⟨d, hd, he⟩ | ⟨hd, he⟩ := @receive_cases peer s src buf
      case inl => exact .inl ⟨d, hd, hc, hw, he⟩
      case inr => exact .inr ⟨hd, he⟩
  all_goals refine .inr ⟨not_dispatches (by simp), ?_⟩
  case opened ok =>
    split at h
    case h_1 => cases h
    case h_2 d hw =>
      split at h <;> cases h
      case isTrue  => exact .spawn d hw
      case isFalse => exact .drop
  case send id ok =>
    split at h
    case h_2 => cases h
    case h_1 f hf =>
      have ⟨hf, hp⟩ := running_eq_some hf
      split at h <;> cases h
      exact .task id f _ hf (by simp [hp]) rfl
  case reply id payload ok =>
    split at h
    case h_2 => cases h
    case h_1 f hf =>
      have ⟨hf, hp⟩ := running_eq_some hf
      split at h <;> cases h
      case isTrue  => exact .reply id f payload hf
      case isFalse => exact .task id f _ hf (by simp [hp]) rfl
  case broken id =>
    split at h <;> cases h
    case h_1 f hf =>
      have ⟨hf, hp⟩ := running_eq_some hf
      exact .task id f _ hf (by simp [hp]) rfl
  case drained id =>
    split at h
    case h_2 => cases h
    case h_1 f hf =>
      have ⟨hf, hp⟩ := running_eq_some hf
      split at h <;> cases h
      exact .task id f _ hf (by simp [hp]) rfl
  case finished id =>
    split at h
    case h_2 => cases h
    case h_1 f hf =>
      split at h <;> cases h
      case isTrue hp => exact .task id f _ hf (by simp [hp]) rfl
  case idle =>
    split at h
    case isTrue => cases h
    case isFalse =>
      split at h <;> cases h
      case isTrue  => exact .close s.client
      case isFalse => exact .client s.client
  case hangup =>
    split at h <;> cases h
    exact .close s.client

end
end JammVpn.Udp
