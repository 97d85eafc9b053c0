import JammVpn.Lib.Machine
import JammVpn.Net.Shadowsocks

-- Packets with the ids of a session and of a packet, each of which is taken once.
namespace JammVpn.Ss2022Udp

open Bytes Shadowsocks

def typeServer : UInt8 := 1
def timestampWindow : Nat := 30
def replayWindow : Nat := 64

-- The bit of a packet is its distance from the highest one.
structure Replay where
  sid     : Option (List UInt8)
  highest : Nat
  window  : BitVec 64
  deriving DecidableEq

def Replay.default : Replay where
  sid := none
  highest := 0
  window := 0

-- False for a duplicate, and for a packet that is too old to tell.
def Replay.accept (r : Replay) (sid : List UInt8) (pid : Nat) : Bool × Replay :=
  if r.sid ≠ some sid then
    (true, { sid := some sid, highest := pid, window := 1 })
  else if r.highest < pid then
    let shift := pid - r.highest
    let window := if replayWindow ≤ shift then 0 else r.window <<< shift
    (true, { r with highest := pid, window := window ||| 1 })
  else
    let diff := r.highest - pid
    if replayWindow ≤ diff then (false, r)
    else
      let bit := 1#64 <<< diff
      if r.window &&& bit ≠ 0 then (false, r)
      else (true, { r with window := r.window ||| bit })

-- The part of a session that decryption reads.
structure Session where
  method    : Method
  psk       : List UInt8
  sessionId : List UInt8

variable (p : Primitives)

def xchachaOpen (psk nonce sealed : List UInt8) : Except String (List UInt8) :=
  if psk.length ≠ 32 then .error "ss2022: ключ chacha"
  else
    match p.xchacha20Poly1305.decrypt psk nonce [] sealed with
    | some plain => .ok plain
    | none       => .error "ss2022: ошибка расшифровки (аутентификация)"

def aesEcbDecryptBlock (psk block : List UInt8) : Except String (List UInt8) :=
  if psk.length = 16 ∨ psk.length = 32 then .ok (p.aesDecryptBlock psk block)
  else .error "ss2022: длина PSK не 16/32"

def openNonce (method : Method) (subkey nonce sealed : List UInt8) : Except String (List UInt8) := do
  let key ← AeadKey.new method subkey
  key.openBytes p nonce sealed

namespace Session

variable (s : Session)

-- The id of the server's session, the id of the packet, and its body.
def openPacket (packet : List UInt8) : Except String (List UInt8 × Nat × List UInt8) :=
  if s.method.isChacha2022 then
    if packet.length < 24 then .error "ss2022-udp: пакет короче nonce"
    else do
      let plain ← xchachaOpen p s.psk (packet.take 24) (packet.drop 24)
      if plain.length < 16 then .error "ss2022-udp: усечённый заголовок"
      else return (plain.take 8, ofBe ((plain.drop 8).take 8), plain.drop 16)
  else if packet.length < 32 then .error "ss2022-udp: пакет короче минимума"
  else do
    let header ← aesEcbDecryptBlock p s.psk (packet.take 16)
    let sid := header.take 8
    let nonce := (header.drop 4).take 12
    let subkey := sessionSubkey2022 p s.method s.psk sid
    let body ← openNonce p s.method subkey nonce (packet.drop 16)
    return (sid, ofBe ((header.drop 8).take 8), body)

-- `abs_diff`.
def absDiff (a b : Nat) : Nat :=
  (a - b) + (b - a)

def parseResponseBody (now : Nat) (body : List UInt8) : Except String (List UInt8) :=
  if body.length < 19 then .error "ss2022-udp: усечённый ответ"
  else if body.head? ≠ some typeServer then .error "ss2022-udp: пакет не серверный"
  else if timestampWindow < absDiff now (ofBe ((body.drop 1).take 8)) then
    .error "ss2022-udp: timestamp вне окна (replay?)"
  else if (body.drop 9).take 8 ≠ s.sessionId then .error "ss2022-udp: чужой client_session_id"
  else
    let pos := 19 + ofBe ((body.drop 17).take 2)
    if body.length < pos then .error "ss2022-udp: padding за границей"
    else do
      let (_, payload) ← parseAddress (body.drop pos)
      return payload

-- What a packet says when everything about it but its ids has been checked.
def validate (now : Nat) (packet : List UInt8) : Except String (List UInt8 × Nat × List UInt8) := do
  let (sid, pid, body) ← s.openPacket p packet
  let payload ← s.parseResponseBody now body
  return (sid, pid, payload)

-- Only a packet that passes all other checks gets to the window.
def decrypt (now : Nat) (packet : List UInt8) (r : Replay) : Except String (List UInt8) × Replay :=
  match s.validate p now packet with
  | .error e              => (.error e, r)
  | .ok (sid, pid, payload) =>
    match r.accept sid pid with
    | (true, r)  => (.ok payload, r)
    | (false, r) => (.error "ss2022-udp: replay/дубликат пакета", r)

end Session

-- A session with the ids of the packets that it has delivered.
structure State where
  replay    : Replay
  delivered : List (List UInt8 × Nat)
  deriving DecidableEq

def State.start : State where
  replay := .default
  delivered := []

-- A packet with the time at which it comes.
structure Arrival where
  now    : Nat
  packet : List UInt8

def step (s : Session) (st : State) (a : Arrival) : Option State :=
  match s.validate p a.now a.packet, s.decrypt p a.now a.packet st.replay with
  | .ok (sid, pid, _), (.ok _, replay) => some { replay, delivered := (sid, pid) :: st.delivered }
  | _, (_, replay)                     => some { st with replay }

end JammVpn.Ss2022Udp
