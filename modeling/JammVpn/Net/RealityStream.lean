import JammVpn.Lib.PollRead
import JammVpn.Net.RealityConnection

-- A connection over a stream that is polled: the handshake before it is used, and the data then.
namespace JammVpn.Reality

open PollIo

variable (C : Crypto)

-- How many turns of the loop below there can be: the second one finds that nothing is written.
def drainTurns : Nat := 2

-- `drain_tls`: all records that can be written go into a buffer that takes everything.
def RealityClientConnection.drainTls (conn : RealityClientConnection) (wbuf : List UInt8) :
    (turns : Nat) → Option (Except Error Unit × RealityClientConnection × List UInt8)
  | 0         => some (.ok (), conn, wbuf)
  | turns + 1 =>
    if conn.wantsWrite then
      match conn.writeTls C List.length with
      | none                  => none
      | some (.error e, conn) => some (.error e, conn, wbuf)
      | some (.ok bs, conn)   =>
        if bs.isEmpty then some (.ok (), conn, wbuf) else drainTls conn (wbuf ++ bs) turns
    else some (.ok (), conn, wbuf)

inductive HandshakeEnd
  | done
  | waiting
  | failed (e : Error)

-- `reality_handshake`, from a connection that is new, with what the reads of the stream below give. All that is
-- written to the stream is taken.
def handshakeLoop (conn : RealityClientConnection) (wire : List UInt8) (reads : List (Except Error (List UInt8))) :
    Option (HandshakeEnd × RealityClientConnection × List UInt8 × List (Except Error (List UInt8))) :=
  match conn.drainTls C wire drainTurns with
  | none                        => none
  | some (.error e, conn, wire) => some (.failed e, conn, wire, reads)
  | some (.ok (), conn, wire)   =>
    if ¬conn.isHandshaking then some (.done, conn, wire, reads)
    else
      match reads with
      | []                => some (.waiting, conn, wire, [])
      | .error e :: reads => some (.failed e, conn, wire, reads)
      | .ok net :: reads  =>
        if net.isEmpty then
          some (.failed ⟨.unexpectedEof, "REALITY: соединение закрыто во время хендшейка"⟩, conn, wire, reads)
        else do
          let conn ← conn.feed net
          match conn.processNewPackets C with
          | none                  => none
          | some (.error e, conn) => some (.failed e, conn, wire, reads)
          | some (.ok _, conn)    => handshakeLoop conn wire reads

-- The bytes that have not been written to the stream below yet.
structure RealityStream where
  conn : RealityClientConnection
  wbuf : List UInt8

namespace RealityStream

def ioError (e : Error) : IoError :=
  .other e.msg

-- A turn of the loop takes an answer of the stream below. There is no result where the code panics.
def pollRead (s : RealityStream) (want : Nat) : (turns : Nat) → (src : Source) →
    Option (Poll (List UInt8) × RealityStream × Source)
  | 0, src         => some (.pending, s, src)
  | turns + 1, src =>
    if want = 0 then some (.ready [], s, src)
    else do
      let (bs, conn) := s.conn.read want
      let s := { s with conn }
      if ¬bs.isEmpty then return (.ready bs, s, src)
      else
        match src.pollRead 16384 with
        | (.pending, src)  => return (.pending, s, src)
        | (.error e, src)  => return (.error e, s, src)
        | (.ready net, src) =>
          if net.isEmpty then return (.ready [], s, src)
          else
            let conn ← s.conn.feed net
            match conn.processNewPackets C with
            | none                  => none
            | some (.error e, conn) => return (.error (ioError e), { s with conn }, src)
            | some (.ok _, conn)    => pollRead { s with conn } want turns src

-- `AsyncRead::poll_read`, into a buffer with this room.
def read (s : RealityStream) (src : Source) (want : Nat) : Option (Poll (List UInt8) × RealityStream × Source) :=
  pollRead C s want (src.responses.length + 1) src

def pollWrite (s : RealityStream) (k : Sink) (buf : List UInt8) : Option (Poll Nat × RealityStream × Sink) :=
  match flushWbuf k.responses s.wbuf k.written with
  | (.pending, wbuf, k)  => some (.pending, { s with wbuf }, k)
  | (.error e, wbuf, k)  => some (.error e, { s with wbuf }, k)
  | (.ready (), wbuf, k) =>
    if buf.isEmpty then some (.ready 0, { s with wbuf }, k)
    else
      match (s.conn.write buf).drainTls C wbuf drainTurns with
      | none                        => none
      | some (.error e, conn, wbuf) => some (.error (ioError e), ⟨conn, wbuf⟩, k)
      | some (.ok (), conn, wbuf)   =>
        match flushWbuf k.responses wbuf k.written with
        | (.error e, wbuf, k) => some (.error e, ⟨conn, wbuf⟩, k)
        | (_, wbuf, k)        => some (.ready buf.length, ⟨conn, wbuf⟩, k)

def pollFlush (s : RealityStream) (k : Sink) : Poll Unit × RealityStream × Sink :=
  match flushWbuf k.responses s.wbuf k.written with
  | (.ready (), wbuf, k) =>
    let (r, k) := k.pollDone
    (r, { s with wbuf }, k)
  | (r, wbuf, k)         => (r, { s with wbuf }, k)

-- Each poll notifies the server again.
def pollShutdown (s : RealityStream) (k : Sink) : Option (Poll Unit × RealityStream × Sink) := do
  let conn ← s.conn.sendCloseNotify C
  match conn.drainTls C s.wbuf drainTurns with
  | none                        => none
  | some (.error e, conn, wbuf) => return (.error (ioError e), ⟨conn, wbuf⟩, k)
  | some (.ok (), conn, wbuf)   => return pollFlush ⟨conn, wbuf⟩ k

end RealityStream
end JammVpn.Reality
