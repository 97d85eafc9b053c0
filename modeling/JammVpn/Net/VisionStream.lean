import JammVpn.Net.RealityStream
import JammVpn.Net.VisionPlainStream

-- Padding in the records of a connection, until both sides go on without it: in the records, or below them.
namespace JammVpn.Vision

open Bytes PollIo Reality
open RealityStream (ioError)

inductive VisionMode
  | paddingTls
  | tls
  | direct
  deriving DecidableEq

def VisionMode.name : VisionMode → String
  | paddingTls => "PaddingTls"
  | tls        => "Tls"
  | direct     => "Direct"

def commandDirect : UInt8 := 0x02

-- The writer of the session takes whole buffers, so that no plaintext is kept outside of it.
structure VisionStream where
  session                 : RealityClientConnection
  readMode                : VisionMode
  writeMode               : VisionMode
  outerReadDeframer       : Option TlsDeframer
  readUnpadder            : VisionUnpadder
  innerReadDeframer       : FuzzyTlsDeframer
  innerWriteDeframer      : FuzzyTlsDeframer
  padder                  : Padder
  filter                  : VisionFilter
  pendingRead             : List UInt8
  vlessResponsePending    : Bool
  partialVlessResponse    : List UInt8
  pendingDirectModeSwitch : Bool
  pendingTlsModeSwitch    : Bool
  isReadEof               : Bool

-- `next_records`.
def TlsDeframer.nextRecords (d : TlsDeframer) : Except IoError (List (List UInt8)) × TlsDeframer :=
  match _h : d.nextRecord with
  | (.error e, d)          => (.error e, d)
  | (.ok none, d)          => (.ok [], d)
  | (.ok (some record), d) =>
    let (records, d) := nextRecords d
    (records.map (record :: ·), d)
termination_by d.buffer.length
decreasing_by
  obtain ⟨happ, hne⟩ := TlsDeframer.nextRecord_remaining _h
  rw [← happ, List.length_append]
  exact Nat.lt_add_of_pos_left (List.length_pos_iff.mpr (hne record rfl))

namespace VisionStream

-- A call has a result and leaves a stream, unless it panics.
abbrev Result (α : Type) := Except IoError α × VisionStream

def andThen {α β : Type} (r : Option (Result α)) (f : α → VisionStream → Option (Result β)) : Option (Result β) :=
  match r with
  | none               => none
  | some (.error e, s) => some (.error e, s)
  | some (.ok a, s)    => f a s

def newClient (session : RealityClientConnection) (draws : Nat → Draw) : VisionStream where
  session := session
  readMode := .paddingTls
  writeMode := .paddingTls
  outerReadDeframer := some .new
  readUnpadder := .new
  innerReadDeframer := .new
  innerWriteDeframer := .new
  padder := { draws, firstPacket := true }
  filter := .new
  pendingRead := []
  vlessResponsePending := true
  partialVlessResponse := []
  pendingDirectModeSwitch := false
  pendingTlsModeSwitch := false
  isReadEof := false

variable (C : Crypto) (uuid : List UInt8)

section Read

-- `feed_and_process_crypto_connection`.
def feedAndProcess (s : VisionStream) (data : List UInt8) : Option (Result Nat) := do
  let session ← s.session.feed data
  match session.processNewPackets C with
  | none                     => none
  | some (.error e, session) => some (.error (ioError e), { s with session })
  | some (.ok n, session)    => some (.ok n, { s with session })

-- Takes so many bytes of plaintext, piece by piece.
def takePlaintext (s : VisionStream) (acc : List UInt8) (missing : Nat) : (turns : Nat) → Option (Result (List UInt8))
  | 0         => some (.ok acc, s)
  | turns + 1 =>
    if missing = 0 then some (.ok acc, s)
    else
      let session := s.session.reader
      match session.fillBuf with
      | .error _ => some (.error (.other "operation would block"), { s with session })
      | .ok buf  =>
        let session := session.consume buf.length
        takePlaintext { s with session } (acc ++ buf) (missing - buf.length) turns

-- The plaintext of one more record.
def decrypt (s : VisionStream) (record : List UInt8) : Option (Result (List UInt8)) :=
  andThen (s.feedAndProcess C record) fun n s => s.takePlaintext [] n n

-- The stream has no padding any more in this direction.
def switchReadTo (s : VisionStream) (mode : VisionMode) : Result Unit :=
  if s.readMode ≠ .paddingTls then
    (.error (.other s!"switch_read_to_{mode.name.toLower}_mode called from mode {s.readMode.name}"), s)
  else (.ok (), { s with readMode := mode })

-- The filter looks at the records in the content.
def filterContent (filter : VisionFilter) (d : FuzzyTlsDeframer) : VisionFilter × FuzzyTlsDeframer :=
  match _h : d.nextRecord with
  | (.error _, d)                 => (filter.stopFiltering, d)
  | (.ok .needData, d)            => (filter, d)
  | (.ok (.tlsRecord record), d)  =>
    let filter := filter.filterRecord record
    if filter.isFiltering then filterContent filter d else (filter, d)
  | (.ok (.unknownPrefix _), d)   => filterContent filter.decrementFilterCount d
termination_by d.pendingBytes
decreasing_by
  all_goals exact FuzzyTlsDeframer.pendingBytes_lt _h nofun

-- The records that have come behind the last block.
def decryptRest (s : VisionStream) (d : TlsDeframer) : Option (Result TlsDeframer) :=
  match _h : d.nextRecord with
  | (.error e, _)          => some (.error e, s)
  | (.ok none, d)          => some (.ok d, s)
  | (.ok (some record), d) =>
    andThen (s.decrypt C record) fun plaintext s => decryptRest { s with pendingRead := s.pendingRead ++ plaintext } d
termination_by d.buffer.length
decreasing_by
  obtain ⟨happ, hne⟩ := TlsDeframer.nextRecord_remaining _h
  rw [← happ, List.length_append]
  exact Nat.lt_add_of_pos_left (List.length_pos_iff.mpr (hne record rfl))

-- What has come behind a last block is data as it is, or goes on in records.
def handleCommand (s : VisionStream) (unpadded : List UInt8) : Option UnpadCommand → Option (Result Unit)
  | some .direct =>
    match s.outerReadDeframer with
    | none   => none
    | some d => some (switchReadTo { s with
        outerReadDeframer := none, pendingRead := s.pendingRead ++ (unpadded ++ d.buffer) } .direct)
  | some .«end» =>
    match s.outerReadDeframer with
    | none   => none
    | some d =>
      let s := { s with pendingRead := s.pendingRead ++ unpadded, outerReadDeframer := none }
      andThen (s.decryptRest C d) fun d s =>
        if d.buffer.isEmpty then some (s.switchReadTo .tls)
        else andThen (s.feedAndProcess C d.buffer) fun n s => if n = 0 then some (s.switchReadTo .tls) else none
  | _ => some (.ok (), { s with pendingRead := s.pendingRead ++ unpadded })

def handlePaddedBytes (s : VisionStream) (decrypted : List UInt8) : Option (Result Unit) :=
  match s.readUnpadder.unpad uuid decrypted with
  | (.error e, readUnpadder) => some (.error e, { s with readUnpadder })
  | (.ok r, readUnpadder)    =>
    let (filter, innerReadDeframer) :=
      if ¬r.content.isEmpty ∧ s.filter.isFiltering then
        filterContent s.filter (s.innerReadDeframer.feed r.content)
      else (s.filter, s.innerReadDeframer)
    handleCommand C { s with readUnpadder, filter, innerReadDeframer } r.content r.command

-- The plaintext of the records goes to the header of the response.
def decryptAll (s : VisionStream) : (records : List (List UInt8)) → Option (Result Unit)
  | []                => some (.ok (), s)
  | record :: records =>
    andThen (s.decrypt C record) fun plaintext s =>
      decryptAll { s with partialVlessResponse := s.partialVlessResponse ++ plaintext } records

-- The records in the deframer, as long as there is padding. Each turn but the last takes one.
def unpadRecords (s : VisionStream) : (turns : Nat) → Option (Result Unit)
  | 0         => some (.ok (), s)
  | turns + 1 =>
    match s.outerReadDeframer with
    | none   => none
    | some d =>
      match d.nextRecord with
      | (.error e, d)          => some (.error e, { s with outerReadDeframer := some d })
      | (.ok none, d)          => some (.ok (), { s with outerReadDeframer := some d })
      | (.ok (some record), d) =>
        andThen (decrypt C { s with outerReadDeframer := some d } record) fun plaintext s =>
          if plaintext.isEmpty then unpadRecords s turns
          else
            andThen (s.handlePaddedBytes C uuid plaintext) fun _ s =>
              if s.readMode = .paddingTls then unpadRecords s turns else some (.ok (), s)

-- What a read has for its caller.
abbrev Read := Poll (List UInt8) × VisionStream × Source

def servePending (s : VisionStream) (src : Source) (cap : Nat) : Read :=
  (.ready (s.pendingRead.take cap), { s with pendingRead := s.pendingRead.drop cap }, src)

-- The header of the response. All records that come with it are decrypted before it is looked at.
def pollReadVlessResponse (s : VisionStream) (responses : List Response) (rest : List UInt8) :
    Option (Poll (List UInt8) × VisionStream × Source) :=
  match responses with
  | []             => some (.pending, s, ⟨[], rest⟩)
  | .pending :: rs => some (.pending, s, ⟨rs, rest⟩)
  | .error :: rs   => some (.error .inner, s, ⟨rs, rest⟩)
  | .ready n :: rs =>
    let len := min (n + 1) readLen
    let chunk := rest.take len
    let rest := rest.drop len
    if chunk.isEmpty then
      some (.error (.other "Connection closed while reading VLESS response"), s, ⟨rs, rest⟩)
    else
      match s.outerReadDeframer with
      | none   => none
      | some d =>
        match (d.feed chunk).nextRecords with
        | (.error e, d)    => some (.error e, { s with outerReadDeframer := some d }, ⟨rs, rest⟩)
        | (.ok records, d) =>
          match decryptAll C { s with outerReadDeframer := some d } records with
          | none               => none
          | some (.error e, s) => some (.error e, s, ⟨rs, rest⟩)
          | some (.ok (), s)   =>
            match s.partialVlessResponse with
            | version :: addonLength :: _ =>
              let totalResponseLen := 2 + addonLength.toNat
              if version ≠ 0 then
                some (.error (.other s!"Invalid VLESS response version: {version}"), s, ⟨rs, rest⟩)
              else if s.partialVlessResponse.length < totalResponseLen then pollReadVlessResponse s rs rest
              else
                some (.ready (s.partialVlessResponse.drop totalResponseLen), { s with partialVlessResponse := [] },
                  ⟨rs, rest⟩)
            | _ => pollReadVlessResponse s rs rest

-- What the session has is delivered first.
def pollReadTls (s : VisionStream) (responses : List Response) (rest : List UInt8) (cap : Nat) : Option Read :=
  let session := s.session.reader
  match session.fillBuf with
  | .ok (b :: available) =>
    let len := min cap (b :: available).length
    some (.ready ((b :: available).take len), { s with session := session.consume len }, ⟨responses, rest⟩)
  | _ =>
    if s.isReadEof then some (.ready [], { s with session }, ⟨responses, rest⟩)
    else pollLoop { s with session } responses rest
where
  pollLoop (s : VisionStream) (responses : List Response) (rest : List UInt8) : Option Read :=
    match responses with
    | []             => some (.pending, s, ⟨[], rest⟩)
    | .pending :: rs => some (.pending, s, ⟨rs, rest⟩)
    | .error :: rs   => some (.error .inner, s, ⟨rs, rest⟩)
    | .ready n :: rs =>
      let len := min (n + 1) tlsMaxRecordSize
      let chunk := rest.take len
      let rest := rest.drop len
      do
        let (n, session) ← s.session.readTls chunk
        if n = 0 then return (.ready [], { s with session, isReadEof := true }, ⟨rs, rest⟩)
        else
          match session.processNewPackets C with
          | none                     => none
          | some (.error e, session) => return (.error (ioError e), { s with session }, ⟨rs, rest⟩)
          | some (.ok n, session)    =>
            if n = 0 then pollLoop { s with session } rs rest
            else
              let session := session.reader
              match session.fillBuf with
              | .error _      => return (.error (.other "operation would block"), { s with session }, ⟨rs, rest⟩)
              | .ok available =>
                if available.isEmpty then
                  return (.error (.other "Read zero bytes when plaintext is available"), { s with session }, ⟨rs, rest⟩)
                else
                  let len := min cap available.length
                  return (.ready (available.take len), { s with session := session.consume len }, ⟨rs, rest⟩)

-- Goes on without padding.
def pollReadUnpadded (s : VisionStream) (src : Source) (cap : Nat) : Option Read :=
  if ¬s.pendingRead.isEmpty then some (s.servePending src cap)
  else if s.readMode = .direct then
    let (p, src) := src.pollRead cap
    some (p, s, src)
  else s.pollReadTls C src.responses src.rest cap

def pollReadPaddingTls (s : VisionStream) (responses : List Response) (rest : List UInt8) (cap : Nat) : Option Read :=
  match responses with
  | []             => some (.pending, s, ⟨[], rest⟩)
  | .pending :: rs => some (.pending, s, ⟨rs, rest⟩)
  | .error :: rs   => some (.error .inner, s, ⟨rs, rest⟩)
  | .ready n :: rs =>
    let len := min (n + 1) readLen
    let chunk := rest.take len
    let rest := rest.drop len
    if chunk.isEmpty then some (.ready [], { s with isReadEof := true }, ⟨rs, rest⟩)
    else
      match s.outerReadDeframer with
      | none   => none
      | some d =>
        let d := d.feed chunk
        match unpadRecords C uuid { s with outerReadDeframer := some d } (d.buffer.length + 1) with
        | none               => none
        | some (.error e, s) => some (.error e, s, ⟨rs, rest⟩)
        | some (.ok (), s)   =>
          if s.readMode ≠ .paddingTls then s.pollReadUnpadded C ⟨rs, rest⟩ cap
          else if ¬s.pendingRead.isEmpty then some (s.servePending ⟨rs, rest⟩ cap)
          else pollReadPaddingTls s rs rest cap

def pollRead (s : VisionStream) (src : Source) (cap : Nat) : Option Read :=
  if ¬s.pendingRead.isEmpty then some (s.servePending src cap)
  else if s.readMode ≠ .paddingTls then s.pollReadUnpadded C src cap
  else if s.vlessResponsePending then
    match s.pollReadVlessResponse C src.responses src.rest with
    | none                           => none
    | some (.pending, s, src)        => some (.pending, s, src)
    | some (.error e, s, src)        => some (.error e, s, src)
    | some (.ready decrypted, s, src) =>
      let s := { s with vlessResponsePending := false }
      if decrypted.isEmpty then padded s src
      else
        match s.handlePaddedBytes C uuid decrypted with
        | none               => none
        | some (.error e, s) => some (.error e, s, src)
        | some (.ok (), s)   =>
          if s.readMode ≠ .paddingTls ∨ ¬s.pendingRead.isEmpty then s.pollReadUnpadded C src cap else padded s src
  else padded s src
where
  padded (s : VisionStream) (src : Source) : Option Read :=
    if s.isReadEof then some (.ready [], s, src) else s.pollReadPaddingTls C uuid src.responses src.rest cap

end Read

section Write

-- What a write leaves.
abbrev Write (α : Type) := Poll α × VisionStream × Sink

-- The stream below is offered all records that there are, and what it does not take is kept.
def writeTlsDirect (s : VisionStream) (k : Sink) : Option (Write Nat) :=
  match s.session.encryptPending C with
  | none                     => none
  | some (.error e, session) => some (.error (ioError e), { s with session }, k)
  | some (.ok (), session)   =>
    match k.pollWrite session.ciphertextWriteBuf with
    | (.ready n, k) =>
      some (.ready n, { s with
        session := { session with ciphertextWriteBuf := session.ciphertextWriteBuf.drop n } }, k)
    | (.pending, k) => some (.pending, { s with session }, k)
    | (.error e, k) => some (.error e, { s with session }, k)

-- A turn of the loop takes an answer of the stream below.
def drainLoop (s : VisionStream) (k : Sink) : (turns : Nat) → Option (Write Unit)
  | 0         => some (.pending, s, k)
  | turns + 1 =>
    if s.session.wantsWrite then
      match s.writeTlsDirect C k with
      | none                  => none
      | some (.error e, s, k) => some (.error e, s, k)
      | some (.pending, s, k) => some (.pending, s, k)
      | some (.ready 0, s, k) => some (.error .writeZero, s, k)
      | some (.ready _, s, k) => drainLoop s k turns
    else some (.ready (), s, k)

-- `drain_all_writes_padding` and `drain_all_writes_tls`.
def drainAllWrites (s : VisionStream) (k : Sink) : Option (Write Unit) :=
  s.drainLoop C k (k.responses.length + 1)

-- The session takes all of the buffer. A stream below that takes nothing does no harm.
def pollWriteTls (s : VisionStream) (k : Sink) (buf : List UInt8) : Option (Write Nat) :=
  if buf.isEmpty then some (.ready 0, s, k)
  else
    match drainAllWrites C { s with session := s.session.write buf } k with
    | none                           => none
    | some (.error .writeZero, s, k) => some (.ready buf.length, s, k)
    | some (.error e, s, k)          => some (.error e, s, k)
    | some (_, s, k)                 => some (.ready buf.length, s, k)

def switchWriteTo (s : VisionStream) (mode : VisionMode) : Result Unit :=
  if s.writeMode ≠ .paddingTls then
    (.error (.other s!"switch_write_to_{mode.name.toLower}_mode called from mode {s.writeMode.name}"), s)
  else (.ok (), { s with writeMode := mode })

-- One more block for the session, and what the stream below takes of it.
def writeBlock (s : VisionStream) (k : Sink) (data : List UInt8) (command : UInt8) (isTls : Bool) :
    Option (Write Unit) :=
  let (block, padder) := s.padder.pad uuid data command isTls
  drainAllWrites C { s with session := s.session.write block, padder } k

-- A last block: the caller is told how much of its buffer has been taken, and gives the rest again.
def writeLast (s : VisionStream) (k : Sink) (data : List UInt8) (command : UInt8) (isTls : Bool)
    (processed existing : Nat) : Option (Write Nat) :=
  match s.writeBlock C uuid k data command isTls with
  | none                  => none
  | some (.error e, s, k) => some (.error e, s, k)
  | some (_, s, k)        =>
    if processed < existing then none
    else some (.ready (processed - existing), { s with innerWriteDeframer := s.innerWriteDeframer.clear }, k)

-- Makes a block of each thing that the deframer finds. There is no result where the code panics: where an assertion
-- fails, or where a number becomes negative.
def writeLoop (s : VisionStream) (d : FuzzyTlsDeframer) (k : Sink) (existing len processed : Nat) :
    Option (Write Nat) :=
  match _h : d.nextRecord with
  | (.error _, d)                    =>
    let s := {
      s with
      pendingTlsModeSwitch := true
      filter := s.filter.stopFiltering
      innerWriteDeframer := d
    }
    match s.writeBlock C uuid k d.remainingData commandEnd s.filter.isTls with
    | none                  => none
    | some (.error e, s, k) => some (.error e, s, k)
    | some (_, s, k)        => some (.ready len, { s with innerWriteDeframer := s.innerWriteDeframer.clear }, k)
  | (.ok .needData, d)               => some (.ready len, { s with innerWriteDeframer := d }, k)
  | (.ok (.tlsRecord record), d)     =>
    let processed := processed + record.length
    let s := { s with filter := s.filter.filterRecord record, innerWriteDeframer := d }
    if WriteState.isLast s.filter record then
      if processed ≤ existing then none
      else if s.filter.supportsXtls then
        writeLast C uuid { s with pendingDirectModeSwitch := true } k record commandDirect true processed existing
      else writeLast C uuid { s with pendingTlsModeSwitch := true } k record commandEnd true processed existing
    else
      match s.writeBlock C uuid k record commandContinue s.filter.isTls with
      | none                   => none
      | some (.error e, s, k)  => some (.error e, s, k)
      | some (.ready (), s, k) => writeLoop s d k existing len processed
      | some (.pending, s, k)  =>
        let taken := processed - existing
        if processed < existing ∨ len < taken ∨ d.pendingBytes ≠ len - taken then none
        else some (.ready taken, { s with innerWriteDeframer := d.clear }, k)
  | (.ok (.unknownPrefix before), d) =>
    let processed := processed + before.length
    let s := { s with filter := s.filter.decrementFilterCount, innerWriteDeframer := d }
    if s.filter.isFiltering then
      match s.writeBlock C uuid k before commandContinue s.filter.isTls with
      | none                  => none
      | some (.error e, s, k) => some (.error e, s, k)
      | some (_, s, k)        => writeLoop s d k existing len processed
    else
      writeLast C uuid { s with pendingTlsModeSwitch := true, innerWriteDeframer := d.clear } k before commandEnd
        s.filter.isTls processed existing
termination_by d.pendingBytes
decreasing_by
  all_goals exact FuzzyTlsDeframer.pendingBytes_lt _h nofun

-- What the last block has announced happens with the next write, when all of the block has been written.
def pollWritePaddingTls (s : VisionStream) (k : Sink) (buf : List UInt8) : Option (Write Nat) :=
  match s.drainAllWrites C k with
  | none                   => none
  | some (.pending, s, k)  => some (.pending, s, k)
  | some (.error e, s, k)  => some (.error e, s, k)
  | some (.ready (), s, k) =>
    if s.pendingDirectModeSwitch then
      match switchWriteTo { s with pendingDirectModeSwitch := false } .direct with
      | (.error e, s) => some (.error e, s, k)
      | (.ok (), s)   =>
        let (p, k) := k.pollWrite buf
        some (p, s, k)
    else if s.pendingTlsModeSwitch then
      match switchWriteTo { s with pendingTlsModeSwitch := false } .tls with
      | (.error e, s) => some (.error e, s, k)
      | (.ok (), s)   => s.pollWriteTls C k buf
    else
      let existing := s.innerWriteDeframer.pendingBytes
      s.writeLoop C uuid (s.innerWriteDeframer.feed buf) k existing buf.length 0

def pollWrite (s : VisionStream) (k : Sink) (buf : List UInt8) : Option (Write Nat) :=
  match s.writeMode with
  | .paddingTls => s.pollWritePaddingTls C uuid k buf
  | .tls        => s.pollWriteTls C k buf
  | .direct     =>
    let (p, k) := k.pollWrite buf
    some (p, s, k)

def pollFlush (s : VisionStream) (k : Sink) : Option (Write Unit) :=
  if s.writeMode = .direct then
    let (p, k) := k.pollDone
    some (p, s, k)
  else
    match s.drainAllWrites C k with
    | some (.ready (), s, k) =>
      let (p, k) := k.pollDone
      some (p, s, k)
    | r                      => r

-- Nothing is written before it.
def pollShutdown (s : VisionStream) (k : Sink) : Write Unit :=
  let (p, k) := k.pollDone
  (p, s, k)

end Write
end VisionStream
end JammVpn.Vision
