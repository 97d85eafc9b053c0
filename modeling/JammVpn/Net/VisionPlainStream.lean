import JammVpn.Lib.PollPipe
import JammVpn.Net.TlsDeframer
import JammVpn.Net.VisionFilter
import JammVpn.Net.VisionUnpad

-- A stream with padding, until the encrypted data of another stream is seen in it, or enough of it.
namespace JammVpn.Vision

open Bytes PollIo

def commandContinue : UInt8 := 0x00
def commandEnd : UInt8 := 0x01
def maxContent : Nat := 8192

def longPaddingMin : Nat := 900
def longPaddingRandomMax : Nat := 500
def shortPaddingRandomMax : Nat := 256
def maxPaddingSize : Nat := 8171

inductive Mode
  | padding
  | passthrough
  deriving DecidableEq

section Write

-- What is drawn for a block.
structure Draw where
  number : Nat
  bytes  : Nat → UInt8

def calculatePaddingLength (number contentLen : Nat) (isTls : Bool) : Nat :=
  let maxAllowable := maxPaddingSize - contentLen
  if isTls ∧ contentLen < longPaddingMin then
    min (longPaddingMin - contentLen + number % longPaddingRandomMax) maxAllowable
  else min (number % shortPaddingRandomMax) maxAllowable

def pad (draw : Draw) (data : List UInt8) (uuid : Option (List UInt8)) (command : UInt8) (isTls : Bool) :
    List UInt8 :=
  let contentLen := data.length % 65536
  let paddingLen := calculatePaddingLength draw.number contentLen isTls
  uuid.getD [] ++ [command] ++ toBe 2 contentLen ++ toBe 2 paddingLen ++ data ++
    (List.range paddingLen).map draw.bytes

-- What will be drawn, block by block, and whether a block has been made yet.
structure Padder where
  draws       : Nat → Draw
  firstPacket : Bool

variable (uuid : List UInt8)

def Padder.pad (p : Padder) (data : List UInt8) (command : UInt8) (isTls : Bool) : List UInt8 × Padder :=
  (Vision.pad (p.draws 0) data (if p.firstPacket then some uuid else none) command isTls,
    { draws := fun n => p.draws (n + 1), firstPacket := false })

-- All blocks but the last one are to be continued.
def Padder.pushBlocks (p : Padder) (isTls : Bool) (finalCommand : UInt8) :
    List (List UInt8) → List UInt8 × Padder
  | []              => ([], p)
  | [data]          => p.pad uuid data finalCommand isTls
  | data :: rest    =>
    let (block, p) := p.pad uuid data commandContinue isTls
    let (blocks, p) := p.pushBlocks isTls finalCommand rest
    (block ++ blocks, p)

def Padder.pushPadded (p : Padder) (data : List UInt8) (finalCommand : UInt8) (isTls : Bool) :
    List UInt8 × Padder :=
  if data.isEmpty then p.pad uuid data finalCommand isTls
  else p.pushBlocks uuid isTls finalCommand (chunks maxContent data)

structure WriteState where
  mode     : Mode
  deframer : FuzzyTlsDeframer
  filter   : VisionFilter
  padder   : Padder

-- No block has been made yet.
def WriteState.new (draws : Nat → Draw) : WriteState where
  mode := .padding
  deframer := .new
  filter := .new
  padder := { draws, firstPacket := true }

namespace WriteState

-- The last block, and what the deframer has kept behind it.
def finish (s : WriteState) (data : List UInt8) : List UInt8 × WriteState :=
  let (block, padder) := s.padder.pushPadded uuid data commandEnd s.filter.isTls
  (block ++ s.deframer.remainingData, { s with mode := .passthrough, deframer := s.deframer.clear, padder })

-- A record of encrypted data, or the last one that is looked at of something that is not a handshake.
def isLast (f : VisionFilter) (record : List UInt8) : Bool :=
  let isAppData := f.isTls && record.length ≥ 3 && record.getD 0 0 == 0x17 && record.getD 1 0 == 0x03
  let nonTlsEnded := !isAppData && !f.isFiltering && !f.isTls12OrAbove
  isAppData || nonTlsEnded

-- Makes blocks of all that the deframer finds.
def writeLoop (s : WriteState) (out : List UInt8) : Except IoError Unit × List UInt8 × WriteState :=
  match _h : s.deframer.nextRecord with
  | (.error e, deframer)                    => (.error e, out, { s with deframer })
  | (.ok .needData, deframer)               => (.ok (), out, { s with deframer })
  | (.ok (.tlsRecord record), deframer)     =>
    let s := { s with deframer, filter := s.filter.filterRecord record }
    if isLast s.filter record then
      let (blocks, s) := s.finish uuid record
      (.ok (), out ++ blocks, s)
    else
      let (blocks, padder) := s.padder.pushPadded uuid record commandContinue s.filter.isTls
      writeLoop { s with padder } (out ++ blocks)
  | (.ok (.unknownPrefix before), deframer) =>
    let s := { s with deframer, filter := s.filter.decrementFilterCount }
    if s.filter.isFiltering then
      let (blocks, padder) := s.padder.pushPadded uuid before commandContinue s.filter.isTls
      writeLoop { s with padder } (out ++ blocks)
    else
      let (blocks, s) := s.finish uuid before
      (.ok (), out ++ blocks, s)
termination_by s.deframer.pendingBytes
decreasing_by
  all_goals exact FuzzyTlsDeframer.pendingBytes_lt _h nofun

-- All of the buffer is taken; what the deframer waits for more of is kept.
def encode (s : WriteState) (buf : List UInt8) : Except IoError Nat × List UInt8 × WriteState :=
  let (r, out, s) := writeLoop uuid { s with deframer := s.deframer.feed buf } []
  (r.map fun _ => buf.length, out, s)

end WriteState

def encoder : Encoder WriteState Unit where
  direct s := s.mode = .passthrough
  encode s _ := s.encode uuid

def pollWrite : Writer WriteState → Sink → Unit → List UInt8 → Poll Nat × Writer WriteState × Sink :=
  (encoder uuid).pollWrite

-- What the deframer has kept is not written.
def pollShutdown : Writer WriteState → Sink → Poll Unit × Writer WriteState × Sink :=
  Encoder.pollFlush

end Write

section Read

structure ReadState where
  readMode             : Mode
  readUnpadder         : VisionUnpadder
  pendingRead          : List UInt8
  vlessResponsePending : Bool
  partialVlessResponse : List UInt8
  isReadEof            : Bool

def readLen : Nat := 8192

namespace ReadState

def newClient : ReadState where
  readMode := .padding
  readUnpadder := .new
  pendingRead := []
  vlessResponsePending := true
  partialVlessResponse := []
  isReadEof := false

-- Takes the header of the response off, when all of it has come, and gives what comes behind it.
def stripResponse (s : ReadState) (chunk : List UInt8) : Except IoError (Option (List UInt8)) × ReadState :=
  if s.vlessResponsePending then
    let partialVlessResponse := s.partialVlessResponse ++ chunk
    let s := { s with partialVlessResponse }
    match partialVlessResponse with
    | version :: addonLen :: _ =>
      if version ≠ 0 then (.error (.other "vision/enc: неверная версия VLESS-ответа"), s)
      else
        let total := 2 + addonLen.toNat
        if partialVlessResponse.length < total then (.ok none, s)
        else
          (.ok (some (partialVlessResponse.drop total)),
            { s with partialVlessResponse := [], vlessResponsePending := false })
    | _ => (.ok none, s)
  else (.ok (some chunk), s)

variable (uuid : List UInt8)

def handleUnpad (s : ReadState) (data : List UInt8) : Except IoError Unit × ReadState :=
  match s.readUnpadder.unpad uuid data with
  | (.error e, u) => (.error e, { s with readUnpadder := u })
  | (.ok r, u)    =>
    let readMode := if r.command = some .«end» ∨ r.command = some .direct then .passthrough else s.readMode
    (.ok (), { s with readUnpadder := u, pendingRead := s.pendingRead ++ r.content, readMode })

def servePending (s : ReadState) (cap : Nat) : List UInt8 × ReadState :=
  (s.pendingRead.take cap, { s with pendingRead := s.pendingRead.drop cap })

-- Reads until there is something to deliver.
def readLoop (s : ReadState) (responses : List Response) (rest : List UInt8) (cap : Nat) :
    Poll (List UInt8) × ReadState × Source :=
  match responses with
  | []             => (.pending, s, ⟨[], rest⟩)
  | .pending :: rs => (.pending, s, ⟨rs, rest⟩)
  | .error :: rs   => (.error .inner, s, ⟨rs, rest⟩)
  | .ready n :: rs =>
    let len := min (n + 1) readLen
    let chunk := rest.take len
    let rest := rest.drop len
    if chunk.isEmpty then (.ready [], { s with isReadEof := true }, ⟨rs, rest⟩)
    else
      match s.stripResponse chunk with
      | (.error e, s)           => (.error e, s, ⟨rs, rest⟩)
      | (.ok none, s)           => readLoop s rs rest cap
      | (.ok (some toUnpad), s) =>
        match if toUnpad.isEmpty then (.ok (), s) else s.handleUnpad uuid toUnpad with
        | (.error e, s) => (.error e, s, ⟨rs, rest⟩)
        | (.ok (), s)   =>
          if ¬s.pendingRead.isEmpty then
            let (bs, s) := s.servePending cap
            (.ready bs, s, ⟨rs, rest⟩)
          else if s.readMode = .passthrough then
            let (p, src) := Source.pollRead ⟨rs, rest⟩ cap
            (p, s, src)
          else readLoop s rs rest cap

end ReadState

def pollRead (uuid : List UInt8) (s : ReadState) (src : Source) (cap : Nat) :
    Poll (List UInt8) × ReadState × Source :=
  if ¬s.pendingRead.isEmpty then
    let (bs, s) := s.servePending cap
    (.ready bs, s, src)
  else if s.readMode = .passthrough then
    let (p, src) := src.pollRead cap
    (p, s, src)
  else if s.isReadEof then (.ready [], s, src)
  else s.readLoop uuid src.responses src.rest cap

end Read
end JammVpn.Vision
