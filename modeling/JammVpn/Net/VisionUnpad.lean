import JammVpn.Lib.Bytes
import JammVpn.Lib.PollWrite

-- Blocks of content and padding, after the id of the user.
namespace JammVpn.Vision

open Bytes PollIo

inductive UnpadCommand
  | «continue»
  | «end»
  | direct
  deriving DecidableEq

def UnpadCommand.tryFrom (value : UInt8) : Except IoError UnpadCommand :=
  if value = 0 then .ok .«continue»
  else if value = 1 then .ok .«end»
  else if value = 2 then .ok .direct
  else .error (.other s!"Invalid padding command: {value}")

structure UnpadResult where
  content : List UInt8
  command : Option UnpadCommand
  deriving DecidableEq

inductive UnpadState
  | initial
  | readingCommand
  | readingContentLength (command : UnpadCommand) (firstByte : Option UInt8)
  | readingPaddingLength (command : UnpadCommand) (contentLen : Nat) (firstByte : Option UInt8)
  | readingContent (command : UnpadCommand) (partialContent : List UInt8) (remainingContentLen paddingLen : Nat)
  | readingPadding (command : UnpadCommand) (content : List UInt8) (remainingPaddingLen : Nat)
  | done
  deriving DecidableEq

structure VisionUnpadder where
  state      : UnpadState
  firstBlock : Bool
  deriving DecidableEq

namespace VisionUnpadder

def new : VisionUnpadder where
  state := .initial
  firstBlock := true

-- The data has come to its end within a header.
def outOfData (firstBlock : Bool) (accumulated : List UInt8) : UnpadResult :=
  if firstBlock then { content := [], command := none }
  else { content := accumulated, command := some .«continue» }

-- It has come to its end within the content or the padding, and the content so far is given.
def outOfBlock (firstBlock : Bool) (accumulated : List UInt8) : UnpadResult where
  content := accumulated
  command := if firstBlock then none else some .«continue»

end VisionUnpadder

-- A state that goes on to another one without taking data has the higher rank.
def UnpadState.rank : UnpadState → Nat
  | readingContent .. => 2
  | readingPadding .. => 1
  | _                 => 0

namespace VisionUnpadder

variable (uuid : List UInt8)

def unpadLoop (firstBlock : Bool) (state : UnpadState) (accumulated data : List UInt8) :
    Except IoError UnpadResult × VisionUnpadder :=
  match state, data with
  | .initial, data =>
    if data.length < 16 then (.ok { content := [], command := none }, { state, firstBlock })
    else if data.take 16 ≠ uuid then (.ok { content := data, command := none }, { state, firstBlock })
    else unpadLoop firstBlock .readingCommand accumulated (data.drop 16)
  | .readingCommand, []                  => (.ok (outOfData firstBlock accumulated), { state, firstBlock })
  | .readingCommand, commandByte :: data =>
    match UnpadCommand.tryFrom commandByte with
    | .error e    => (.error e, { state, firstBlock })
    | .ok command => unpadLoop firstBlock (.readingContentLength command none) accumulated data
  | .readingContentLength .., []                     =>
    (.ok (outOfData firstBlock accumulated), { state, firstBlock })
  | .readingContentLength command none, b :: data     =>
    unpadLoop firstBlock (.readingContentLength command (some b)) accumulated data
  | .readingContentLength command (some a), b :: data =>
    let contentLen := a.toNat * 256 + b.toNat
    unpadLoop firstBlock (.readingPaddingLength command contentLen none) accumulated data
  | .readingPaddingLength .., []                                =>
    (.ok (outOfData firstBlock accumulated), { state, firstBlock })
  | .readingPaddingLength command contentLen none, b :: data     =>
    unpadLoop firstBlock (.readingPaddingLength command contentLen (some b)) accumulated data
  | .readingPaddingLength command contentLen (some a), b :: data =>
    let paddingLen := a.toNat * 256 + b.toNat
    unpadLoop firstBlock (.readingContent command [] contentLen paddingLen) accumulated data
  | .readingContent command partialContent remaining paddingLen, data =>
    if 0 < remaining ∧ data.length = 0 then
      (.ok (outOfBlock firstBlock (accumulated ++ partialContent)),
        { state := .readingContent command [] remaining paddingLen, firstBlock })
    else
      let content := partialContent ++ data.take remaining
      if remaining - data.length = 0 then
        unpadLoop firstBlock (.readingPadding command content paddingLen) accumulated (data.drop remaining)
      else
        unpadLoop firstBlock (.readingContent command content (remaining - data.length) paddingLen) accumulated []
  | .readingPadding command content remaining, data =>
    if 0 < remaining ∧ data.length = 0 then
      (.ok (outOfBlock firstBlock (accumulated ++ content)),
        { state := .readingPadding command [] remaining, firstBlock })
    else if remaining - data.length = 0 then
      match command with
      | .«continue» => unpadLoop false .readingCommand (accumulated ++ content) (data.drop remaining)
      | _           =>
        (.ok { content := accumulated ++ content ++ data.drop remaining, command := some command },
          { state := .done, firstBlock := false })
    else unpadLoop firstBlock (.readingPadding command content (remaining - data.length)) accumulated []
  | .done, _ => (.error (.other "Already in UnpadState::Done"), { state, firstBlock })
termination_by 3 * data.length + state.rank
decreasing_by
  all_goals simp only [UnpadState.rank, List.length_drop, List.length_cons, List.length_nil]
  all_goals omega

def unpad (u : VisionUnpadder) (data : List UInt8) : Except IoError UnpadResult × VisionUnpadder :=
  unpadLoop uuid u.firstBlock u.state [] data

end VisionUnpadder
end JammVpn.Vision
