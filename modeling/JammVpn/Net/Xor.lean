import JammVpn.Lib.Machine

-- The headers of records, hidden in a key stream. Their bodies are random already.
namespace JammVpn.Xor

-- A stream cipher is at a place in its key stream.
structure Ctr where
  stream : Nat → UInt8
  pos    : Nat

def Ctr.next (c : Ctr) (b : UInt8) : UInt8 × Ctr :=
  (b ^^^ c.stream c.pos, { c with pos := c.pos + 1 })

def Ctr.applyKeystream (c : Ctr) (bs : List UInt8) : List UInt8 × Ctr :=
  Transducer.run Ctr.next c bs

-- A header that is not that of a record has no body.
def decodeHeaderLen : List UInt8 → Nat
  | [t, major, minor, hi, lo] =>
    if t ≠ 23 ∨ major ≠ 3 ∨ minor ≠ 3 then 0 else hi.toNat * 256 + lo.toNat
  | _                         => 0

inductive Way
  | write
  | read

-- The plain one of what goes into the key stream and what comes out of it.
def Way.plain {α : Type} : Way → (before after : α) → α
  | .write, before, _ => before
  | .read,  _, after  => after

-- The bytes that are still to be left alone, and the part of a header that has been seen.
@[ext]
structure Direction where
  ctr    : Ctr
  skip   : Nat
  header : List UInt8
  short  : header.length < 5

def Direction.start (stream : Nat → UInt8) (skip : Nat) : Direction where
  ctr := { stream, pos := 0 }
  skip := skip
  header := []
  short := Nat.succ_pos 4

theorem length_plain (way : Way) (c : Ctr) (bs : List UInt8) :
    (way.plain bs (c.applyKeystream bs).1).length = bs.length := by
  cases way
  case write => rfl
  case read  => exact Transducer.length_run

-- Both directions do the same, but that the length of a body is taken from the header before it is
-- hidden or after it has been restored.
def Direction.transform (way : Way) (d : Direction) (b : List UInt8) : List UInt8 × Direction :=
  if b.length ≤ d.skip then (b, { d with skip := d.skip - b.length })
  else
    let body := b.take d.skip
    let rest := b.drop d.skip
    let need := 5 - d.header.length
    if hn : rest.length < need then
      let out := d.ctr.applyKeystream rest
      (body ++ out.1, {
        ctr := out.2
        skip := 0
        header := d.header ++ way.plain rest out.1
        short := by
          rw [List.length_append, length_plain]
          omega
      })
    else
      let out := d.ctr.applyKeystream (rest.take need)
      let d' := {
        ctr := out.2
        skip := decodeHeaderLen (d.header ++ way.plain (rest.take need) out.1)
        header := []
        short := Nat.succ_pos 4
      }
      let tail := Direction.transform way d' (rest.drop need)
      (body ++ out.1 ++ tail.1, tail.2)
termination_by b.length
decreasing_by
  have := d.short
  simp only [List.length_drop]
  omega

structure XorState where
  outgoing : Direction
  incoming : Direction

def XorState.transformWrite (x : XorState) (b : List UInt8) : List UInt8 × XorState :=
  let (b, outgoing) := x.outgoing.transform .write b
  (b, { x with outgoing })

def XorState.transformRead (x : XorState) (b : List UInt8) : List UInt8 × XorState :=
  let (b, incoming) := x.incoming.transform .read b
  (b, { x with incoming })

end JammVpn.Xor
