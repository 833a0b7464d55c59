/-!
# SipHash-1-3

A digest of bytes with one round for every word of input and three at the end, under the key zero.
-/

namespace Classwright.Sip

/-- The state between words. -/
structure State where
  v0 : UInt64
  v1 : UInt64
  v2 : UInt64
  v3 : UInt64
deriving DecidableEq, Repr

/-- The state before the first word. -/
def State.start : State :=
  ⟨0x736f6d6570736575, 0x646f72616e646f6d, 0x6c7967656e657261, 0x7465646279746573⟩

/-- Rotates a word to the left. -/
def rotate (x : UInt64) (n : UInt64) : UInt64 := x <<< n ||| x >>> (64 - n)

/-- One round. -/
def State.round (s : State) : State :=
  let a0 := s.v0 + s.v1
  let a1 := rotate s.v1 13 ^^^ a0
  let a2 := s.v2 + s.v3
  let a3 := rotate s.v3 16 ^^^ a2
  let b0 := rotate a0 32 + a3
  let b2 := a2 + a1
  ⟨b0, rotate a1 17 ^^^ b2, rotate b2 32, rotate a3 21 ^^^ b0⟩

/-- Takes in a word. -/
def State.absorb (s : State) (word : UInt64) : State :=
  let s := State.round { s with v3 := s.v3 ^^^ word }
  { s with v0 := s.v0 ^^^ word }

/-- A word with the lowest byte first. -/
def wordOfBytes (bytes : List UInt8) : UInt64 :=
  bytes.foldr (fun byte word => word <<< 8 ||| byte.toUInt64) 0

/-- Takes in bytes, eight at a time. The last word has the bytes that are left and, on top, the
lowest byte of the length of the whole input. -/
def State.absorbBytes (length : Nat) (s : State) : List UInt8 → State
  | b0 :: b1 :: b2 :: b3 :: b4 :: b5 :: b6 :: b7 :: rest =>
    (s.absorb (wordOfBytes [b0, b1, b2, b3, b4, b5, b6, b7])).absorbBytes length rest
  | rest => s.absorb (wordOfBytes rest ||| length.toUInt64 <<< 56)

/-- The digest of bytes. -/
def digest (bytes : List UInt8) : UInt64 :=
  let s := State.start.absorbBytes bytes.length bytes
  let s := State.round (State.round (State.round { s with v2 := s.v2 ^^^ 0xff }))
  s.v0 ^^^ s.v1 ^^^ s.v2 ^^^ s.v3

end Classwright.Sip
