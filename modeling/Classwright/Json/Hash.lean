import Classwright.Digest.Sip
import Classwright.Json.Walk

/-!
# Hashes of values

The hash of a value that holds no others is left open: a `LeafHash` supplies it. The rest is fixed.
Lists fold their items in order, objects add up their entries, so the order of keys does not matter.
-/

namespace Classwright

/-- What a hash starts from. -/
def hashSeed : Int32 := 17

/-- What a hash is multiplied by before the next part is added. -/
def hashFactor : Int32 := 31

/-- Takes a part into a hash. -/
def foldHash (acc part : Int32) : Int32 := acc * hashFactor + part

/-- Hashes of strings, truth values and numbers. -/
structure LeafHash where
  text : String → Int32
  bool : Bool → Int32
  number : Binary64 → Int32

/-- One step of `Json.hash`. -/
def Json.hashStep (leaf : LeafHash) (v : Json) (items : List Int32) (fields : Fields Int32) :
    Int32 :=
  match v with
  | null => 0
  | bool b => leaf.bool b
  | number n => leaf.number n.toBinary64
  | text s => leaf.text s
  | list _ => items.foldl foldHash hashSeed
  | object _ => fields.foldl (fun sum (key, part) => sum + foldHash (leaf.text key) part) 0

/-- The hash of a value about which nothing is known. -/
def Json.hash (leaf : LeafHash) : Json → Int32 := walk (hashStep leaf)

namespace LeafHash

/-- The low half of a digest. -/
def truncated (bytes : List UInt8) : Int32 := (Sip.digest bytes).toUInt32.toInt32

/-- The eight bytes of a word, the lowest first. -/
def wordBytes (n : Nat) : List UInt8 :=
  (List.range 8).map fun i => (n >>> (8 * i)).toUInt8

/-- A double as one word: the significand without its leading bit, the exponent in eleven bits, and
a bit for a value that is not negative. Both zeros give the same word. -/
def numberWord (x : Binary64) : Nat :=
  let mantissa :=
    if x.exponentField = 0 then 2 * x.fractionField % Binary64.binade else x.fractionField
  let exponent := (x.exponentField + 973) % 2048
  let sign := if x.negative ∧ x.position ≠ 0 then 0 else 1
  mantissa + exponent <<< 52 + sign <<< 63

/-- The hashes that the digest gives: a string as its bytes and a byte that occurs in none, a truth
value as one byte, a number as the word for "present" and its own word. -/
def sip : LeafHash where
  text s := truncated (s.toUTF8.toList ++ [0xff])
  bool b := truncated [if b then 1 else 0]
  number x := truncated (wordBytes 1 ++ wordBytes (numberWord x))

end LeafHash

end Classwright
