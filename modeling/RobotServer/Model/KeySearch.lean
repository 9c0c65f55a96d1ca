import RobotServer.Model.CurlJson

/-!
# KeySearch — `get_key_index` with its `int`s and its reads

`getKeyIndex` is the search on strings whose lengths are `int`s.  Here the lengths are converted as
`int buffer_length = strlen(buffer)` does, and every character the function looks at is recorded.
The texts are what stands in front of the terminators.
-/

namespace RobotServer

open CText

/-- A character of one of the strings is read. -/
inductive StringRead where
  | buffer (index : Nat)
  | key (index : Nat)
  deriving DecidableEq, Repr

/-- The strings end with a terminator. -/
def charAt (t : Text) (index : Nat) : Byte :=
  t.getD index 0

/-- `int buffer_length = strlen(buffer)`: a length that is no `int` wraps. -/
def intLength (t : Text) : Int :=
  (t.length : Int).bmod (2 ^ 32)

/-- `strlen` reads up to the terminator. -/
def strlenReads (read : Nat → StringRead) (t : Text) : List StringRead :=
  (List.range (t.length + 1)).map read

/-- The loop over `j`, with the rounds that are left: the value of `j` behind it, and the reads. -/
def compareLoop (buffer key : Text) (i : Nat) : Nat → Nat → Nat × List StringRead
  | 0, j => (j, [])
  | rounds + 1, j =>
      let reads := [StringRead.buffer (i + j), StringRead.key j]
      if charAt buffer (i + j) ≠ charAt key j then (j, reads)
      else
        let behind := compareLoop buffer key i rounds (j + 1)
        (behind.1, reads ++ behind.2)

/-- The loop over `i`, with the rounds that are left: the result, and the reads. -/
def searchLoop (buffer key : Text) (keyLength : Int) : Nat → Nat → Int × List StringRead
  | 0, _ => (-1, [])
  | rounds + 1, i =>
      let compared := compareLoop buffer key i keyLength.toNat 0
      if (compared.1 : Int) = keyLength then ((i + compared.1 : Nat), compared.2)
      else
        let behind := searchLoop buffer key keyLength rounds (i + 1)
        (behind.1, compared.2 ++ behind.2)

/-- The value of an `int` subtraction. -/
def intDifference (m n : Int) : Option Int :=
  if -2 ^ 31 ≤ m - n ∧ m - n < 2 ^ 31 then some (m - n) else none

/-- `get_key_index`: the result, and the reads. -/
def getKeyIndexReads (buffer key : Text) : Option (Int × List StringRead) := do
  let bufferLength := intLength buffer
  let keyLength := intLength key
  let limit ← intDifference bufferLength keyLength
  let searched := searchLoop buffer key keyLength limit.toNat 0
  some (searched.1, strlenReads .buffer buffer ++ strlenReads .key key ++ searched.2)

end RobotServer
