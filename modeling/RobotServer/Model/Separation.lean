import RobotServer.Model.Util

/-!
# Separation — `Separation` of `ApolloUtil.c` with its table and its counters

The splitting of a text down to the places of the table, the bytes of `ChArray` and the `int`s that
count.  A step without a result stores or reads outside an array, or counts beyond the `int`s.
Allocations succeed.
-/

namespace RobotServer

open CText Memory

abbrev ChArray := Cells 32 Byte

/-- The places of a table with the arrays they point to, `none` before they are assigned. -/
abbrev ChTable := List (Option (List Byte))

/-- `pTable[index] = piece` -/
def storePiece (pTable : ChTable) (index : Nat) (piece : List Byte) : Option ChTable :=
  if index < pTable.length then some (pTable.set index (some piece)) else none

/-- `realloc` to a number of places. -/
def reallocTable (pTable : ChTable) (places : Nat) : ChTable :=
  pTable.take places ++ List.replicate (places - pTable.length) none

/-- The value of an `int` addition. -/
def intSum (n : Nat) : Option Nat :=
  if n < 2 ^ 31 then some n else none

/-- The local variables of `Separation`, and `*Count`. -/
structure Splitting where
  chArray : ChArray
  j : Nat
  pTable : ChTable
  count : Nat

/-- `malloc` and `memcpy` of a piece, and the increment of `*Count`. -/
def Splitting.emit (s : Splitting) : Option Splitting := do
  let piece ← s.chArray.upTo? ((s.j + 1 : Nat) : Int)
  let pTable ← storePiece s.pTable s.count piece
  let count ← intSum (s.count + 1)
  some { s with pTable := pTable, count := count }

/-- A round of the loop for the character `c`. -/
def Splitting.next (ch : Byte) (s : Splitting) (c : Byte) : Option Splitting :=
  if c = ch then do
    let s ← s.emit
    let places ← intSum (s.count + 1)
    some { s with chArray := Cells.fill 0, j := 0, pTable := reallocTable s.pTable places }
  else do
    let chArray ← s.chArray.set? (s.j : Int) c
    some { s with chArray := chArray, j := s.j + 1 }

/-- `int len = strlen(sequence)` -/
def strlenInt (sequence : Text) : Int :=
  ((cstr sequence).length : Int).bmod (2 ^ 32)

/-- The table behind `pChTable` and the value of `*Count`. -/
def separationTable (ch : Byte) (sequence : Text) (pChTable : ChTable) :
    Option (ChTable × Nat) := do
  let s ← ((cstr sequence).take (strlenInt sequence).toNat).foldlM (Splitting.next ch)
    { chArray := Cells.fill 0, j := 0, pTable := pChTable, count := 0 }
  let s ← s.emit
  some (s.pTable, s.count)

end RobotServer
