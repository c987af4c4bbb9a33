import Protoscript.Script.Error

/-!
# Positions in sequences

Positions count from zero; negative ones count from the end.

* `resolveIndex` — the position that an index names, if the sequence has it;
* `clampBound`, `sliceBounds` — bounds of slices, which are moved into the sequence.
-/

namespace Protoscript

/-- The index that is reported when it is out of range: large ones are shown as the greatest integer
of 64 bits. -/
def reportedIndex (index : Int) : Int := if fitsSigned 64 index then index else pow2 63 - 1

/-- The position that an index names in a sequence of a length. -/
def resolveIndex (index : Int) (length : Nat) : Except Error Nat :=
  let position := if index < 0 then index + length else index
  if position < 0 ∨ length ≤ position then .error (.indexOutOfRange (reportedIndex index) length)
  else .ok position.toNat

/-- A bound of a slice, moved into a sequence of a length. -/
def clampBound (length : Nat) (bound : Int) : Nat :=
  min (if bound < 0 then bound + length else bound).toNat length

/-- Where a slice starts and ends; it never ends before it starts. -/
def sliceBounds (start stop : Option Int) (length : Nat) : Nat × Nat :=
  let lo := start.elim 0 (clampBound length)
  let hi := stop.elim length (clampBound length)
  (lo, max lo hi)

/-- The part of a list between two bounds. -/
def sliceOf (start stop : Option Int) (items : List α) : List α :=
  let bounds := sliceBounds start stop items.length
  (items.drop bounds.1).take (bounds.2 - bounds.1)

end Protoscript
