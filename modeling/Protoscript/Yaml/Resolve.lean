import Protoscript.Number.Decimal
import Protoscript.Number.Integer
import Protoscript.Yaml.Node

/-!
# The meaning of scalars

A plain scalar without a tag stands for null, a boolean, an integer or a floating-point number if it
has the form of one, and else for its text. Digits behind a leading zero are a text.

* `Meaning`, `meaningOf` — what a plain scalar stands for;
* `Document.follow`, `Document.textOf` — nodes with aliases followed, within a limit that keeps
  small documents from standing for huge ones.
-/

namespace Protoscript.Yaml

/-! ## Plain scalars -/

/-- What a plain scalar stands for. -/
inductive Meaning where
  | null
  | bool (value : Bool)
  | int (value : Int)
  | float (value : Double)
  | text
  deriving DecidableEq

/-- Whether a text is one of the words for null. -/
def isNullWord (s : String) : Bool := s == "null" || s == "Null" || s == "NULL" || s == "~"

/-- The boolean that a text is a word for. -/
def boolWord? (s : String) : Option Bool :=
  if s == "true" || s == "True" || s == "TRUE" then some true
  else if s == "false" || s == "False" || s == "FALSE" then some false
  else none

/-- Whether a text is a number of digits, at least two of them, with a zero in front. -/
def isZeroPadded (s : String) : Bool :=
  let digits := match s.toList with
    | '+' :: rest => rest
    | '-' :: rest => rest
    | rest => rest
  match digits with
  | '0' :: c :: rest => (c :: rest).all Char.isDigit
  | _ => false

/-- The radix that two characters in front of a number announce. -/
def radixOf? : Char → Option Nat
  | 'x' => some 16
  | 'o' => some 8
  | 'b' => some 2
  | _ => none

/-- Reads digits, in decimal or behind a sign of their radix. -/
def readMagnitude? (cs : List Char) : Option Nat :=
  match cs with
  | '0' :: c :: rest =>
    match radixOf? c with
    | some radix => readNat? radix rest
    | none => readNat? 10 cs
  | _ => readNat? 10 cs

/-- The natural number that a text is written as. -/
def naturalOf? (s : String) : Option Nat :=
  if isZeroPadded s then none
  else
    match s.toList with
    | '+' :: rest => readMagnitude? rest
    | rest => readMagnitude? rest

/-- The integer of 128 bits that a text is written as. -/
def integerOf? (s : String) : Option Int :=
  match naturalOf? s with
  | some n => if n < pow2 128 then some n else none
  | none =>
    if isZeroPadded s then none
    else
      match s.toList with
      | '-' :: rest =>
        (readMagnitude? rest).bind fun n => if n ≤ pow2 127 then some (-(n : Int)) else none
      | _ => none

/-- The floating-point number that a text is written as. A number too large for the format is
none. -/
def floatOf? (s : String) : Option Double :=
  let unsigned? (cs : List Char) : Option Double :=
    if cs.head? == some '+' || cs.head? == some '-' then none else finite? (String.ofList cs)
  match s with
  | ".inf" | ".Inf" | ".INF" | "+.inf" | "+.Inf" | "+.INF" => some (.infinite false)
  | "-.inf" | "-.Inf" | "-.INF" => some (.infinite true)
  | ".nan" | ".NaN" | ".NAN" => some (.quietNaN false)
  | s =>
    match s.toList with
    | '+' :: rest => unsigned? rest
    | _ => finite? s
where
  /-- Reads a finite number. -/
  finite? (s : String) : Option Double := (Double.read? s).filter Double.isFinite

/-- What a plain scalar stands for. -/
def meaningOf (s : String) : Meaning :=
  if s.isEmpty || isNullWord s then .null
  else
    match boolWord? s, integerOf? s with
    | some b, _ => .bool b
    | none, some n => .int n
    | none, none =>
      if isZeroPadded s then .text
      else
        match floatOf? s with
        | some x => .float x
        | none => .text

/-! ## Following aliases -/

mutual

/-- How many places a node takes in a document: one for a scalar or alias, two more than its parts
for a collection. -/
def Node.places : Node → Nat
  | .scalar _ _ _ | .alias _ => 1
  | .sequence _ items => 2 + itemPlaces items
  | .mapping _ entries => 2 + entryPlaces entries

/-- How many places items take. -/
def itemPlaces : List Node → Nat
  | [] => 0
  | n :: rest => n.places + itemPlaces rest

/-- How many places entries take. -/
def entryPlaces : List (Node × Node) → Nat
  | [] => 0
  | (key, value) :: rest => key.places + value.places + entryPlaces rest

end

/-- A walk through a document, with the number of aliases that may still be followed. -/
abbrev Walk := StateT Nat Option

namespace Document

/-- How many aliases may be followed. -/
def aliasLimit (d : Document) : Nat := ((d.root.map Node.places).getD 0) * 100

/-- What a walk through a document finds. -/
def walk (d : Document) (w : Walk α) : Option α := (w d.aliasLimit).map (·.1)

/-- A node, or the one that it stands for. -/
def follow (d : Document) (n : Node) : Walk Node := fun left =>
  match n with
  | .alias a => if left = 0 then none else (d.anchored? a).map fun n => (n, left - 1)
  | n => some (n, left)

/-- The text of a scalar, whatever it stands for. -/
def textOf (d : Document) (n : Node) : Walk String := do
  match ← d.follow n with
  | .scalar _ _ text => return text
  | _ => failure

end Document

end Protoscript.Yaml
