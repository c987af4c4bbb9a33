import Protoscript.Json.Basic
import Protoscript.Yaml.Resolve

/-!
# JSON trees as YAML documents

A tree is written in block style, with the members of each object in order of their names. Sequences
inside mappings are not indented; empty collections are written as brackets. A text is written plain
if it reads back as a text, else in single quotes, as a literal block if it has line feeds, and in
double quotes if nothing else can hold it.

* `TextStyle`, `styleOf` — how a text is written;
* `Json.yaml` — the document of a tree.
-/

namespace Protoscript

namespace Yaml

/-! ## The style of a text -/

/-- Characters that are written as they are. -/
def isPlainChar (c : Char) : Bool :=
  let n := c.toNat
  n == 0xa || (0x20 ≤ n && n ≤ 0x7e) || (0xa0 ≤ n && n ≤ 0xd7ff) ||
    (0xe000 ≤ n && n ≤ 0xfffd && n != 0xfeff) || 0x10000 ≤ n

/-- Whether a text is followed by a blank, a break or its end. -/
def spaceAhead : List Char → Bool
  | [] => true
  | c :: _ => isBlank c || isBreak c || c == '\r' || c == '\u0085' || c == '\x00'

/-- Whether a character is a sign that a plain text cannot hold where it stands: at the start or
further on, behind a blank or not, in front of the rest. -/
def isSign (first afterSpace : Bool) (c : Char) (rest : List Char) : Bool :=
  if first then
    "#,[]\x7b\x7d&*!|>'\"%@`".contains c || ("?:-".contains c && spaceAhead rest)
  else (c == ':' && spaceAhead rest) || (c == '#' && afterSpace)

/-- Whether a text has a sign that a plain text cannot hold. -/
def hasSign (first afterSpace : Bool) : List Char → Bool
  | [] => false
  | c :: rest => isSign first afterSpace c rest || hasSign false (spaceAhead (c :: rest)) rest

/-- Whether a text has one character right before another, by their classes. -/
def hasPair (p q : Char → Bool) : List Char → Bool
  | c :: d :: rest => (p c && q d) || hasPair p q (d :: rest)
  | _ => false

/-- Whether a text starts like a mark between documents. -/
def startsLikeMark : List Char → Bool
  | '-' :: '-' :: '-' :: _ => true
  | '.' :: '.' :: '.' :: _ => true
  | _ => false

/-- How a text is written. -/
inductive TextStyle where
  | plain | singleQuoted | doubleQuoted | literal
  deriving DecidableEq

/-- Whether a text has characters that only double quotes can hold, or a space in front of a break. -/
def needsEscapes (cs : List Char) : Bool :=
  cs.any (fun c => !isPlainChar c) || hasPair (· == ' ') isBreak cs

/-- Whether a text can be written plain, as far as its characters go. -/
def allowsPlain (cs : List Char) : Bool :=
  !needsEscapes cs && !cs.any isBreak && cs.head? != some ' ' && cs.getLast? != some ' ' &&
    !startsLikeMark cs && !hasSign true true cs

/-- Whether a text can be written in single quotes. -/
def allowsSingleQuotes (cs : List Char) : Bool :=
  !needsEscapes cs && !hasPair isBreak (· == ' ') cs

/-- Whether a text can be written as a literal block. -/
def allowsLiteral (cs : List Char) : Bool :=
  !cs.isEmpty && !needsEscapes cs && cs.getLast? != some ' '

/-- Whether a text would read back as something else if it was written plain. -/
def isAmbiguous (s : String) : Bool := meaningOf s != .text || isZeroPadded s

/-- How a text is written; keys that stand on one line with their values, the simple ones, are never
blocks. -/
def styleOf (simple : Bool) (s : String) : TextStyle :=
  let cs := s.toList
  if cs.contains '\n' then
    if allowsLiteral cs && !simple then .literal else .doubleQuoted
  else if allowsPlain cs && !isAmbiguous s then .plain
  else if allowsSingleQuotes cs then .singleQuoted
  else .doubleQuoted

/-! ## Writing texts -/

/-- A number of spaces. -/
def spaces (count : Nat) : List Char := List.replicate count ' '

/-- The characters between single quotes. Quotes are doubled; what follows a break is indented. -/
def singleQuotedChars (indent : Nat) (broken : Bool) : List Char → List Char
  | [] => if broken then spaces indent else []
  | c :: rest =>
    if isBreak c then c :: singleQuotedChars indent true rest
    else
      (if broken then spaces indent else []) ++
        (if c == Char.ofNat 39 then [c, c] else [c]) ++ singleQuotedChars indent false rest

/-- A number in `count` upper-case hexadecimal digits. -/
def hexUpper (count n : Nat) : List Char :=
  let digits := (Nat.toDigits 16 n).map Char.toUpper
  List.replicate (count - digits.length) '0' ++ digits

/-- A character between double quotes. -/
def doubleQuotedChar (c : Char) : List Char :=
  let n := c.toNat
  if isPlainChar c && !isBreak c && c != '"' && c != '\\' then [c]
  else '\\' :: match c with
    | '\x00' => ['0']
    | '\x07' => ['a']
    | '\x08' => ['b']
    | '\t' => ['t']
    | '\n' => ['n']
    | '\x0b' => ['v']
    | '\x0c' => ['f']
    | '\r' => ['r']
    | '\x1b' => ['e']
    | '"' => ['"']
    | '\\' => ['\\']
    | '\u0085' => ['N']
    | '\u00a0' => ['_']
    | '\u2028' => ['L']
    | '\u2029' => ['P']
    | _ =>
      if n ≤ 0xff then 'x' :: hexUpper 2 n
      else if n ≤ 0xffff then 'u' :: hexUpper 4 n
      else 'U' :: hexUpper 8 n

/-- The lines of a literal block. A line that is not empty is indented. -/
def literalChars (indent : Nat) (atStart : Bool) : List Char → List Char
  | [] => []
  | c :: rest =>
    if isBreak c then c :: literalChars indent true rest
    else (if atStart then spaces indent else []) ++ c :: literalChars indent false rest

/-- What the head of a literal block says: the indentation if the text starts with a space or break,
and which breaks at the end belong to the text. -/
def literalHead (cs : List Char) : List Char :=
  let indented := cs.head?.any fun c => c == ' ' || isBreak c
  let chomping := match cs.reverse with
    | [] => ['-']
    | last :: before =>
      if !isBreak last then ['-']
      else match before with
        | [] => ['+']
        | c :: _ => if isBreak c then ['+'] else []
  '|' :: (if indented then ['2'] else []) ++ chomping

/-- A text as it is written in a collection that leaves `indent` columns for its further lines. -/
def writeText (simple : Bool) (indent : Nat) (s : String) : String :=
  let cs := s.toList
  let quote := Char.ofNat 39
  String.ofList <|
    match styleOf simple s with
    | .plain => cs
    | .singleQuoted => quote :: singleQuotedChars indent false cs ++ [quote]
    | .doubleQuoted => '"' :: cs.flatMap doubleQuotedChar ++ ['"']
    | .literal => literalHead cs ++ '\n' :: literalChars indent true cs

/-! ## Writing trees -/

/-- What is written on a line of its own behind something else. -/
def nextLine (indent : Nat) (s : String) : String :=
  (if s.toList.getLast?.any isBreak then "" else "\n") ++ String.ofList (spaces indent)

/-- Lines that each start at a column; the first is not moved there. -/
def joinLines (indent : Nat) : List String → String
  | [] => ""
  | [s] => s
  | s :: rest => s ++ nextLine indent s ++ joinLines indent rest

/-- Whether a key stands on one line with its value: it has no breaks, not even ones that are written
as escapes, and at most 128 bytes. -/
def isSimpleKey (s : String) : Bool :=
  !(s.toList.any fun c => isBreak c || c == '\r' || c == '\u0085') && s.utf8ByteSize ≤ 128

/-- A scalar as it is written. -/
def writeScalar (indent : Nat) : Json → String
  | .null => "null"
  | .bool b => if b then "true" else "false"
  | .int n => toString n
  | .double x => if x.isFinite then x.write .yaml else "null"
  | .single x => if x.toDouble.isFinite then x.toDouble.write .yaml else "null"
  | .text s => writeText false indent s
  | .array _ => "[]"
  | .object _ => "\x7b\x7d"

/-- Whether a value is a collection with something in it. -/
def isBlock : Json → Bool
  | .array items => !items.isEmpty
  | .object members => !members.isEmpty
  | _ => false

mutual

/-- A value whose first line starts at a column. -/
def writeAt (column : Nat) : Json → String
  | .array (item :: rest) => joinLines column (writeItems column (item :: rest))
  | .object (member :: rest) => joinLines column (writeMembers column (member :: rest))
  | value => writeScalar column value

/-- The items of a sequence at a column. -/
def writeItems (column : Nat) : List Json → List String
  | [] => []
  | item :: rest => ("- " ++ writeAt (column + 2) item) :: writeItems column rest

/-- The members of a mapping at a column. -/
def writeMembers (column : Nat) : List (String × Json) → List String
  | [] => []
  | (name, value) :: rest =>
    let text :=
      if isSimpleKey name then
        let key := writeText true (column + 2) name ++ ":"
        match value with
        | .array (item :: items) =>
          key ++ nextLine column key ++ joinLines column (writeItems column (item :: items))
        | .object (member :: members) =>
          key ++ nextLine (column + 2) key ++
            joinLines (column + 2) (writeMembers (column + 2) (member :: members))
        | value => key ++ " " ++ writeScalar (column + 2) value
      else
        let key := "? " ++ writeText false (column + 2) name
        key ++ nextLine column key ++ ": " ++ writeAt (column + 2) value
    text :: writeMembers column rest

end

/-- The document of a value whose members are in order. -/
def document (value : Json) : String :=
  let text := if isBlock value then writeAt 0 value else writeScalar 2 value
  text ++ nextLine 0 text

end Yaml

/-- The document of a tree. -/
def Json.yaml (j : Json) : String := Yaml.document j.sorted

end Protoscript
