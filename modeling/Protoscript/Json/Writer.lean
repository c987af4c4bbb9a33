import Protoscript.Json.Basic
import Protoscript.Text.Quoted

/-!
# Writing JSON

* `Json.compact` — without spaces;
* `Json.pretty` — one item or member a line, each level indented by a number of spaces; an empty
  array or object stays on its line.

Infinities and NaNs are written as `null`.
-/

namespace Protoscript

namespace Json

/-- A character as it stands in a quoted text. -/
def quoteChar (c : Char) : List Char :=
  if c == '"' then ['\\', '"']
  else if c == '\\' then ['\\', '\\']
  else if c == '\x08' then ['\\', 'b']
  else if c == '\x0c' then ['\\', 'f']
  else if c == '\n' then ['\\', 'n']
  else if c == '\r' then ['\\', 'r']
  else if c == '\t' then ['\\', 't']
  else if c < ' ' then ['\\', 'u', '0', '0'] ++ hexByte (UInt8.ofNat c.toNat)
  else [c]

/-- A text between double quotes. -/
def quote (s : String) : String :=
  String.ofList (['"'] ++ s.toList.flatMap quoteChar ++ ['"'])

/-- The text of a value that is no array or object. -/
def flat : Json → String
  | .null => "null"
  | .bool b => if b then "true" else "false"
  | .int n => toString n
  | .double x => if x.isFinite then x.write .json else "null"
  | .single x => if x.toDouble.isFinite then x.write .jsonSingle else "null"
  | .text s => quote s
  | .array _ => "[]"
  | .object _ => "\x7b\x7d"

mutual

/-- The text of a value without spaces. -/
def compact : Json → String
  | .array items => "[" ++ compactItems items ++ "]"
  | .object members => "\x7b" ++ compactMembers members ++ "\x7d"
  | value => value.flat

/-- Items with commas between them. -/
def compactItems : List Json → String
  | [] => ""
  | [item] => compact item
  | item :: rest => compact item ++ "," ++ compactItems rest

/-- Members with commas between them. -/
def compactMembers : List (String × Json) → String
  | [] => ""
  | [(name, value)] => quote name ++ ":" ++ compact value
  | (name, value) :: rest => quote name ++ ":" ++ compact value ++ "," ++ compactMembers rest

end

/-- The start of a line at a level. -/
def newline (indent level : Nat) : String :=
  "\n" ++ String.ofList (List.replicate (indent * level) ' ')

mutual

/-- The text of a value at a level, with one item or member a line. -/
def prettyAt (indent level : Nat) : Json → String
  | .array [] => "[]"
  | .object [] => "\x7b\x7d"
  | .array (item :: rest) =>
    "[" ++ prettyItems indent (level + 1) (item :: rest) ++ newline indent level ++ "]"
  | .object (member :: rest) =>
    "\x7b" ++ prettyMembers indent (level + 1) (member :: rest) ++ newline indent level ++ "\x7d"
  | value => value.flat

/-- Items, each on a line of its own. -/
def prettyItems (indent level : Nat) : List Json → String
  | [] => ""
  | [item] => newline indent level ++ prettyAt indent level item
  | item :: rest =>
    newline indent level ++ prettyAt indent level item ++ "," ++ prettyItems indent level rest

/-- Members, each on a line of its own. -/
def prettyMembers (indent level : Nat) : List (String × Json) → String
  | [] => ""
  | [(name, value)] =>
    newline indent level ++ quote name ++ ": " ++ prettyAt indent level value
  | (name, value) :: rest =>
    newline indent level ++ quote name ++ ": " ++ prettyAt indent level value ++ "," ++
      prettyMembers indent level rest

end

/-- The text of a value with one item or member a line. -/
def pretty (indent : Nat) (value : Json) : String := prettyAt indent 0 value

end Json

end Protoscript
