/-!
# Reading positions in YAML

YAML gives meaning to lines and columns, so its readers carry a position along. Before anything is
read, a byte order mark is dropped, characters that no document may hold are refused, and all
breaks that are equal in meaning become line feeds.

* `readable?` — the characters of a text as the readers see them;
* `isBreak`, `isBlank`, `isWordChar` — classes of characters;
* `Cursor` — the rest of a text, with its line and column.
-/

namespace Protoscript.Yaml

/-- The byte order mark. -/
def byteOrderMark : Char := '\ufeff'

/-- Characters that a document may hold. -/
def isAllowed (c : Char) : Bool :=
  let n := c.toNat
  n == 0x9 || n == 0xa || n == 0xd || (0x20 ≤ n && n ≤ 0x7e) || n == 0x85 ||
    (0xa0 ≤ n && n ≤ 0xd7ff) || (0xe000 ≤ n && n ≤ 0xfffd) || 0x10000 ≤ n

/-- Breaks that are equal in meaning, each as one line feed. -/
def unifyBreaks : List Char → List Char
  | [] => []
  | '\r' :: '\n' :: rest => '\n' :: unifyBreaks rest
  | c :: rest => (if c == '\r' || c == '\u0085' then '\n' else c) :: unifyBreaks rest

/-- The characters of a text as the readers see them, if a document may hold them all. -/
def readable? (s : String) : Option (List Char) :=
  let chars := match s.toList with
    | c :: rest => if c == byteOrderMark then rest else c :: rest
    | [] => []
  if chars.all isAllowed then some (unifyBreaks chars) else none

/-- Line breaks, once equal ones are unified. -/
def isBreak (c : Char) : Bool := c == '\n' || c == '\u2028' || c == '\u2029'

/-- Blanks inside a line. -/
def isBlank (c : Char) : Bool := c == ' ' || c == '\t'

/-- Characters of anchors, handles and directive names. -/
def isWordChar (c : Char) : Bool := c.isAlphanum || c == '_' || c == '-'

/-- Whether a text starts with a blank or break, or is at its end. -/
def blankAhead : List Char → Bool
  | [] => true
  | c :: _ => isBlank c || isBreak c

/-- Whether a text starts with one of the two marks between documents. -/
def markAhead : List Char → Bool
  | '-' :: '-' :: '-' :: rest => blankAhead rest
  | '.' :: '.' :: '.' :: rest => blankAhead rest
  | _ => false

/-- The rest of a text and where it starts. -/
structure Cursor where
  /-- the characters that are still to be read -/
  rest : List Char
  /-- the number of breaks before them -/
  line : Nat := 0
  /-- the number of characters since the last break -/
  column : Nat := 0
  deriving Inhabited

namespace Cursor

/-- The cursor behind some characters of its line. -/
def skip (c : Cursor) (count : Nat) : Cursor :=
  { c with rest := c.rest.drop count, column := c.column + count }

/-- The characters of the line that all fulfil a condition, and the cursor behind them. -/
def span (c : Cursor) (p : Char → Bool) : List Char × Cursor :=
  let taken := c.rest.takeWhile p
  (taken, c.skip taken.length)

/-- The cursor behind the blanks of the line. -/
def skipBlanks (c : Cursor) : Cursor := (c.span isBlank).2

/-- The cursor behind blanks and a comment, if they end the line. -/
def skipLineEnd? (c : Cursor) : Option Cursor :=
  let c := c.skipBlanks
  let c := if c.rest.head? == some '#' then (c.span fun x => !isBreak x).2 else c
  match c.rest with
  | [] => some c
  | x :: rest => if isBreak x then some ⟨rest, c.line + 1, 0⟩ else none

end Cursor

end Protoscript.Yaml
