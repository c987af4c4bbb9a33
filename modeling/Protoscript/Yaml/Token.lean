import Protoscript.Yaml.Property
import Protoscript.Yaml.Scalar

/-!
# YAML tokens

Tokens carry the structure of a document: signs, the names and scalars of nodes, and marks for the
places where indentation opens or closes a collection. A key need not be announced by a sign. What
may turn out to be one leaves an empty slot in front of it, which is filled when a colon follows on
the same line.

* `Token` — tokens;
* `Lexer` — the rest of a text, the tokens before it and the open indentations;
* `Token.ofText?` — the tokens of a text.
-/

namespace Protoscript.Yaml

/-- How a scalar is written. -/
inductive ScalarStyle where
  | plain | quoted | literal | folded
  deriving DecidableEq, Inhabited

/-- A token. -/
inductive Token where
  | directive (directive : Directive)
  | documentStart
  | documentEnd
  | streamEnd
  /-- a block sequence opens -/
  | blockSequenceStart
  /-- a block mapping opens -/
  | blockMappingStart
  /-- a block sequence or mapping closes -/
  | blockEnd
  | flowSequenceStart
  | flowSequenceEnd
  | flowMappingStart
  | flowMappingEnd
  /-- an item of a block sequence follows -/
  | blockEntry
  /-- an item of a collection in brackets follows -/
  | flowEntry
  /-- a key follows -/
  | key
  /-- a value follows -/
  | value
  | alias (name : String)
  | anchor (name : String)
  | tag (tag : Tag)
  | scalar (style : ScalarStyle) (text : String)
  deriving DecidableEq, Inhabited

/-- The start of what may turn out to be a key. -/
structure KeySpot where
  /-- the slot for the key's token -/
  slot : Nat
  /-- the line -/
  line : Nat
  /-- the column -/
  column : Nat
  /-- whether nothing but a key can stand there -/
  required : Bool

/-- A text that is read up to a point. -/
structure Lexer where
  /-- the rest of the text -/
  cursor : Cursor
  /-- the tokens before it, in slots -/
  slots : Array (List Token) := #[]
  /-- whether a key may start here -/
  keyAllowed : Bool := true
  /-- the column of the innermost block collection, or -1 -/
  indent : Int := -1
  /-- the columns of the collections around it -/
  indents : List Int := []
  /-- what may turn out to be a key, inside the innermost brackets -/
  key : Option KeySpot := none
  /-- what may turn out to be a key around each pair of open brackets -/
  outerKeys : List (Option KeySpot) := []

namespace Lexer

/-- Whether the text goes on inside brackets. -/
def inFlow (l : Lexer) : Bool := !l.outerKeys.isEmpty

/-- The lexer with one more token. -/
def push (l : Lexer) (t : Token) : Lexer := { l with slots := l.slots.push [t] }

/-- The lexer at another cursor. -/
def moveTo (l : Lexer) (c : Cursor) : Lexer := { l with cursor := c }

/-- The lexer behind some characters, with one more token for them. -/
def pushSign (l : Lexer) (count : Nat) (t : Token) : Lexer :=
  (l.push t).moveTo (l.cursor.skip count)

/-! ## Keys -/

/-- Gives up what may turn out to be a key, unless it must be one. -/
def dropKey? (l : Lexer) : Option Lexer :=
  if l.key.any (·.required) then none else some { l with key := none }

/-- Notes that what follows may turn out to be a key. -/
def saveKey? (l : Lexer) : Option Lexer :=
  if l.keyAllowed then
    let spot : KeySpot := {
      slot := l.slots.size
      line := l.cursor.line
      column := l.cursor.column
      required := !l.inFlow && l.indent == l.cursor.column }
    l.dropKey?.map fun l => { l with key := some spot, slots := l.slots.push [] }
  else some l

/-- Whether a key that starts at a spot can end at a cursor: keys stay on one line and are at most
1024 characters long. -/
def KeySpot.reaches (spot : KeySpot) (c : Cursor) : Bool :=
  spot.line == c.line && c.column ≤ spot.column + 1024

/-- Gives up a spot that can no longer be a key, unless it must be one. -/
def checkSpot? (c : Cursor) (spot : Option KeySpot) : Option (Option KeySpot) :=
  match spot with
  | none => some none
  | some s => if KeySpot.reaches s c then some (some s) else if s.required then none else some none

/-- Gives up everything that can no longer be a key. -/
def checkKeys? (l : Lexer) : Option Lexer := do
  let outer ← l.outerKeys.mapM (checkSpot? l.cursor)
  return { l with key := ← checkSpot? l.cursor l.key, outerKeys := outer }

/-! ## Indentation -/

/-- Opens a block collection at a column, unless one is open there. Inside brackets indentation has
no meaning. -/
def opens (l : Lexer) (column : Nat) : Bool := !l.inFlow && l.indent < column

/-- The lexer with a block collection opened at a column. -/
def openAt (l : Lexer) (column : Nat) : Lexer :=
  { l with indent := column, indents := l.indent :: l.indents }

/-- The lexer with a block collection opened at its column, if none is open there, and the token that
says so. -/
def openHere (l : Lexer) (t : Token) : Lexer :=
  if l.opens l.cursor.column then (l.openAt l.cursor.column).push t else l

/-- Closes the block collections that are indented deeper than a column. -/
def closeTo (column : Int) (indent : Int) (slots : Array (List Token)) :
    List Int → Int × List Int × Array (List Token)
  | [] => (indent, [], slots)
  | outer :: rest =>
    if column < indent then closeTo column outer (slots.push [.blockEnd]) rest
    else (indent, outer :: rest, slots)

/-- The lexer with the block collections closed that are indented deeper than a column. -/
def unindent (l : Lexer) (column : Int) : Lexer :=
  if l.inFlow then l
  else
    let (indent, indents, slots) := closeTo column l.indent l.slots l.indents
    { l with indent := indent, indents := indents, slots := slots }

/-! ## Between tokens -/

/-- Skips blanks, comments and breaks. Tabs are blanks only where no key can start. The result says
whether a key may start behind them. -/
def skipSpace (inFlow inComment keyAllowed : Bool) (line column : Nat) : List Char → Bool × Cursor
  | [] => (keyAllowed, ⟨[], line, column⟩)
  | c :: rest =>
    if isBreak c then skipSpace inFlow false (keyAllowed || !inFlow) (line + 1) 0 rest
    else if inComment || c == ' ' || (c == '\t' && (inFlow || !keyAllowed)) ||
        (c == byteOrderMark && column == 0) then
      skipSpace inFlow inComment keyAllowed line (column + 1) rest
    else if c == '#' then skipSpace inFlow true keyAllowed line (column + 1) rest
    else (keyAllowed, ⟨c :: rest, line, column⟩)

/-- The lexer at its next token. -/
def toToken (l : Lexer) : Lexer :=
  let c := l.cursor
  let (keyAllowed, c) := skipSpace l.inFlow false l.keyAllowed c.line c.column c.rest
  { l with keyAllowed := keyAllowed, cursor := c }

/-! ## Tokens -/

/-- Ends all block collections, as a directive or a mark between documents does. -/
def endBlocks? (l : Lexer) : Option Lexer :=
  (l.unindent (-1)).dropKey?.map fun l => { l with keyAllowed := false }

/-- Opens brackets. -/
def openFlow? (l : Lexer) (t : Token) : Option Lexer :=
  l.saveKey?.map fun l =>
    { l.pushSign 1 t with key := none, outerKeys := l.key :: l.outerKeys, keyAllowed := true }

/-- Closes brackets. -/
def closeFlow? (l : Lexer) (t : Token) : Option Lexer :=
  l.dropKey?.map fun l =>
    { l.pushSign 1 t with
      key := l.outerKeys.headD none, outerKeys := l.outerKeys.tail, keyAllowed := false }

/-- Reads the sign of an item of a block sequence. -/
def blockEntry? (l : Lexer) : Option Lexer :=
  if !l.inFlow && !l.keyAllowed then none
  else
    (l.openHere .blockSequenceStart).dropKey?.map fun l =>
      { l.pushSign 1 .blockEntry with keyAllowed := true }

/-- Reads the sign of a key. -/
def key? (l : Lexer) : Option Lexer :=
  if !l.inFlow && !l.keyAllowed then none
  else
    (l.openHere .blockMappingStart).dropKey?.map fun l =>
      { l.pushSign 1 .key with keyAllowed := !l.inFlow }

/-- Reads the sign of a value. If something in front of it may be a key, it is one. -/
def value? (l : Lexer) : Option Lexer :=
  match l.key with
  | some spot =>
    let opened := l.opens spot.column
    let filled : List Token := if opened then [.blockMappingStart, .key] else [.key]
    let l := if opened then l.openAt spot.column else l
    let l := { l with slots := l.slots.setIfInBounds spot.slot filled, key := none }
    some { l.pushSign 1 .value with keyAllowed := false }
  | none =>
    if !l.inFlow && !l.keyAllowed then none
    else some { (l.openHere .blockMappingStart).pushSign 1 .value with keyAllowed := !l.inFlow }

/-- Reads a token that may start a key. -/
def readKeyed? (l : Lexer) (read : Cursor → Option (Token × Cursor)) : Option Lexer := do
  let l ← l.saveKey?
  let (t, c) ← read l.cursor
  return { (l.push t).moveTo c with keyAllowed := false }

/-- Reads a block scalar. -/
def readBlock? (l : Lexer) (style : ScalarStyle) : Option Lexer := do
  let l ← l.dropKey?
  let (text, c) ← Yaml.readBlock? (style == .literal) l.indent (l.cursor.skip 1)
  return { (l.push (.scalar style text)).moveTo c with keyAllowed := true }

/-- Reads a plain scalar. Behind a break a key may start. -/
def readPlain? (l : Lexer) : Option Lexer := do
  let l ← l.saveKey?
  let (text, broken, c) ← Yaml.readPlain? l.inFlow (l.indent + 1) l.cursor
  return { (l.push (.scalar .plain text)).moveTo c with keyAllowed := broken }

/-- Reads a mark between documents. -/
def readMark? (l : Lexer) (t : Token) : Option Lexer := l.endBlocks?.map fun l => l.pushSign 3 t

/-- Reads a directive. -/
def readDirective? (l : Lexer) : Option Lexer := do
  let l ← l.endBlocks?
  let (d, c) ← Yaml.readDirective? l.cursor
  return (l.push (.directive d)).moveTo c

/-- Whether a plain scalar may start with a character that has another meaning before a blank. -/
def startsPlain (l : Lexer) (c : Char) (rest : List Char) : Bool :=
  if c == '-' then !(rest.head?.any isBlank)
  else if c == '?' || c == ':' then !l.inFlow && !blankAhead rest
  else !("-?:,[]\x7b\x7d#&*!|>'\"%@`".contains c || isBlank c)

/-- Reads the token at the cursor, which stands at its first character. -/
def readToken? (l : Lexer) (c : Char) (rest : List Char) : Option Lexer :=
  let column := l.cursor.column
  if column == 0 && c == '%' then l.readDirective?
  else if column == 0 && markAhead (c :: rest) then
    l.readMark? (if c == '-' then .documentStart else .documentEnd)
  else if c == '[' then l.openFlow? .flowSequenceStart
  else if c == '{' then l.openFlow? .flowMappingStart
  else if c == ']' then l.closeFlow? .flowSequenceEnd
  else if c == '}' then l.closeFlow? .flowMappingEnd
  else if c == ',' then
    l.dropKey?.map fun l => { l.pushSign 1 .flowEntry with keyAllowed := true }
  else if c == '-' && blankAhead rest then l.blockEntry?
  else if c == '?' && (l.inFlow || blankAhead rest) then l.key?
  else if c == ':' && (l.inFlow || blankAhead rest) then l.value?
  else if c == '*' then
    l.readKeyed? fun c => (readAnchor? (c.skip 1)).map fun r => (.alias r.1, r.2)
  else if c == '&' then
    l.readKeyed? fun c => (readAnchor? (c.skip 1)).map fun r => (.anchor r.1, r.2)
  else if c == '!' then
    l.readKeyed? fun c => (readTag? l.inFlow c).map fun r => (.tag r.1, r.2)
  else if c == '|' && !l.inFlow then l.readBlock? .literal
  else if c == '>' && !l.inFlow then l.readBlock? .folded
  else if c == '"' || c == Char.ofNat 39 then
    l.readKeyed? fun cursor =>
      (readQuoted? c (cursor.skip 1)).map fun r => (.scalar .quoted r.1, r.2)
  else if l.startsPlain c rest then l.readPlain?
  else none

/-- Ends the text. -/
def finish? (l : Lexer) : Option (List Token) :=
  l.endBlocks?.map fun l => (l.push .streamEnd).slots.toList.flatten

/-- Reads all tokens. Every token takes at least one character. -/
def run? (l : Lexer) : Option (List Token) :=
  match l.toToken.checkKeys? with
  | none => none
  | some ready =>
    let ready := ready.unindent ready.cursor.column
    match ready.cursor.rest with
    | [] => ready.finish?
    | c :: rest =>
      match ready.readToken? c rest with
      | none => none
      | some next =>
        if _h : next.cursor.rest.length < l.cursor.rest.length then next.run? else none
termination_by l.cursor.rest.length

end Lexer

/-- The tokens of a text. -/
def Token.ofText? (s : String) : Option (List Token) :=
  (readable? s).bind fun chars => ({ cursor := ⟨chars, 0, 0⟩ } : Lexer).run?

end Protoscript.Yaml
