import Protoscript.Number.Integer
import Protoscript.Text.Utf8
import Protoscript.Yaml.Cursor

/-!
# Anchors, tags and directives

A node may carry an anchor, by which others refer to it, and a tag, which names its type. A tag is
written out between angle brackets, or shortened by a handle that a directive may declare.

* `readAnchor?` — the name of an anchor;
* `Tag`, `readTag?` — a tag as it is written;
* `Directive`, `readDirective?` — a line of the prologue of a document.
-/

namespace Protoscript.Yaml

/-- Reads the name of an anchor. A blank, a break or one of a few signs must follow. -/
def readAnchor? (c : Cursor) : Option (String × Cursor) :=
  let (name, c) := c.span isWordChar
  let closed := blankAhead c.rest || (c.rest.head?.any fun x => "?:,]\x7d%@`".contains x)
  if name.isEmpty || !closed then none else some (String.ofList name, c)

/-- Characters of tags; between angle brackets there are some more. -/
def isTagChar (verbatim : Bool) (c : Char) : Bool :=
  isWordChar c || ";/?:@&=+$.%!~*'()".contains c || (verbatim && (c == ',' || c == '[' || c == ']'))

/-- The bytes of a tag, in which a percent sign introduces two hexadecimal digits. -/
def tagBytes? : List Char → Option (List UInt8)
  | [] => some []
  | '%' :: a :: b :: rest =>
    match hexValue? a, hexValue? b with
    | some high, some low => (tagBytes? rest).map (UInt8.ofNat (high * 16 + low) :: ·)
    | _, _ => none
  | c :: rest => if c == '%' then none else (tagBytes? rest).map (utf8Bytes c.toString ++ ·)

/-- Reads characters of a tag. -/
def readTagText? (verbatim : Bool) (c : Cursor) : Option (String × Cursor) :=
  let (chars, c) := c.span (isTagChar verbatim)
  ((tagBytes? chars).bind ofUtf8?).map fun s => (s, c)

/-- A tag as it is written: its handle, empty for a tag that is written out, and what follows. -/
structure Tag where
  /-- the handle -/
  handle : String
  /-- the rest of the tag -/
  suffix : String
  deriving DecidableEq, Inhabited

/-- Reads a handle: an exclamation mark, or a word between two. What starts like one and is none is
returned as well. -/
def readHandle? (c : Cursor) : Option (String × Cursor) :=
  match c.rest with
  | '!' :: _ =>
    let (word, c) := (c.skip 1).span isWordChar
    match c.rest with
    | '!' :: _ => some (String.ofList ('!' :: word ++ ['!']), c.skip 1)
    | _ => some (String.ofList ('!' :: word), c)
  | _ => none

/-- Whether a text is a handle of two exclamation marks, with a word between them or not. -/
def isNamedHandle (s : String) : Bool := 2 ≤ s.length && s.toList.getLast? == some '!'

/-- Reads a tag, from its exclamation mark on. A blank, a break or, inside brackets, a comma must
follow. -/
def readTag? (inFlow : Bool) (c : Cursor) : Option (Tag × Cursor) := do
  let (tag, c) ← match c.rest with
    | '!' :: '<' :: _ => do
      let (suffix, c) ← readTagText? true (c.skip 2)
      if suffix.isEmpty || c.rest.head? != some '>' then none
      pure (Tag.mk "" suffix, c.skip 1)
    | _ => do
      let (handle, c) ← readHandle? c
      let (suffix, c) ← readTagText? false c
      if isNamedHandle handle then
        if suffix.isEmpty then none
        pure (Tag.mk handle suffix, c)
      else
        let suffix := String.ofList (handle.toList.drop 1) ++ suffix
        pure (if suffix.isEmpty then Tag.mk "" "!" else Tag.mk "!" suffix, c)
  if blankAhead c.rest || (inFlow && c.rest.head? == some ',') then some (tag, c) else none

/-- A line of the prologue of a document. -/
inductive Directive where
  /-- the version of the format -/
  | version (major minor : Nat)
  /-- a handle and what it stands for -/
  | handle (handle expansion : String)
  deriving DecidableEq

/-- Reads a number of at most nine digits. -/
def readVersionNumber? (c : Cursor) : Option (Nat × Cursor) :=
  let (digits, c) := c.span Char.isDigit
  if digits.isEmpty || 9 < digits.length then none
  else (readNat? 10 digits).map fun n => (n, c)

/-- Reads a directive, from its percent sign on, with the rest of its line. -/
def readDirective? (c : Cursor) : Option (Directive × Cursor) := do
  let (name, c) := (c.skip 1).span isWordChar
  if name.isEmpty || !blankAhead c.rest then none
  let c := c.skipBlanks
  let (directive, c) ← match String.ofList name with
    | "YAML" => do
      let (major, c) ← readVersionNumber? c
      if c.rest.head? != some '.' then none
      let (minor, c) ← readVersionNumber? (c.skip 1)
      pure (Directive.version major minor, c)
    | "TAG" => do
      let (handle, c) ← readHandle? c
      if handle != "!" && !isNamedHandle handle then none
      if !(c.rest.head?.any isBlank) then none
      let (expansion, c) ← readTagText? true c.skipBlanks
      if expansion.isEmpty || !blankAhead c.rest then none
      pure (Directive.handle handle expansion, c)
    | _ => none
  let c ← c.skipLineEnd?
  return (directive, c)

end Protoscript.Yaml
