import Protoscript.Number.Integer
import Protoscript.Yaml.Cursor

/-!
# YAML scalars

A scalar is written plain, between quotes, or as an indented block. In plain and quoted scalars a
single break reads as a space and further ones as themselves; blanks around breaks vanish.

* `Folding` — blanks and breaks whose meaning is open until the next character comes;
* `readPlain?`, `readQuoted?`, `readBlock?` — the text of a scalar and the cursor behind it.
-/

namespace Protoscript.Yaml

/-! ## Folding -/

/-- Blanks and breaks since the last other character. -/
structure Folding where
  /-- the blanks before the first break, the last first -/
  blanks : List Char := []
  /-- whether there was a break -/
  broken : Bool := false
  /-- the first break, unless it was escaped -/
  first : Option Char := none
  /-- the breaks after the first one, the last first -/
  others : List Char := []
  deriving Inhabited

namespace Folding

/-- Adds a blank, which counts only before the first break. -/
def addBlank (f : Folding) (c : Char) : Folding :=
  if f.broken then f else { f with blanks := c :: f.blanks }

/-- Adds a break. -/
def addBreak (f : Folding) (c : Char) : Folding :=
  if f.broken then { f with others := c :: f.others } else { broken := true, first := some c }

/-- What the blanks and breaks read as, the last first. -/
def folded (f : Folding) : List Char :=
  if !f.broken then f.blanks
  else
    match f.first with
    | some '\n' => if f.others.isEmpty then [' '] else f.others
    | some c => f.others ++ [c]
    | none => f.others

/-- Whether there was a blank or a break. -/
def isPending (f : Folding) : Bool := f.broken || !f.blanks.isEmpty

end Folding

/-! ## Plain scalars -/

/-- Whether a character would end a plain scalar inside brackets. -/
def isFlowEnd (c : Char) : Bool := c == ',' || c == '[' || c == ']' || c == '{' || c == '}'

/-- Reads on in a plain scalar, with the text so far, the last character first. The result says also
whether the scalar ended behind a break. -/
def readPlainFrom (inFlow : Bool) (indent : Int) (done : List Char) (fold : Folding)
    (line column : Nat) : List Char → Option (String × Bool × Cursor)
  | [] => some (String.ofList done.reverse, fold.broken, ⟨[], line, column⟩)
  | c :: rest =>
    if isBreak c then readPlainFrom inFlow indent done (fold.addBreak c) (line + 1) 0 rest
    else if isBlank c then
      if fold.broken && column < indent && c == '\t' then none
      else readPlainFrom inFlow indent done (fold.addBlank c) line (column + 1) rest
    else
      let fresh := done.isEmpty || fold.isPending
      if (fold.isPending && !inFlow && column < indent) ||
          (fresh && ((column == 0 && markAhead (c :: rest)) || c == '#')) ||
          (c == ':' && blankAhead rest) || (inFlow && isFlowEnd c) then
        some (String.ofList done.reverse, fold.broken, ⟨c :: rest, line, column⟩)
      else if inFlow && c == ':' && (rest.head?.any fun x => isFlowEnd x || x == '?') then none
      else readPlainFrom inFlow indent (c :: (fold.folded ++ done)) {} line (column + 1) rest

/-- Reads a plain scalar whose further lines are indented at least to `indent`. -/
def readPlain? (inFlow : Bool) (indent : Int) (c : Cursor) : Option (String × Bool × Cursor) :=
  readPlainFrom inFlow indent [] {} c.line c.column c.rest

/-! ## Quoted scalars -/

/-- What follows a backslash between double quotes. -/
inductive Escape where
  /-- a character of its own -/
  | char (c : Char)
  /-- a number of hexadecimal digits -/
  | digits (count : Nat)

/-- The meaning of a character behind a backslash. -/
def escape? : Char → Option Escape
  | '0' => some (.char '\x00')
  | 'a' => some (.char '\x07')
  | 'b' => some (.char '\x08')
  | 't' => some (.char '\t')
  | '\t' => some (.char '\t')
  | 'n' => some (.char '\n')
  | 'v' => some (.char '\x0b')
  | 'f' => some (.char '\x0c')
  | 'r' => some (.char '\r')
  | 'e' => some (.char '\x1b')
  | ' ' => some (.char ' ')
  | '"' => some (.char '"')
  | '/' => some (.char '/')
  | '\\' => some (.char '\\')
  | 'N' => some (.char '\u0085')
  | '_' => some (.char '\u00a0')
  | 'L' => some (.char '\u2028')
  | 'P' => some (.char '\u2029')
  | 'x' => some (.digits 2)
  | 'u' => some (.digits 4)
  | 'U' => some (.digits 8)
  | _ => none

/-- The character of a number, if there is one. -/
def charOf? (n : Nat) : Option Char := if n.isValidChar then some (Char.ofNat n) else none

/-- Reads on in a quoted scalar; `hex` tells how many digits of an escape are still to come and what
the digits so far stand for. -/
def readQuotedFrom (quote : Char) (hex : Option (Nat × Nat)) (done : List Char) (fold : Folding)
    (line column : Nat) : List Char → Option (String × Cursor)
  | [] => none
  | c :: rest =>
    let text := fold.folded ++ done
    match hex with
    | some (count, value) =>
      match hexValue? c with
      | none => none
      | some d =>
        if count ≤ 1 then
          match charOf? (value * 16 + d) with
          | none => none
          | some x => readQuotedFrom quote none (x :: done) {} line (column + 1) rest
        else readQuotedFrom quote (some (count - 1, value * 16 + d)) done {} line (column + 1) rest
    | none =>
      if column == 0 && markAhead (c :: rest) then none
      else if isBreak c then readQuotedFrom quote none done (fold.addBreak c) (line + 1) 0 rest
      else if isBlank c then
        readQuotedFrom quote none done (fold.addBlank c) line (column + 1) rest
      else if c == quote then
        match rest with
        | x :: rest =>
          if quote == Char.ofNat 39 && x == quote then
            readQuotedFrom quote none (x :: text) {} line (column + 2) rest
          else some (String.ofList text.reverse, ⟨x :: rest, line, column + 1⟩)
        | [] => some (String.ofList text.reverse, ⟨[], line, column + 1⟩)
      else if quote == '"' && c == '\\' then
        match rest with
        | [] => none
        | x :: rest =>
          if isBreak x then readQuotedFrom quote none text { broken := true } (line + 1) 0 rest
          else
            match escape? x with
            | some (.char y) => readQuotedFrom quote none (y :: text) {} line (column + 2) rest
            | some (.digits count) =>
              readQuotedFrom quote (some (count, 0)) text {} line (column + 2) rest
            | none => none
      else readQuotedFrom quote none (c :: text) {} line (column + 1) rest

/-- Reads a scalar between quotes, from behind the first one. -/
def readQuoted? (quote : Char) (c : Cursor) : Option (String × Cursor) :=
  readQuotedFrom quote none [] {} c.line c.column c.rest

/-! ## Block scalars -/

/-- What happens to the breaks at the end of a block. -/
inductive Chomping where
  /-- none is kept -/
  | strip
  /-- the first is kept -/
  | clip
  /-- all are kept -/
  | keep
  deriving DecidableEq

/-- The sign of a chomping. -/
def Chomping.ofChar? : Char → Option Chomping
  | '-' => some .strip
  | '+' => some .keep
  | _ => none

/-- Reads the head of a block behind its first sign: how it is chomped, and how far it is indented,
zero if the head does not say. A digit zero is refused. -/
def readBlockHead? (c : Cursor) : Option (Chomping × Nat × Cursor) :=
  let indentAt (c : Cursor) : Option (Nat × Cursor) :=
    match c.rest with
    | d :: _ => if d.isDigit then (if d == '0' then none else some (d.toNat - 48, c.skip 1))
      else some (0, c)
    | [] => some (0, c)
  let chompingAt (c : Cursor) : Option (Chomping × Cursor) :=
    (c.rest.head?.bind Chomping.ofChar?).map fun x => (x, c.skip 1)
  match chompingAt c with
  | some (chomping, c) => (indentAt c).map fun r => (chomping, r.1, r.2)
  | none =>
    match indentAt c with
    | none => none
    | some (0, c) => some (.clip, 0, c)
    | some (n, c) =>
      match chompingAt c with
      | some (chomping, c) => some (chomping, n, c)
      | none => some (.clip, n, c)

/-- Reads the blank lines in front of a line of a block, and the indentation of the line itself. An
indentation of zero is still unknown: then all spaces count, and `widest` is the greatest number of
them. The result holds the breaks, the last first. -/
def readBlankLines? (indent widest : Nat) (breaks : List Char) (line column : Nat) :
    List Char → Option (List Char × Nat × Cursor)
  | [] => some (breaks, max widest column, ⟨[], line, column⟩)
  | c :: rest =>
    let outside := indent == 0 || column < indent
    if c == ' ' && outside then readBlankLines? indent widest breaks line (column + 1) rest
    else if c == '\t' && outside then none
    else if isBreak c then
      readBlankLines? indent (max widest column) (c :: breaks) (line + 1) 0 rest
    else some (breaks, max widest column, ⟨c :: rest, line, column⟩)

/-- A block under way. -/
structure BlockText where
  /-- the text so far, the last character first -/
  done : List Char := []
  /-- the break behind the last line, if there is one -/
  first : List Char := []
  /-- the breaks of the blank lines behind it, the last first -/
  others : List Char := []
  /-- whether the last line starts with a blank -/
  blank : Bool := false

/-- The text with the breaks behind its last line, where the next line follows. In folded blocks a
break between two lines that start without a blank is folded. -/
def BlockText.join (b : BlockText) (literal blank : Bool) : List Char :=
  if !literal && b.first == ['\n'] && !b.blank && !blank then
    (if b.others.isEmpty then [' '] else b.others) ++ b.done
  else b.others ++ b.first ++ b.done

/-- Reads the lines of a block that are indented to `indent`. -/
def readBlockLines? (literal : Bool) (indent : Nat) (b : BlockText) (c : Cursor) :
    Option (BlockText × Cursor) :=
  match c.rest with
  | [] => some (b, c)
  | x :: _ =>
    if c.column != indent then some (b, c)
    else
      let line := c.span fun x => !isBreak x
      let done := line.1.reverse ++ b.join literal (isBlank x)
      let first := line.2.rest.take 1
      let next : Cursor :=
        if first.isEmpty then line.2 else ⟨line.2.rest.drop 1, line.2.line + 1, 0⟩
      match readBlankLines? indent 0 [] next.line next.column next.rest with
      | none => none
      | some (others, _, next) =>
        if _h : next.rest.length < c.rest.length then
          readBlockLines? literal indent ⟨done, first, others, isBlank x⟩ next
        else none
termination_by c.rest.length

/-- Reads a block, from behind its first sign, in a collection that is indented to `parent`. -/
def readBlock? (literal : Bool) (parent : Int) (c : Cursor) : Option (String × Cursor) := do
  let (chomping, extra, c) ← readBlockHead? c
  let c ← c.skipLineEnd?
  let given := if extra == 0 then 0 else (max parent 0).toNat + extra
  let (others, widest, c) ← readBlankLines? given 0 [] c.line c.column c.rest
  let indent := if given == 0 then max widest (max (parent + 1) 1).toNat else given
  let (b, c) ← readBlockLines? literal indent { others := others } c
  let done := match chomping with
    | .strip => b.done
    | .clip => b.first ++ b.done
    | .keep => b.others ++ b.first ++ b.done
  return (String.ofList done.reverse, c)

end Protoscript.Yaml
