import Protoscript.Number.Decimal
import Protoscript.Number.Integer
import Protoscript.Text.Utf8

/-!
# Tokens of the text form

* `FormToken` — names, numbers, strings and marks; strings that follow each other are one;
* `FormToken.ofText?` — the tokens of a text. Blanks and comments separate tokens; an integer must
  not run into a name.
-/

namespace Protoscript

/-- A token of the text form. -/
inductive FormToken where
  | name (value : String)
  /-- an integer, and whether it is written in decimal -/
  | int (value : Nat) (decimal : Bool)
  | float (value : Double)
  | bytes (value : List UInt8)
  | mark (c : Char)

/-- Whether a name may start with a character. -/
def startsName (c : Char) : Bool :=
  ('a' ≤ c && c ≤ 'z') || ('A' ≤ c && c ≤ 'Z') || c == '_'

/-- Whether a name may contain a character. -/
def inName (c : Char) : Bool := startsName c || ('0' ≤ c && c ≤ '9')

/-- Whether a character only separates tokens. -/
def isFormBlank (c : Char) : Bool :=
  c == ' ' || c == '\t' || c == '\n' || c == '\r' || c == '\x0b' || c == '\x0c'

/-! ## Numbers -/

/-- Whether a character is a decimal digit. -/
def isDecimalDigit (c : Char) : Bool := '0' ≤ c && c ≤ '9'

/-- The exponent at the start of a text, if there is one, and what follows it. -/
def exponentPart (cs : List Char) : List Char × List Char :=
  match cs with
  | e :: rest =>
    if e == 'e' || e == 'E' then
      let (sign, rest) := match rest with
        | '+' :: rest => (['+'], rest)
        | '-' :: rest => (['-'], rest)
        | rest => ([], rest)
      let digits := rest.takeWhile isDecimalDigit
      if digits.isEmpty then ([], cs) else (e :: sign ++ digits, rest.dropWhile isDecimalDigit)
    else ([], cs)
  | [] => ([], [])

/-- A text without a letter `f` at its start. -/
def dropFloatMark (cs : List Char) : List Char :=
  match cs with
  | 'f' :: rest => rest
  | 'F' :: rest => rest
  | cs => cs

/-- The floating-point number of a text that has the form of one, and what follows it. -/
def floatToken? (number rest : List Char) : Option (FormToken × List Char) :=
  (Double.read? (String.ofList number)).map fun x => (.float x, dropFloatMark rest)

/-- An integer and what follows it, which must not start with a name. -/
def intToken? (value : Option Nat) (decimal : Bool) (rest : List Char) :
    Option (FormToken × List Char) :=
  match rest with
  | c :: _ => if startsName c then none else value.map fun n => (.int n decimal, rest)
  | [] => value.map fun n => (.int n decimal, rest)

/-- The number at the start of a text, and what follows it. A leading zero makes an integer octal,
a leading `0x` hexadecimal. -/
def numberToken? (cs : List Char) : Option (FormToken × List Char) :=
  let digits := cs.takeWhile isDecimalDigit
  let rest := cs.dropWhile isDecimalDigit
  match digits, rest with
  | digits, '.' :: afterPoint =>
    let fraction := afterPoint.takeWhile isDecimalDigit
    let (exponent, rest) := exponentPart (afterPoint.dropWhile isDecimalDigit)
    floatToken? (digits ++ '.' :: fraction ++ exponent) rest
  | digits, rest =>
    let (exponent, afterExponent) := exponentPart rest
    if !exponent.isEmpty then floatToken? (digits ++ exponent) afterExponent
    else
      match digits, rest with
      | ['0'], x :: rest =>
        if x == 'f' || x == 'F' then floatToken? ['0'] (x :: rest)
        else if x == 'x' || x == 'X' then
          let hex := rest.takeWhile fun c => (hexValue? c).isSome
          intToken? (readNat? 16 hex) false (rest.dropWhile fun c => (hexValue? c).isSome)
        else intToken? (some 0) true (x :: rest)
      | ['0'], [] => intToken? (some 0) true []
      | '0' :: octal, rest => intToken? (readNat? 8 octal) false rest
      | digits, rest =>
        match rest with
        | c :: _ =>
          if c == 'f' || c == 'F' then floatToken? digits rest
          else intToken? (readNat? 10 digits) true rest
        | [] => intToken? (readNat? 10 digits) true []

/-! ## Strings -/

/-- What is being read of a string: plain characters, or an escape with the digits read so far. -/
inductive FormStringMode where
  | plain
  | escape
  | octal (digits : Nat) (value : Nat)
  | hex (digits : Nat) (value : Nat)
  | unicode (left : Nat) (value : Nat)

/-- The byte of an escape by letter. -/
def formEscape? (c : Char) : Option UInt8 :=
  if c == 'a' then some 7
  else if c == 'b' then some 8
  else if c == 'f' then some 12
  else if c == 'n' then some 10
  else if c == 'r' then some 13
  else if c == 't' then some 9
  else if c == 'v' then some 11
  else if c == '?' || c == '\\' || c == '"' || c.toNat == 39 then some (UInt8.ofNat c.toNat)
  else none

/-- The value of an octal digit. -/
def octalValue? (c : Char) : Option Nat :=
  if '0' ≤ c && c ≤ '7' then some (c.toNat - 48) else none

/-- The character of a number, if there is one. -/
def charOf? (n : Nat) : Option Char :=
  if n < 0xd800 ∨ (0xdfff < n ∧ n < 0x110000) then some (Char.ofNat n) else none

/-- The byte of an octal or hexadecimal escape that is complete; in other modes there is none. -/
def FormStringMode.pending? : FormStringMode → Option (List UInt8)
  | octal _ value => if value < 256 then some [UInt8.ofNat value] else none
  | hex digits value => if 0 < digits then some [UInt8.ofNat value] else none
  | plain => some []
  | escape | unicode _ _ => none

/-- Reads the rest of a string up to its quote. The bytes read so far are last first. -/
def readString? (quote : Char) (done : List UInt8) (mode : FormStringMode) :
    List Char → Option (List UInt8 × List Char)
  | [] => none
  | c :: rest =>
    match mode with
    | .escape =>
      match octalValue? c with
      | some d => readString? quote done (.octal 1 d) rest
      | none =>
        if c == 'x' || c == 'X' then readString? quote done (.hex 0 0) rest
        else if c == 'u' then readString? quote done (.unicode 4 0) rest
        else if c == 'U' then readString? quote done (.unicode 8 0) rest
        else
          match formEscape? c with
          | some b => readString? quote (b :: done) .plain rest
          | none => none
    | .unicode left value =>
      match hexValue? c with
      | none => none
      | some d =>
        if 1 < left then readString? quote done (.unicode (left - 1) (value * 16 + d)) rest
        else
          match charOf? (value * 16 + d) with
          | some ch =>
            readString? quote ((utf8Bytes (String.singleton ch)).reverse ++ done) .plain rest
          | none => none
    | mode =>
      let longer : Option FormStringMode := match mode with
        | .octal digits value =>
          if digits < 3 then (octalValue? c).map fun d => .octal (digits + 1) (value * 8 + d)
          else none
        | .hex digits value =>
          if digits < 2 then (hexValue? c).map fun d => .hex (digits + 1) (value * 16 + d)
          else none
        | _ => none
      match longer with
      | some mode => readString? quote done mode rest
      | none =>
        match mode.pending? with
        | none => none
        | some bytes =>
          let done := bytes.reverse ++ done
          if c == quote then some (done.reverse, rest)
          else if c == '\\' then readString? quote done .escape rest
          else if c == '\n' || c.toNat == 0 then none
          else readString? quote ((utf8Bytes (String.singleton c)).reverse ++ done) .plain rest

/-! ## Tokens -/

/-- The characters that are tokens by themselves. -/
def formMarks : List Char :=
  ['\x7b', '\x7d', '[', ']', '<', '>', ',', ':', ';', '/', '.', '-']

/-- The token at the start of a text, and what follows it. -/
def nextFormToken? (cs : List Char) : Option (FormToken × List Char) :=
  match cs with
  | [] => none
  | c :: rest =>
    if startsName c then some (.name (String.ofList (cs.takeWhile inName)), cs.dropWhile inName)
    else if isDecimalDigit c then numberToken? cs
    else if c == '"' || c.toNat == 39 then
      (readString? c [] .plain rest).map fun r => (.bytes r.1, r.2)
    else if c == '.' then
      match rest with
      | d :: _ => if isDecimalDigit d then numberToken? cs else some (.mark c, rest)
      | [] => some (.mark c, rest)
    else if formMarks.contains c then some (.mark c, rest)
    else none

/-- The tokens of a text, of which each takes at least one of `fuel` characters. -/
def formTokens? : (fuel : Nat) → List Char → Option (List FormToken)
  | 0, cs => if cs.isEmpty then some [] else none
  | fuel + 1, cs =>
    match cs with
    | [] => some []
    | c :: rest =>
      if isFormBlank c then formTokens? fuel rest
      else if c == '#' then formTokens? fuel (rest.dropWhile (· != '\n'))
      else
        match nextFormToken? cs with
        | some (t, rest) => (formTokens? fuel rest).map (t :: ·)
        | none => none

/-- Tokens with strings that follow each other made one. -/
def joinStrings : List FormToken → List FormToken
  | [] => []
  | .bytes a :: rest =>
    match joinStrings rest with
    | .bytes b :: rest => .bytes (a ++ b) :: rest
    | rest => .bytes a :: rest
  | t :: rest => t :: joinStrings rest

/-- The tokens of a text. -/
def FormToken.ofText? (s : String) : Option (List FormToken) :=
  (formTokens? (s.length + 1) s.toList).map joinStrings

end Protoscript
