import Protoscript.Text.Printable

/-!
# Quoted texts and byte strings

How scripts see a string or a byte string: between double quotes, with escapes for whatever could
be mistaken.

* `quoteText` — a string; characters that `isUnprintable` or `isCombining` are written by number;
* `quoteBytes` — a byte string; bytes outside printable ASCII are written in hexadecimal.
-/

namespace Protoscript

/-- The hexadecimal digits of a number, in lower case. -/
def hexDigits (n : Nat) : List Char := Nat.toDigits 16 n

/-- The two hexadecimal digits of a byte, in lower case. -/
def hexByte (b : UInt8) : List Char :=
  [Nat.digitChar (b.toNat / 16), Nat.digitChar (b.toNat % 16)]

/-- A character as it stands in a quoted text. -/
def quoteChar (c : Char) : List Char :=
  if c == '\x00' then ['\\', '0']
  else if c == '\t' then ['\\', 't']
  else if c == '\r' then ['\\', 'r']
  else if c == '\n' then ['\\', 'n']
  else if c == '"' then ['\\', '"']
  else if c == '\\' then ['\\', '\\']
  else if ' ' ≤ c && c < '\x7f' then [c]
  else if isCombining c || isUnprintable c then
    ['\\', 'u', '\x7b'] ++ hexDigits c.toNat ++ ['\x7d']
  else [c]

/-- A text between double quotes. -/
def quoteText (s : String) : String :=
  String.ofList (['"'] ++ s.toList.flatMap quoteChar ++ ['"'])

/-- A byte as it stands in a quoted byte string. -/
def quoteByte (b : UInt8) : List Char :=
  if b == 9 then ['\\', 't']
  else if b == 13 then ['\\', 'r']
  else if b == 10 then ['\\', 'n']
  else if b == 39 then ['\\', Char.ofNat 39]
  else if b == 34 then ['\\', '"']
  else if b == 92 then ['\\', '\\']
  else if 0x20 ≤ b && b < 0x7f then [Char.ofNat b.toNat]
  else ['\\', 'x'] ++ hexByte b

/-- A byte string between double quotes, marked with a leading `b`. -/
def quoteBytes (bytes : List UInt8) : String :=
  String.ofList (['b', '"'] ++ bytes.flatMap quoteByte ++ ['"'])

end Protoscript
