/-!
# Base64

JSON carries byte strings in base64.

* `Base64.encode` — the standard alphabet, with padding;
* `Base64.decode?` — accepts the standard and the URL-safe alphabet (not a mixture), with or
  without padding, and ignores surplus bits of the last symbol.
-/

namespace Protoscript.Base64

/-- The standard alphabet. -/
def standard : List Char :=
  "ABCDEFGHIJKLMNOPQRSTUVWXYZabcdefghijklmnopqrstuvwxyz0123456789+/".toList

/-- The alphabet without characters that mean something in a URL. -/
def urlSafe : List Char :=
  "ABCDEFGHIJKLMNOPQRSTUVWXYZabcdefghijklmnopqrstuvwxyz0123456789-_".toList

/-- The symbol of a six-bit number in the standard alphabet. -/
def symbol (n : Nat) : Char := standard.getD n 'A'

/-- Three bytes at a time become four symbols; what is left is padded. -/
def encodeChars : List UInt8 → List Char
  | [] => []
  | [a] =>
    let n := a.toNat * 16
    [symbol (n / 64), symbol (n % 64), '=', '=']
  | [a, b] =>
    let n := (a.toNat * 256 + b.toNat) * 4
    [symbol (n / 4096), symbol (n / 64 % 64), symbol (n % 64), '=']
  | a :: b :: c :: rest =>
    let n := (a.toNat * 256 + b.toNat) * 256 + c.toNat
    symbol (n / 262144) :: symbol (n / 4096 % 64) :: symbol (n / 64 % 64) :: symbol (n % 64)
      :: encodeChars rest

/-- The base64 text of a byte string. -/
def encode (bytes : List UInt8) : String := String.ofList (encodeChars bytes)

/-- The number of a symbol in an alphabet. -/
def value? (alphabet : List Char) (c : Char) : Option Nat :=
  if c == '=' then none else alphabet.idxOf? c

/-- The bytes of the last group: two to four symbols, possibly followed by padding that fills the
group up to at most four. -/
def decodeLast? (alphabet : List Char) (group : List Char) : Option (List UInt8) :=
  let symbols := group.takeWhile (· != '=')
  let padding := group.dropWhile (· != '=')
  if padding.any (· != '=') then none else
  match symbols.mapM (value? alphabet) with
  | some [a, b] => some [UInt8.ofNat (a * 4 + b / 16)]
  | some [a, b, c] => some [UInt8.ofNat (a * 4 + b / 16), UInt8.ofNat (b % 16 * 16 + c / 4)]
  | some [a, b, c, d] =>
    some [UInt8.ofNat (a * 4 + b / 16), UInt8.ofNat (b % 16 * 16 + c / 4),
      UInt8.ofNat (c % 4 * 64 + d)]
  | _ => none

/-- Decodes with one alphabet. Only the last group may be short or padded. -/
def decodeChars? (alphabet : List Char) : List Char → Option (List UInt8)
  | [] => some []
  | a :: b :: c :: d :: e :: rest => do
    let w ← value? alphabet a
    let x ← value? alphabet b
    let y ← value? alphabet c
    let z ← value? alphabet d
    let tail ← decodeChars? alphabet (e :: rest)
    some (UInt8.ofNat (w * 4 + x / 16) :: UInt8.ofNat (x % 16 * 16 + y / 4)
      :: UInt8.ofNat (y % 4 * 64 + z) :: tail)
  | last => decodeLast? alphabet last

/-- The byte string of a base64 text in either alphabet. -/
def decode? (s : String) : Option (List UInt8) :=
  match decodeChars? standard s.toList with
  | some bytes => some bytes
  | none => decodeChars? urlSafe s.toList

end Protoscript.Base64
