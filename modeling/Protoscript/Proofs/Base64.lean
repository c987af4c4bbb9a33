import Protoscript.Text.Base64

/-!
# Base64 is read back

Three bytes are written as four symbols, and the four symbols are read as the three bytes; what is left
at the end is read from its symbols and the padding.

* `Base64.bytesOf` — the bytes of four symbols;
* `Base64.decode?_encode` — the text of a byte string is read as the byte string.
-/

namespace Protoscript.Base64

theorem value?_symbol {n : Nat} (hn : n < 64) : value? standard (symbol n) = some n := by
  revert hn
  revert n
  decide +kernel

theorem symbol_ne_padding {n : Nat} (hn : n < 64) : (symbol n != '=') = true := by
  revert hn
  revert n
  decide +kernel

/-- The three bytes of four symbols. -/
def bytesOf (w x y z : Nat) : List UInt8 :=
  [UInt8.ofNat (w * 4 + x / 16), UInt8.ofNat (x % 16 * 16 + y / 4), UInt8.ofNat (y % 4 * 64 + z)]

section

variable {w x y z : Nat} (hw : w < 64) (hx : x < 64)

include hw hx

theorem decodeChars?_two :
    decodeChars? standard [symbol w, symbol x, '=', '='] = some ((bytesOf w x 0 0).take 1) := by
  simp [decodeChars?, decodeLast?, value?_symbol, symbol_ne_padding, hw, hx, bytesOf]

variable (hy : y < 64)

include hy

theorem decodeChars?_three :
    decodeChars? standard [symbol w, symbol x, symbol y, '='] = some ((bytesOf w x y 0).take 2) := by
  simp [decodeChars?, decodeLast?, value?_symbol, symbol_ne_padding, hw, hx, hy, bytesOf]

variable (hz : z < 64)

include hz

theorem decodeChars?_four :
    decodeChars? standard [symbol w, symbol x, symbol y, symbol z] = some (bytesOf w x y z) := by
  simp [decodeChars?, decodeLast?, value?_symbol, symbol_ne_padding, hw, hx, hy, hz, bytesOf]

theorem decodeChars?_more {rest : List Char} (hne : rest ≠ []) :
    decodeChars? standard (symbol w :: symbol x :: symbol y :: symbol z :: rest) =
      (decodeChars? standard rest).map (bytesOf w x y z ++ ·) := by
  rcases rest with _ | ⟨c, rest⟩
  · exact absurd rfl hne
  · rw [decodeChars?, value?_symbol hw, value?_symbol hx, value?_symbol hy, value?_symbol hz]
    rcases decodeChars? standard (c :: rest) with _ | tail <;> rfl

end

theorem encodeChars_ne_nil (a : UInt8) (rest : List UInt8) : encodeChars (a :: rest) ≠ [] := by
  rcases rest with _ | ⟨b, _ | ⟨c, rest⟩⟩ <;> exact List.cons_ne_nil _ _

/-- Three bytes from the four symbols that they are written as. -/
theorem bytesOf_symbols {a b c n : Nat} (hb : b < 256) (hc : c < 256)
    (hn : n = (a * 256 + b) * 256 + c) :
    bytesOf (n / 262144) (n / 4096 % 64) (n / 64 % 64) (n % 64) =
      [UInt8.ofNat a, UInt8.ofNat b, UInt8.ofNat c] := by
  unfold bytesOf
  rw [show n / 262144 * 4 + n / 4096 % 64 / 16 = a by omega,
    show n / 4096 % 64 % 16 * 16 + n / 64 % 64 / 4 = b by omega,
    show n / 64 % 64 % 4 * 64 + n % 64 = c by omega]

theorem decodeChars?_encodeChars (bytes : List UInt8) :
    decodeChars? standard (encodeChars bytes) = some bytes := by
  -- three bytes at a time, and one or two that are left
  match bytes with
  | [] => rfl
  | [a] =>
    have ha := a.toNat_lt
    have hfirst : a.toNat * 16 / 64 * 4 + a.toNat * 16 % 64 / 16 = a.toNat := by omega
    rw [encodeChars, decodeChars?_two (by omega) (by omega), bytesOf, hfirst, UInt8.ofNat_toNat]
    rfl
  | [a, b] =>
    have ha := a.toNat_lt
    have hb := b.toNat_lt
    generalize hn : (a.toNat * 256 + b.toNat) * 4 = n
    have hfirst : n / 4096 * 4 + n / 64 % 64 / 16 = a.toNat := by omega
    have hsecond : n / 64 % 64 % 16 * 16 + n % 64 / 4 = b.toNat := by omega
    rw [encodeChars, hn, decodeChars?_three (by omega) (by omega) (by omega), bytesOf, hfirst, hsecond,
      UInt8.ofNat_toNat, UInt8.ofNat_toNat]
    rfl
  | [a, b, c] =>
    have ha := a.toNat_lt
    have hb := b.toNat_lt
    have hc := c.toNat_lt
    rw [encodeChars, encodeChars, decodeChars?_four (by omega) (by omega) (by omega) (by omega),
      bytesOf_symbols hb hc rfl]
    simp
  | a :: b :: c :: d :: rest =>
    have ha := a.toNat_lt
    have hb := b.toNat_lt
    have hc := c.toNat_lt
    rw [encodeChars,
      decodeChars?_more (by omega) (by omega) (by omega) (by omega) (encodeChars_ne_nil d rest),
      decodeChars?_encodeChars (d :: rest), bytesOf_symbols hb hc rfl]
    simp

/-- Bytes are read back from their text. -/
theorem decode?_encode (bytes : List UInt8) : decode? (encode bytes) = some bytes := by
  rw [decode?, encode, String.toList_ofList, decodeChars?_encodeChars]

end Protoscript.Base64
