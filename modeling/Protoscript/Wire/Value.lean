import Protoscript.Wire.Varint

/-!
# Fields on the wire

On the wire a message is a sequence of numbered values, each in one of five forms. What a value means
is the schema's business; its form is enough to find its end.

* `WireValue` — a value by its form;
* `writeFields` — the bytes of numbered values;
* `readFields?` — the numbered values of a byte sequence. Groups nest at most as deep as the reader
  allows, and nothing may be left open.
-/

namespace Protoscript

/-- A value by its form on the wire. -/
inductive WireValue where
  | varint (value : UInt64)
  | fixed64 (bits : UInt64)
  | delimited (bytes : List UInt8)
  | group (fields : List (Nat × WireValue))
  | fixed32 (bits : UInt32)
  deriving Inhabited

/-- The `count` low bytes of a number, the lowest first. -/
def lowBytes : (count : Nat) → Nat → List UInt8
  | 0, _ => []
  | count + 1, n => UInt8.ofNat (n % 256) :: lowBytes count (n / 256)

/-- The number whose low bytes are given, the lowest first. -/
def ofLowBytes : List UInt8 → Nat
  | [] => 0
  | b :: rest => b.toNat + 256 * ofLowBytes rest

/-! ## Writing -/

/-- The key in front of a value: its number and the code of its form. -/
def writeKey (number code : Nat) : List UInt8 := writeVarint (UInt64.ofNat (number * 8 + code))

/-- A length and the bytes it counts. -/
def writeDelimited (bytes : List UInt8) : List UInt8 :=
  writeVarint (UInt64.ofNat bytes.length) ++ bytes

mutual

/-- The bytes of a numbered value. -/
def writeField (number : Nat) : WireValue → List UInt8
  | .varint n => writeKey number 0 ++ writeVarint n
  | .fixed64 bits => writeKey number 1 ++ lowBytes 8 bits.toNat
  | .delimited bytes => writeKey number 2 ++ writeDelimited bytes
  | .group fields => writeKey number 3 ++ writeFields fields ++ writeKey number 4
  | .fixed32 bits => writeKey number 5 ++ lowBytes 4 bits.toNat

/-- The bytes of a sequence of numbered values. -/
def writeFields : List (Nat × WireValue) → List UInt8
  | [] => []
  | (number, value) :: rest => writeField number value ++ writeFields rest

end

/-! ## Reading -/

/-- A step of reading: a value other than a group, or the start or end of a group. -/
inductive WireToken where
  | value (v : WireValue)
  | opening
  | closing

/-- Takes `count` bytes off, if there are as many. -/
def takeBytes? (count : Nat) (bytes : List UInt8) : Option (List UInt8 × List UInt8) :=
  if count ≤ bytes.length then some (bytes.take count, bytes.drop count) else none

/-- Reads a length and the bytes it counts. -/
def readDelimited? (bytes : List UInt8) : Option (List UInt8 × List UInt8) :=
  (readVarint? bytes).bind fun r => takeBytes? r.1.toNat r.2

/-- Reads what follows a key, by the code of its form. -/
def readToken? (code : Nat) (bytes : List UInt8) : Option (WireToken × List UInt8) :=
  match code with
  | 0 => (readVarint? bytes).map fun r => (.value (.varint r.1), r.2)
  | 1 => (takeBytes? 8 bytes).map fun r => (.value (.fixed64 (UInt64.ofNat (ofLowBytes r.1))), r.2)
  | 2 => (readDelimited? bytes).map fun r => (.value (.delimited r.1), r.2)
  | 3 => some (.opening, bytes)
  | 4 => some (.closing, bytes)
  | 5 => (takeBytes? 4 bytes).map fun r => (.value (.fixed32 (UInt32.ofNat (ofLowBytes r.1))), r.2)
  | _ => none

theorem length_of_takeBytes? {count : Nat} {bytes : List UInt8} {r : List UInt8 × List UInt8}
    (h : takeBytes? count bytes = some r) : r.2.length ≤ bytes.length := by
  unfold takeBytes? at h
  split at h
  · obtain rfl := Option.some.inj h
    simp
  · simp at h

theorem length_of_readDelimited? {bytes : List UInt8} {r : List UInt8 × List UInt8}
    (h : readDelimited? bytes = some r) : r.2.length < bytes.length := by
  simp only [readDelimited?, Option.bind_eq_some_iff] at h
  obtain ⟨⟨n, rest⟩, hv, ht⟩ := h
  have h1 := length_of_takeBytes? ht
  have h2 := length_of_readVarint? hv
  dsimp only at h1
  omega

theorem length_of_readToken? {code : Nat} {bytes rest : List UInt8} {t : WireToken}
    (h : readToken? code bytes = some (t, rest)) : rest.length ≤ bytes.length := by
  unfold readToken? at h
  split at h
  · simp only [Option.map_eq_some_iff, Prod.mk.injEq] at h
    obtain ⟨r, hr, _, rfl⟩ := h
    exact Nat.le_of_lt (length_of_readVarint? hr)
  · simp only [Option.map_eq_some_iff, Prod.mk.injEq] at h
    obtain ⟨r, hr, _, rfl⟩ := h
    exact length_of_takeBytes? hr
  · simp only [Option.map_eq_some_iff, Prod.mk.injEq] at h
    obtain ⟨r, hr, _, rfl⟩ := h
    exact Nat.le_of_lt (length_of_readDelimited? hr)
  · simp only [Option.some.injEq, Prod.mk.injEq] at h
    simp [h.2]
  · simp only [Option.some.injEq, Prod.mk.injEq] at h
    simp [h.2]
  · simp only [Option.map_eq_some_iff, Prod.mk.injEq] at h
    obtain ⟨r, hr, _, rfl⟩ := h
    exact length_of_takeBytes? hr
  · simp at h

/-- Reads numbered values. The groups that are still open are on a stack, each with its number and
the values read before it, the last first; `alwaysDelimited` names the numbers outside groups whose
values are taken as delimited whatever form their key names. -/
def readOpen? (alwaysDelimited : Nat → Bool) (depth : Nat)
    (stack : List (Nat × List (Nat × WireValue))) (done : List (Nat × WireValue))
    (bytes : List UInt8) : Option (List (Nat × WireValue)) :=
  if bytes.isEmpty then
    if stack.isEmpty then some done.reverse else none
  else
    match _hk : readVarint? bytes with
    | none => none
    | some (key, afterKey) =>
      let number := key.toNat / 8
      let code := if stack.isEmpty && alwaysDelimited number then 2 else key.toNat % 8
      if key.toNat < 4294967296 && key.toNat % 8 < 6 && number != 0 then
        match _ht : readToken? code afterKey with
        | none => none
        | some (.value v, rest) =>
          readOpen? alwaysDelimited depth stack ((number, v) :: done) rest
        | some (.opening, rest) =>
          if stack.length < depth then
            readOpen? alwaysDelimited depth ((number, done) :: stack) [] rest
          else none
        | some (.closing, rest) =>
          match stack with
          | [] => none
          | (opened, before) :: stack =>
            if opened = number then
              readOpen? alwaysDelimited depth stack ((number, .group done.reverse) :: before) rest
            else none
      else none
termination_by bytes.length
decreasing_by
  all_goals
    have h1 := length_of_readVarint? _hk
    have h2 := length_of_readToken? _ht
    omega

/-- The numbered values of a byte sequence, with groups nested at most `depth` deep. -/
def readFields? (alwaysDelimited : Nat → Bool) (depth : Nat) (bytes : List UInt8) :
    Option (List (Nat × WireValue)) :=
  readOpen? alwaysDelimited depth [] [] bytes

end Protoscript
