/-!
# Variable-length integers

The wire format writes a 64-bit number as groups of seven bits, the lowest first, one group a byte;
every byte but the last has its top bit set. A number has at most ten bytes, and the tenth holds one
bit.

* `writeVarint`, `readVarint?` — writing and reading; reading returns what follows;
* `zigzag`, `unzigzag` — signed numbers as unsigned ones, small if their magnitude is.
-/

namespace Protoscript

/-- The groups of seven bits of a number, at most `fuel` of them. -/
def writeGroups : (fuel : Nat) → Nat → List UInt8
  | 0, _ => []
  | fuel + 1, n =>
    if n < 128 then [UInt8.ofNat n] else UInt8.ofNat (n % 128 + 128) :: writeGroups fuel (n / 128)

/-- The bytes of a number. -/
def writeVarint (n : UInt64) : List UInt8 := writeGroups 10 n.toNat

/-- Reads groups of seven bits, of which at most `fuel` may follow, as a number to be shifted left by
`7 * (10 - fuel)` bits. -/
def readGroups? : (fuel : Nat) → List UInt8 → Option (Nat × List UInt8)
  | 0, _ => none
  | _ + 1, [] => none
  | fuel + 1, b :: rest =>
    if b < 128 then
      if fuel = 0 && 1 < b then none else some (b.toNat, rest)
    else
      match readGroups? fuel rest with
      | some (n, rest) => some (b.toNat - 128 + 128 * n, rest)
      | none => none

/-- Reads a number and returns it with what follows. -/
def readVarint? (bytes : List UInt8) : Option (UInt64 × List UInt8) :=
  (readGroups? 10 bytes).map fun r => (UInt64.ofNat r.1, r.2)

theorem length_of_readGroups? {fuel n : Nat} {bytes rest : List UInt8}
    (h : readGroups? fuel bytes = some (n, rest)) : rest.length < bytes.length := by
  induction fuel generalizing n bytes rest with
  | zero => simp [readGroups?] at h
  | succ fuel ih =>
    cases bytes with
    | nil => simp [readGroups?] at h
    | cons b tail =>
      simp only [readGroups?] at h
      split at h
      · split at h
        · simp at h
        · simp only [Option.some.injEq, Prod.mk.injEq] at h
          simp [h.2]
      · split at h
        · next n' rest' hr =>
          simp only [Option.some.injEq, Prod.mk.injEq] at h
          have := ih hr
          obtain ⟨_, rfl⟩ := h
          simp only [List.length_cons]
          omega
        · simp at h

theorem length_of_readVarint? {bytes rest : List UInt8} {n : UInt64}
    (h : readVarint? bytes = some (n, rest)) : rest.length < bytes.length := by
  simp only [readVarint?, Option.map_eq_some_iff, Prod.mk.injEq] at h
  obtain ⟨⟨n', rest'⟩, hr, _, rfl⟩ := h
  exact length_of_readGroups? hr

/-- A signed number as an unsigned one: 0, -1, 1, -2 become 0, 1, 2, 3. -/
def zigzag (n : Int) : Nat := if 0 ≤ n then (2 * n).toNat else (-2 * n - 1).toNat

/-- The signed number that `zigzag` sends to a number. -/
def unzigzag (n : Nat) : Int := if n % 2 = 0 then (n / 2 : Nat) else -((n / 2 : Nat) : Int) - 1

theorem unzigzag_zigzag (n : Int) : unzigzag (zigzag n) = n := by
  unfold zigzag unzigzag
  split <;> split <;> omega

end Protoscript
