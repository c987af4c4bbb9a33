import Protoscript.Json.Number
import Protoscript.Json.ToMessage

/-!
# Decimal texts of integers

An integer is written with as few digits as it has, and what reads decimal texts gives it back: the
readers of integers, and that of numbers in JSON as long as 64 bits hold it.

* `Decimals` — the digits of a number, the first one first;
* `readInt?_toString`, `readUnsigned?_toString` — an integer is read back from its text;
* `JsonNumber.value?_toString` — so is one that fits 64 bits from a number in JSON.
-/

namespace Protoscript

/-! ## Digits -/

/-- Whether a list has the digits of a number, the first one first and not zero unless it is the only
one. -/
structure Decimals (n : Nat) (digits : List Nat) : Prop where
  chars : Nat.toDigits 10 n = digits.map Nat.digitChar
  small : ∀ d ∈ digits, d < 10
  value : digits.foldl (fun n d => n * 10 + d) 0 = n
  first : digits = [0] ∨ ∃ d rest, digits = d :: rest ∧ d ≠ 0

theorem exists_decimals (n : Nat) : ∃ digits, Decimals n digits := by
  -- the last digit comes after those of a tenth of the number
  induction n using Nat.strongRecOn with
  | ind n ih =>
    by_cases hn : n < 10
    · refine ⟨[n], by simp [Nat.toDigits_of_lt_base hn], by simpa using hn, by simp, ?_⟩
      rcases Nat.eq_zero_or_pos n with rfl | hpos
      · exact .inl rfl
      · exact .inr ⟨n, [], rfl, by omega⟩
    · obtain ⟨digits, chars, small, value, first⟩ := ih (n / 10) (by omega)
      refine ⟨digits ++ [n % 10], ?_, ?_, ?_, ?_⟩
      · rw [Nat.toDigits_of_base_le (by omega) (by omega), chars, List.map_append]
        rfl
      · intro d hd
        rcases List.mem_append.1 hd with hd | hd
        · exact small d hd
        · rw [List.mem_singleton.1 hd]
          omega
      · rw [List.foldl_append, value]
        simp only [List.foldl_cons, List.foldl_nil]
        omega
      · rcases first with rfl | ⟨d, rest, rfl, hd⟩
        · simp only [List.foldl_cons, List.foldl_nil] at value
          omega
        · exact .inr ⟨d, rest ++ [n % 10], rfl, hd⟩

theorem Decimals.ne_nil {n : Nat} {digits : List Nat} (h : Decimals n digits) : digits ≠ [] := by
  rcases h.first with rfl | ⟨d, rest, rfl, -⟩ <;> exact List.cons_ne_nil _ _

theorem hexValue?_digitChar {d : Nat} (hd : d < 16) : hexValue? (Nat.digitChar d) = some d := by
  revert hd
  revert d
  decide

theorem radixValue?_digitChar {d : Nat} (hd : d < 10) : radixValue? 10 (Nat.digitChar d) = some d := by
  rw [radixValue?, hexValue?_digitChar (by omega)]
  exact if_pos hd

theorem digitValue?_digitChar {d : Nat} (hd : d < 10) : digitValue? (Nat.digitChar d) = some d := by
  revert hd
  revert d
  decide

/-- A digit is no sign. -/
theorem digitChar_ne_sign {d : Nat} (hd : d < 10) :
    Nat.digitChar d ≠ '-' ∧ Nat.digitChar d ≠ '+' := by
  revert hd
  revert d
  decide

/-! ## Integers -/

theorem readNat?_go_digits {digits : List Nat} (hsmall : ∀ d ∈ digits, d < 10) (value : Nat) :
    readNat?.go 10 value (digits.map Nat.digitChar) =
      some (digits.foldl (fun n d => n * 10 + d) value) := by
  induction digits generalizing value with
  | nil => rfl
  | cons d rest ih =>
    rw [List.map_cons, readNat?.go, radixValue?_digitChar (hsmall d List.mem_cons_self)]
    exact ih (fun e he => hsmall e (List.mem_cons_of_mem d he)) _

/-- A natural number is read back from its digits. -/
theorem readNat?_toDigits (n : Nat) : readNat? 10 (Nat.toDigits 10 n) = some n := by
  obtain ⟨digits, h⟩ := exists_decimals n
  have hgo := readNat?_go_digits h.small 0
  rw [h.value] at hgo
  rw [h.chars]
  rcases hcons : digits with _ | ⟨d, rest⟩
  · exact absurd hcons h.ne_nil
  · rwa [hcons] at hgo

/-- The text of a natural number starts with a digit. -/
theorem toDigits_eq_cons (n : Nat) :
    ∃ c rest, Nat.toDigits 10 n = c :: rest ∧ c ≠ '-' ∧ c ≠ '+' := by
  obtain ⟨digits, h⟩ := exists_decimals n
  rcases hcons : digits with _ | ⟨d, rest⟩
  · exact absurd hcons h.ne_nil
  · refine ⟨_, _, by rw [h.chars, hcons, List.map_cons], ?_⟩
    exact digitChar_ne_sign (h.small d (hcons ▸ List.mem_cons_self))

theorem toList_toString_nat (n : Nat) : (toString n).toList = Nat.toDigits 10 n := Nat.toList_repr

/-- The text of an integer: its digits, after a minus sign if it is negative. -/
theorem toList_toString_int (n : Int) :
    (toString n).toList =
      if n < 0 then '-' :: Nat.toDigits 10 n.natAbs else Nat.toDigits 10 n.natAbs := by
  cases n with
  | ofNat n => exact toList_toString_nat n
  | negSucc n =>
    rw [if_pos (Int.negSucc_lt_zero n)]
    change ("-" ++ (n + 1).repr).toList = _
    rw [String.toList_append, Nat.toList_repr]
    rfl

/-- An integer is read back from its text. -/
theorem readInt?_toString (n : Int) : readInt? 10 (toString n).toList = some n := by
  rw [toList_toString_int]
  split
  · rw [readInt?, readNat?_toDigits]
    exact congrArg some (by omega : -(n.natAbs : Int) = n)
  · obtain ⟨c, rest, hcons, hminus, hplus⟩ := toDigits_eq_cons n.natAbs
    have hread := readNat?_toDigits n.natAbs
    rw [hcons] at hread ⊢
    rw [readInt?, hread]
    · exact congrArg some (by omega : (n.natAbs : Int) = n)
    · rintro _ ⟨⟩
      exact hplus rfl
    · rintro _ ⟨⟩
      exact hminus rfl

/-- A natural number is read back from its text. -/
theorem readUnsigned?_toString (n : Nat) : readUnsigned? 10 (toString n).toList = some n := by
  rw [toList_toString_nat]
  obtain ⟨c, rest, hcons, -, hplus⟩ := toDigits_eq_cons n
  have hread := readNat?_toDigits n
  rw [hcons] at hread ⊢
  rw [readUnsigned?, hread]
  rintro _ ⟨⟩
  exact hplus rfl

/-! ## Numbers in JSON -/

theorem spanDigits_digits {digits : List Nat} (hsmall : ∀ d ∈ digits, d < 10) :
    spanDigits (digits.map Nat.digitChar) = (digits, []) := by
  induction digits with
  | nil => rfl
  | cons d rest ih =>
    rw [List.map_cons, spanDigits, digitValue?_digitChar (hsmall d List.mem_cons_self),
      ih fun e he => hsmall e (List.mem_cons_of_mem d he)]

namespace JsonNumber

theorem le_foldl_digits (digits : List Nat) (value : Nat) :
    value ≤ digits.foldl (fun n d => n * 10 + d) value := by
  induction digits generalizing value with
  | nil => exact Nat.le_refl value
  | cons d rest ih => exact Nat.le_trans (by omega) (ih (value * 10 + d))

/-- All digits are taken if the number that they make fits 64 bits. -/
theorem gather_eq {digits : List Nat} {value : Nat}
    (hfits : digits.foldl (fun n d => n * 10 + d) value < pow2 64) :
    gather value digits = (digits.foldl (fun n d => n * 10 + d) value, digits.length) := by
  induction digits generalizing value with
  | nil => rfl
  | cons d rest ih =>
    have hstep : value * 10 + d < pow2 64 := Nat.lt_of_le_of_lt (le_foldl_digits rest _) hfits
    rw [gather, if_pos hstep, ih hfits]
    rfl

/-- The text of an integer is a number without fraction and exponent. -/
theorem ofChars?_toString (n : Int) : ∃ digits, Decimals n.natAbs digits ∧
    ofChars? (toString n).toList = some ⟨n < 0, digits, none, none⟩ := by
  obtain ⟨digits, h⟩ := exists_decimals n.natAbs
  obtain ⟨c, rest, hcons, hminus, -⟩ := toDigits_eq_cons n.natAbs
  have hspan := spanDigits_digits h.small
  rw [← h.chars, hcons] at hspan
  refine ⟨digits, h, ?_⟩
  rw [toList_toString_int, hcons]
  split
  · rename_i hneg
    simp only [ofChars?, hspan, hneg, decide_true]
    rcases h.first with rfl | ⟨d, rest, rfl, hd⟩
    · rfl
    · obtain ⟨d, rfl⟩ := Nat.exists_eq_succ_of_ne_zero hd
      rfl
  · rename_i hneg
    unfold ofChars?
    split
    rename_i negative cs hsign
    split at hsign
    · rename_i hcs
      cases hcs
      exact absurd rfl hminus
    · cases hsign
      simp only [hspan, hneg, decide_false]
      rcases h.first with rfl | ⟨d, rest, rfl, hd⟩
      · rfl
      · obtain ⟨d, rfl⟩ := Nat.exists_eq_succ_of_ne_zero hd
        rfl

/-- An integer that fits 64 bits is what its text stands for in JSON. -/
theorem value?_toString {n : Int} (hlow : -pow2 63 ≤ n) (hhigh : n < pow2 64) :
    (ofChars? (toString n).toList).bind value? = some (.int n) := by
  obtain ⟨digits, h, hread⟩ := ofChars?_toString n
  have h63 : pow2 63 = 9223372036854775808 := rfl
  have h64 : pow2 64 = 18446744073709551616 := rfl
  have hfits : digits.foldl (fun n d => n * 10 + d) 0 < pow2 64 := by
    rw [h.value]
    omega
  have hall : ((digits.length - digits.length : Nat) : Int) = 0 := by omega
  rw [hread, Option.bind_some, value?, gather_eq hfits, h.value]
  by_cases hneg : n < 0
  · have hrange : ¬ (n.natAbs = 0 ∨ pow2 63 < n.natAbs) := by omega
    simp only [hneg, hall, decide_true, Bool.not_true, Bool.false_eq_true, ne_eq, not_true_eq_false,
      if_false, hrange]
    exact congrArg (some ∘ Json.int) (by omega)
  · simp only [hneg, hall, decide_false, Bool.not_false, ne_eq, not_true_eq_false, if_false, if_true]
    exact congrArg (some ∘ Json.int) (by omega)

end JsonNumber

end Protoscript
