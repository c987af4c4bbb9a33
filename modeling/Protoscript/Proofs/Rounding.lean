import Protoscript.Number.Double
import Mathlib.Algebra.Order.Field.Power
import Mathlib.Data.Rat.Cast.Order
import Mathlib.Tactic.Linarith
import Mathlib.Tactic.Positivity
import Mathlib.Tactic.Ring

/-!
# Numbers that need no rounding

A ratio that a layout can represent is rounded to itself, so a single that is widened to a double and
narrowed again is the single that it was. Only the bits of a NaN may change.

* `Layout.Normal` — significands and exponents that patterns have, one for each magnitude;
* `Layout.nearest_of_normal` — the nearest pattern of a ratio that there is a pattern for;
* `Single.toSingle_toDouble`, `Single.isNaN_toSingle_toDouble` — a single after widening and
  narrowing.
-/

namespace Protoscript

theorem pow2_eq (n : Nat) : pow2 n = 2 ^ n := rfl

theorem pow2_add (m n : Nat) : pow2 (m + n) = pow2 m * pow2 n := Nat.pow_add 2 m n

/-- A power of two with an integer exponent, as a ratio of two natural ones. -/
theorem pow2_toNat (e : Int) : (pow2 e.toNat : ℚ) = 2 ^ e * pow2 (-e).toNat := by
  have hcast (n : Nat) : (pow2 n : ℚ) = 2 ^ (n : Int) := by
    rw [pow2_eq, Nat.cast_pow, zpow_natCast]
    rfl
  rw [hcast, hcast, ← zpow_add₀ (by norm_num)]
  congr 1
  omega

/-! ## Rounding -/

theorem roundHalfEven_mul {n den : Nat} (hden : 0 < den) : roundHalfEven (n * den) den = n := by
  unfold roundHalfEven
  rw [Nat.mul_div_cancel n hden, Nat.mul_mod_left]
  have hne : (0 == den) = false := by
    rw [beq_eq_false_iff_ne]
    omega
  simp [hne]

/-- Comparing a ratio with a power of two. -/
theorem le_ratio_iff {num den : Nat} (e : Int) :
    den * pow2 e.toNat ≤ num * pow2 (-e).toNat ↔ (2 : ℚ) ^ e * den ≤ num := by
  have hpos : (0 : ℚ) < pow2 (-e).toNat := Nat.cast_pos.2 (pow2_pos _)
  rw [← Nat.cast_le (α := ℚ), Nat.cast_mul, Nat.cast_mul, pow2_toNat e, ← mul_assoc, mul_comm (den : ℚ)]
  exact mul_le_mul_iff_of_pos_right hpos

/-- The power of two at or below a ratio is given by its bounds. -/
theorem floorLog2_eq {num den : Nat} {k : Int} (hnum : 0 < num) (hden : 0 < den)
    (hlow : (2 : ℚ) ^ k * den ≤ num) (hhigh : (num : ℚ) < 2 ^ (k + 1) * den) :
    floorLog2 num den = k := by
  have hdenpos : (0 : ℚ) < den := Nat.cast_pos.2 hden
  have below {j : Int} (h : (2 : ℚ) ^ j * den ≤ num) : j ≤ k := by
    have hlt := (mul_lt_mul_iff_of_pos_right hdenpos).1 (h.trans_lt hhigh)
    have := (zpow_lt_zpow_iff_right₀ (by norm_num)).1 hlt
    omega
  have above {j : Int} (h : (num : ℚ) < 2 ^ (j + 1) * den) : k ≤ j := by
    have hlt := (mul_lt_mul_iff_of_pos_right hdenpos).1 (hlow.trans_lt h)
    have := (zpow_lt_zpow_iff_right₀ (by norm_num)).1 hlt
    omega
  have hcast (n : Nat) : (2 : ℚ) ^ (n : Int) = ((2 ^ n : Nat) : ℚ) := by
    rw [zpow_natCast]
    push_cast
    rfl
  -- the guess is right, or one too large
  have hguess : (2 : ℚ) ^ ((Nat.log2 num : Int) - Nat.log2 den - 1) * den ≤ num := by
    have hn : ((2 ^ num.log2 : Nat) : ℚ) ≤ num := Nat.cast_le.2 (Nat.log2_self_le hnum.ne')
    have hd : (den : ℚ) ≤ (2 ^ (den.log2 + 1) : Nat) := Nat.cast_le.2 Nat.lt_log2_self.le
    refine le_trans ?_ hn
    calc (2 : ℚ) ^ ((Nat.log2 num : Int) - Nat.log2 den - 1) * den
        ≤ 2 ^ ((Nat.log2 num : Int) - Nat.log2 den - 1) * (2 ^ (den.log2 + 1) : Nat) :=
          mul_le_mul_of_nonneg_left hd (zpow_nonneg (by norm_num) _)
      _ = (2 ^ num.log2 : Nat) := by
          rw [← hcast, ← hcast, ← zpow_add₀ (by norm_num)]
          congr 1
          omega
  have hover : (num : ℚ) < 2 ^ ((Nat.log2 num : Int) - Nat.log2 den + 1) * den := by
    have hn : (num : ℚ) < (2 ^ (num.log2 + 1) : Nat) := Nat.cast_lt.2 Nat.lt_log2_self
    have hd : ((2 ^ den.log2 : Nat) : ℚ) ≤ den := Nat.cast_le.2 (Nat.log2_self_le hden.ne')
    refine hn.trans_le ?_
    calc ((2 ^ (num.log2 + 1) : Nat) : ℚ)
        = 2 ^ ((Nat.log2 num : Int) - Nat.log2 den + 1) * (2 ^ den.log2 : Nat) := by
          rw [← hcast, ← hcast, ← zpow_add₀ (by norm_num)]
          congr 1
          omega
      _ ≤ 2 ^ ((Nat.log2 num : Int) - Nat.log2 den + 1) * den :=
          mul_le_mul_of_nonneg_left hd (zpow_nonneg (by norm_num) _)
  unfold floorLog2
  simp only [le_ratio_iff]
  split
  · rename_i hle
    exact le_antisymm (below hle) (above hover)
  · rename_i hnot
    refine le_antisymm (below hguess) (above ?_)
    rw [sub_add_cancel]
    exact lt_of_not_ge hnot

namespace Layout

variable (L : Layout)

theorem fractionUnit_pos : 0 < L.fractionUnit := pow2_pos _

theorem topExponent_succ : L.topExponent + 1 = pow2 L.exponentBits := by
  have := pow2_pos L.exponentBits
  unfold topExponent
  omega

theorem signUnit_eq : L.signUnit = L.fractionUnit * (L.topExponent + 1) := by
  rw [topExponent_succ]
  exact pow2_add _ _

/-- Whether a magnitude is written the way patterns write it: with a full significand, or with the
least exponent. -/
structure Normal (significand : Nat) (exponent : Int) : Prop where
  bound : significand < 2 * L.fractionUnit
  least : L.minExponent ≤ exponent
  full : L.fractionUnit ≤ significand ∨ exponent = L.minExponent

/-- The pattern of a magnitude. -/
def pattern (significand : Nat) (exponent : Int) : Nat :=
  if significand < L.fractionUnit then significand
  else (exponent - L.minExponent + 1).toNat * L.fractionUnit + (significand - L.fractionUnit)

variable {L} {significand : Nat} {exponent : Int}

/-- **A ratio that has a pattern is rounded to it.** -/
theorem nearest_of_normal {num den : Nat} (hden : 0 < den) (hn : L.Normal significand exponent)
    (h : (num : ℚ) = significand * 2 ^ exponent * den) :
    L.nearest num den = min (L.pattern significand exponent) L.infinity := by
  have hdenpos : (0 : ℚ) < den := Nat.cast_pos.2 hden
  have htwo : (0 : ℚ) < 2 ^ exponent := zpow_pos (by norm_num) _
  rcases Nat.eq_zero_or_pos significand with rfl | hpos
  · have hzero : num = 0 := by
      rw [← Nat.cast_eq_zero (R := ℚ), h]
      simp
    have hunit : 0 < L.fractionUnit := L.fractionUnit_pos
    simp [nearest, hzero, pattern, hunit]
  have hnum : 0 < num := by
    rw [← Nat.cast_pos (α := ℚ), h]
    positivity
  -- the exponent that is chosen is the one of the pattern
  have hlog : floorLog2 num den = exponent + significand.log2 := by
    have hlow : ((2 ^ significand.log2 : Nat) : ℚ) ≤ significand :=
      Nat.cast_le.2 (Nat.log2_self_le hpos.ne')
    have hhigh : (significand : ℚ) < (2 ^ (significand.log2 + 1) : Nat) :=
      Nat.cast_lt.2 Nat.lt_log2_self
    refine floorLog2_eq hnum hden ?_ ?_
    · rw [h, zpow_add₀ (by norm_num), zpow_natCast, mul_comm (_ ^ exponent)]
      push_cast at hlow
      gcongr
    · rw [h, add_assoc, zpow_add₀ (by norm_num), mul_comm (_ ^ exponent)]
      push_cast at hhigh
      have hcast : (2 : ℚ) ^ ((significand.log2 : Int) + 1) = 2 ^ (significand.log2 + 1) := by
        rw [← zpow_natCast]
        rfl
      rw [hcast]
      gcongr
  have hchosen : max (floorLog2 num den - (L.fractionBits : Int)) L.minExponent = exponent := by
    have hbound : significand.log2 < L.fractionBits + 1 := by
      rw [Nat.log2_lt hpos.ne', Nat.pow_succ, mul_comm]
      exact hn.bound
    rw [hlog]
    rcases hn.full with hfull | rfl
    · have hle : L.fractionBits ≤ significand.log2 := (Nat.le_log2 hpos.ne').2 hfull
      have := hn.least
      omega
    · omega
  have hsignificand : roundHalfEven (num * pow2 (-exponent).toNat) (den * pow2 exponent.toNat) =
      significand := by
    have heq : num * pow2 (-exponent).toNat = significand * (den * pow2 exponent.toNat) := by
      rw [← Nat.cast_inj (R := ℚ)]
      push_cast
      rw [h, pow2_toNat exponent]
      ring
    rw [heq]
    exact roundHalfEven_mul (Nat.mul_pos hden (pow2_pos _))
  have hne : (num == 0) = false := by
    rw [beq_eq_false_iff_ne]
    omega
  unfold nearest
  simp only [hne, hchosen, hsignificand]
  rfl

section

variable {negative : Bool} {field fraction : Nat} (hfield : field ≤ L.topExponent)
  (hfraction : fraction < L.fractionUnit)

include hfield hfraction

theorem magnitude_lt : field * L.fractionUnit + fraction < L.signUnit := by
  rw [signUnit_eq]
  calc field * L.fractionUnit + fraction
      < (field + 1) * L.fractionUnit := by rw [Nat.succ_mul]; omega
    _ ≤ (L.topExponent + 1) * L.fractionUnit := Nat.mul_le_mul_right _ (by omega)
    _ = L.fractionUnit * (L.topExponent + 1) := Nat.mul_comm _ _

theorem isNegative_signed :
    L.isNegative (L.signed negative (field * L.fractionUnit + fraction)) = negative := by
  have hlt := magnitude_lt hfield hfraction
  have hpos : 0 < L.signUnit := by omega
  unfold isNegative signed
  cases negative
  · simp [Nat.div_eq_of_lt hlt]
  · simp [Nat.add_div_right _ hpos, Nat.div_eq_of_lt hlt]

omit hfield in
theorem fraction_signed :
    L.fraction (L.signed negative (field * L.fractionUnit + fraction)) = fraction := by
  unfold Layout.fraction signed
  have hmod : (field * L.fractionUnit + fraction) % L.fractionUnit = fraction := by
    rw [Nat.mul_add_mod_self_right, Nat.mod_eq_of_lt hfraction]
  split
  · rw [signUnit_eq, Nat.add_mul_mod_self_left, hmod]
  · exact hmod

theorem exponentField_signed :
    L.exponentField (L.signed negative (field * L.fractionUnit + fraction)) = field := by
  have hpos := L.fractionUnit_pos
  have hdiv : (field * L.fractionUnit + fraction) / L.fractionUnit = field := by
    rw [Nat.mul_comm, Nat.mul_add_div hpos, Nat.div_eq_of_lt hfraction, Nat.add_zero]
  unfold exponentField signed
  split
  · rw [signUnit_eq, Nat.add_mul_div_left _ _ hpos, hdiv, Nat.add_mod_right,
      Nat.mod_eq_of_lt (Nat.lt_succ_of_le hfield)]
  · rw [hdiv, Nat.mod_eq_of_lt (Nat.lt_succ_of_le hfield)]

/-- What a pattern stands for, by its fields. -/
theorem datum_signed : L.datum (L.signed negative (field * L.fractionUnit + fraction)) =
    if field == L.topExponent then if fraction == 0 then .infinite negative else .nan
    else if field == 0 then .finite negative fraction L.minExponent
    else .finite negative (fraction + L.fractionUnit) (L.minExponent + ((field : Int) - 1)) := by
  unfold datum
  rw [isNegative_signed hfield hfraction, fraction_signed hfraction,
    exponentField_signed hfield hfraction]

end

/-- A pattern is its sign, its exponent field and its fraction. -/
theorem eq_signed {bits : Nat} (hbits : bits < 2 * L.signUnit) :
    bits = L.signed (L.isNegative bits) (L.exponentField bits * L.fractionUnit + L.fraction bits) := by
  have hlow : L.exponentField bits * L.fractionUnit + L.fraction bits = bits % L.signUnit := by
    rw [signUnit_eq, Nat.mod_mul, Nat.mul_comm, Nat.add_comm]
    rfl
  have hdiv : bits / L.signUnit < 2 := Nat.div_lt_of_lt_mul (by rwa [Nat.mul_comm])
  have hsplit := Nat.div_add_mod bits L.signUnit
  rw [hlow]
  unfold signed isNegative
  rcases Nat.le_one_iff_eq_zero_or_eq_one.1 (Nat.le_of_lt_succ hdiv) with hzero | hone
  · rw [hzero, Nat.mul_zero] at hsplit
    simp [hzero]
    omega
  · rw [hone, Nat.mul_one] at hsplit
    simp [hone]
    omega

/-- A magnitude of a layout, by its fields. -/
theorem Normal.fields (hn : L.Normal significand exponent)
    (hlt : L.pattern significand exponent < L.infinity) :
    ∃ field fraction, field < L.topExponent ∧ fraction < L.fractionUnit ∧
      L.pattern significand exponent = field * L.fractionUnit + fraction ∧
      (field = 0 ∧ significand = fraction ∧ exponent = L.minExponent ∨
        0 < field ∧ significand = fraction + L.fractionUnit ∧
          exponent = L.minExponent + ((field : Int) - 1)) := by
  obtain ⟨hbound, hleast, hfull⟩ := hn
  unfold pattern at hlt ⊢
  split
  · rename_i hsmall
    rw [if_pos hsmall] at hlt
    have htop : 0 < L.topExponent := Nat.pos_of_mul_pos_right (Nat.zero_lt_of_lt hlt)
    refine ⟨0, significand, htop, hsmall, by omega, .inl ⟨rfl, rfl, ?_⟩⟩
    exact hfull.resolve_left (by omega)
  · rename_i hlarge
    rw [if_neg hlarge] at hlt
    have hfield : (exponent - L.minExponent + 1).toNat * L.fractionUnit < L.infinity := by omega
    refine ⟨(exponent - L.minExponent + 1).toNat, significand - L.fractionUnit,
      Nat.lt_of_mul_lt_mul_right hfield, by omega, rfl, .inr ⟨by omega, by omega, by omega⟩⟩

/-- The pattern of a magnitude stands for it. -/
theorem datum_pattern (negative : Bool) (hn : L.Normal significand exponent)
    (hlt : L.pattern significand exponent < L.infinity) :
    L.datum (L.signed negative (L.pattern significand exponent)) =
      .finite negative significand exponent := by
  obtain ⟨field, fraction, hfield, hfraction, heq, hcase⟩ := hn.fields hlt
  rw [heq, datum_signed hfield.le hfraction]
  have hne : (field == L.topExponent) = false := beq_eq_false_iff_ne.2 hfield.ne
  rw [hne]
  rcases hcase with ⟨rfl, rfl, rfl⟩ | ⟨hpos, rfl, rfl⟩
  · rfl
  · have hne : (field == 0) = false := beq_eq_false_iff_ne.2 hpos.ne'
    rw [hne]
    rfl

/-- A finite pattern is the one of the magnitude that it stands for. -/
theorem pattern_of_datum {bits : Nat} {negative : Bool} (hbits : bits < 2 * L.signUnit)
    (h : L.datum bits = .finite negative significand exponent) :
    L.Normal significand exponent ∧ L.pattern significand exponent < L.infinity ∧
      bits = L.signed negative (L.pattern significand exponent) := by
  have hfraction : L.fraction bits < L.fractionUnit := Nat.mod_lt _ L.fractionUnit_pos
  have hbound : L.exponentField bits < L.topExponent + 1 := Nat.mod_lt _ (Nat.succ_pos _)
  have hsplit := eq_signed hbits
  unfold datum at h
  dsimp only at h
  split at h
  · split at h <;> cases h
  rename_i htop
  have htop : L.exponentField bits < L.topExponent := by
    rw [beq_iff_eq] at htop
    omega
  have hmul : (L.exponentField bits + 1) * L.fractionUnit ≤ L.infinity :=
    Nat.mul_le_mul_right _ htop
  rw [Nat.succ_mul] at hmul
  split at h
  · rename_i hzero
    rw [beq_iff_eq] at hzero
    cases h
    -- a subnormal number: no leading bit
    have hpattern : L.pattern (L.fraction bits) L.minExponent = L.fraction bits := if_pos hfraction
    refine ⟨⟨by omega, Int.le_refl _, .inr rfl⟩, by omega, ?_⟩
    rw [hpattern]
    rwa [hzero, Nat.zero_mul, Nat.zero_add] at hsplit
  · rename_i hne
    -- a normal number: the leading bit is implied
    have hpos : 0 < L.exponentField bits := by
      rw [beq_iff_eq] at hne
      omega
    cases h
    have hpattern : L.pattern (L.fraction bits + L.fractionUnit)
        (L.minExponent + ((L.exponentField bits : Int) - 1)) =
        L.exponentField bits * L.fractionUnit + L.fraction bits := by
      have hfield : (L.minExponent + ((L.exponentField bits : Int) - 1) - L.minExponent + 1).toNat =
          L.exponentField bits := by omega
      unfold pattern
      rw [if_neg (by omega), hfield, Nat.add_sub_cancel]
    refine ⟨⟨by omega, by omega, .inl (by omega)⟩, by omega, ?_⟩
    rwa [hpattern]

/-- An infinite pattern has a full exponent field and no fraction. -/
theorem eq_signed_of_infinite {bits : Nat} {negative : Bool} (hbits : bits < 2 * L.signUnit)
    (h : L.datum bits = .infinite negative) : bits = L.signed negative L.infinity := by
  have hsplit := eq_signed hbits
  unfold datum at h
  dsimp only at h
  split at h
  · rename_i htop
    split at h
    · rename_i hzero
      cases h
      rw [beq_iff_eq] at htop hzero
      rwa [htop, hzero, Nat.add_zero] at hsplit
    · cases h
  · split at h <;> cases h

/-- A pattern with a full exponent field and some fraction is a NaN. -/
theorem datum_nan {negative : Bool} {fraction : Nat} (hpos : 0 < fraction)
    (hfraction : fraction < L.fractionUnit) :
    L.datum (L.signed negative (L.infinity + fraction)) = .nan := by
  have hne : (fraction == 0) = false := beq_eq_false_iff_ne.2 hpos.ne'
  rw [infinity, datum_signed (Nat.le_refl _) hfraction, hne]
  simp

end Layout

/-! ## Singles -/

theorem Double.toNat_bits_ofMagnitude {negative : Bool} {magnitude : Nat}
    (h : magnitude < Layout.binary64.signUnit) :
    (Double.ofMagnitude negative magnitude).bits.toNat = Layout.binary64.signed negative magnitude := by
  have hunit : Layout.binary64.signUnit = 2 ^ 63 := rfl
  unfold ofMagnitude
  rw [UInt64.toNat_ofNat']
  refine Nat.mod_eq_of_lt ?_
  unfold Layout.signed
  split <;> omega

theorem Single.toNat_bits_ofMagnitude {negative : Bool} {magnitude : Nat}
    (h : magnitude < Layout.binary32.signUnit) :
    (Single.ofMagnitude negative magnitude).bits.toNat = Layout.binary32.signed negative magnitude := by
  have hunit : Layout.binary32.signUnit = 2 ^ 31 := rfl
  unfold ofMagnitude
  rw [UInt32.toNat_ofNat']
  refine Nat.mod_eq_of_lt ?_
  unfold Layout.signed
  split <;> omega

theorem Single.bits_lt (x : Single) : x.bits.toNat < 2 * Layout.binary32.signUnit := x.bits.toNat_lt

/-- A single is given by its sign and its magnitude. -/
theorem Single.eq_ofMagnitude {x : Single} {negative : Bool} {magnitude : Nat}
    (h : x.bits.toNat = Layout.binary32.signed negative magnitude) :
    x = .ofMagnitude negative magnitude := by
  obtain ⟨bits⟩ := x
  unfold ofMagnitude
  rw [← h, UInt32.ofNat_toNat]

/-- A finite magnitude is the ratio that it is written as. -/
theorem Datum.ratio_eq (significand : Nat) (exponent : Int) :
    ((ratio significand exponent).1 : ℚ) = significand * 2 ^ exponent * (ratio significand exponent).2 := by
  unfold ratio
  push_cast
  rw [pow2_toNat exponent]
  ring

/-- A finite magnitude of a single is one of doubles, written with a longer significand. -/
theorem Layout.exists_normal_binary64 {significand : Nat} {exponent : Int}
    (hn : binary32.Normal significand exponent)
    (hlt : binary32.pattern significand exponent < binary32.infinity) :
    ∃ s e, binary64.Normal s e ∧ binary64.pattern s e < binary64.infinity ∧
      (s : ℚ) * 2 ^ e = significand * 2 ^ exponent := by
  have hunit : binary64.fractionUnit = 2 ^ 52 := rfl
  have hleast : binary64.minExponent = -1074 := rfl
  have hinfinity : binary64.infinity = 2047 * 2 ^ 52 := rfl
  rcases Nat.eq_zero_or_pos significand with rfl | hpos
  · refine ⟨0, -1074, ⟨by omega, by omega, .inr hleast.symm⟩, ?_, by simp⟩
    rw [pattern, if_pos (by omega)]
    omega
  have hbound : significand < 2 ^ 24 := hn.bound
  have hlow : -149 ≤ exponent := hn.least
  have hhigh : exponent ≤ 104 := by
    obtain ⟨field, fraction, hfield, -, -, hcase⟩ := hn.fields hlt
    have htop : field < 255 := hfield
    have hleast : binary32.minExponent = -149 := rfl
    rcases hcase with ⟨-, -, hexp⟩ | ⟨-, -, hexp⟩ <;> omega
  -- as many zeros as make the significand full
  obtain ⟨k, hk⟩ : ∃ k, significand.log2 + k = 52 :=
    ⟨52 - significand.log2, by have := (Nat.log2_lt hpos.ne').2 hbound; omega⟩
  have hfull : 2 ^ 52 ≤ significand * 2 ^ k := by
    rw [← hk, pow_add]
    exact Nat.mul_le_mul_right _ (Nat.log2_self_le hpos.ne')
  have hshort : significand * 2 ^ k < 2 ^ 53 := by
    have hsucc : 53 = significand.log2 + 1 + k := by omega
    rw [hsucc, pow_add]
    exact Nat.mul_lt_mul_of_pos_right Nat.lt_log2_self (Nat.two_pow_pos k)
  refine ⟨significand * 2 ^ k, exponent - k, ⟨by omega, by omega, .inl (by omega)⟩, ?_, ?_⟩
  · have hfield : (exponent - k - binary64.minExponent + 1).toNat ≤ 2046 := by omega
    have := Nat.mul_le_mul_right binary64.fractionUnit hfield
    rw [pattern, if_neg (by omega)]
    omega
  · push_cast
    rw [mul_assoc, ← zpow_natCast, ← zpow_add₀ (by norm_num)]
    congr 2
    omega

namespace Single

variable {x : Single} {negative : Bool}

/-! ### Widening -/

/-- A NaN is widened to a NaN. -/
theorem datum_toDouble_of_nan (hdatum : x.datum = .nan) : x.toDouble.datum = .nan := by
  -- the quiet bit keeps the fraction from being zero
  obtain ⟨negative, fraction, hpos, hfraction, hwide⟩ : ∃ negative fraction, 0 < fraction ∧
      fraction < Layout.binary64.fractionUnit ∧
      x.toDouble = .ofMagnitude negative (Layout.binary64.infinity + fraction) := by
    refine ⟨Layout.binary32.isNegative x.bits.toNat,
      Layout.binary32.fraction x.bits.toNat * pow2 29 ||| Layout.binary64.quietBit,
      Nat.lt_of_lt_of_le (by decide) Nat.right_le_or, Nat.or_lt_two_pow (n := 52) ?_ (by decide), ?_⟩
    · have hlt : Layout.binary32.fraction x.bits.toNat < 2 ^ 23 := Nat.mod_lt _ (by decide)
      have htwo : pow2 29 = 2 ^ 29 := rfl
      rw [htwo]
      omega
    · unfold toDouble
      rw [hdatum]
      rfl
  have hsign : Layout.binary64.infinity + fraction < Layout.binary64.signUnit := by
    have hunit : Layout.binary64.infinity + Layout.binary64.fractionUnit =
      Layout.binary64.signUnit := rfl
    omega
  unfold Double.datum
  rw [hwide, Double.toNat_bits_ofMagnitude hsign, Layout.datum_nan hpos hfraction]

/-- An infinity is widened to an infinity of the same sign. -/
theorem datum_toDouble_of_infinite (hdatum : x.datum = .infinite negative) :
    x.toDouble.datum = .infinite negative := by
  have hinfinity : Layout.binary64.infinity = Layout.binary64.topExponent *
      Layout.binary64.fractionUnit + 0 := rfl
  have hwide : x.toDouble = .infinite negative := by
    unfold toDouble
    rw [hdatum]
  unfold Double.datum
  rw [hwide, Double.infinite, Double.toNat_bits_ofMagnitude (by decide), hinfinity,
    Layout.datum_signed (Nat.le_refl _) Layout.binary64.fractionUnit_pos]
  rfl

/-- A finite magnitude is widened to the same magnitude. -/
theorem datum_toDouble_of_finite {significand : Nat} {exponent : Int}
    (hdatum : x.datum = .finite negative significand exponent) :
    ∃ s e, x.toDouble.datum = .finite negative s e ∧ Layout.binary64.Normal s e ∧
      Layout.binary64.pattern s e < Layout.binary64.infinity ∧
      (s : ℚ) * 2 ^ e = significand * 2 ^ exponent := by
  obtain ⟨hn, hlt, -⟩ := Layout.pattern_of_datum x.bits_lt hdatum
  obtain ⟨s, e, hn', hlt', heq⟩ := Layout.exists_normal_binary64 hn hlt
  have hwide : x.toDouble = .ofMagnitude negative (Layout.binary64.pattern s e) := by
    unfold toDouble
    rw [hdatum]
    refine congrArg (Double.ofMagnitude negative) ?_
    refine (Layout.nearest_of_normal (pow2_pos _) hn' ?_).trans (Nat.min_eq_left hlt'.le)
    rw [heq]
    exact Datum.ratio_eq _ _
  have hsign : Layout.binary64.pattern s e < Layout.binary64.signUnit := hlt'.trans_le (by decide)
  refine ⟨s, e, ?_, hn', hlt', heq⟩
  unfold Double.datum
  rw [hwide, Double.toNat_bits_ofMagnitude hsign, Layout.datum_pattern negative hn' hlt']

/-! ### Narrowing -/

/-- **A single that is no NaN stays as it is** when it is widened and narrowed. -/
theorem toSingle_toDouble (hx : x.isNaN = false) : x.toDouble.toSingle = x := by
  rcases hdatum : x.datum with _ | negative | ⟨negative, significand, exponent⟩
  · simp [isNaN, hdatum] at hx
  · have hnarrow : x.toDouble.toSingle = .ofMagnitude negative Layout.binary32.infinity := by
      unfold Double.toSingle
      rw [datum_toDouble_of_infinite hdatum]
    rw [hnarrow]
    exact (eq_ofMagnitude (Layout.eq_signed_of_infinite x.bits_lt hdatum)).symm
  · obtain ⟨hn, hlt, hbits⟩ := Layout.pattern_of_datum x.bits_lt hdatum
    obtain ⟨s, e, hdatum', -, -, heq⟩ := datum_toDouble_of_finite hdatum
    have hnarrow : x.toDouble.toSingle =
        .ofMagnitude negative (Layout.binary32.pattern significand exponent) := by
      unfold Double.toSingle
      rw [hdatum']
      refine congrArg (Single.ofMagnitude negative) ?_
      refine (Layout.nearest_of_normal (pow2_pos _) hn ?_).trans (Nat.min_eq_left hlt.le)
      rw [← heq]
      exact Datum.ratio_eq _ _
    rw [hnarrow]
    exact (eq_ofMagnitude hbits).symm

/-- A NaN stays a NaN when it is widened and narrowed. -/
theorem isNaN_toSingle_toDouble (hx : x.isNaN = true) : x.toDouble.toSingle.isNaN = true := by
  have hdatum : x.datum = .nan := by
    unfold isNaN at hx
    exact beq_iff_eq.1 hx
  have hdatum' := datum_toDouble_of_nan hdatum
  obtain ⟨negative', fraction', hpos', hfraction', hnarrow⟩ : ∃ negative fraction, 0 < fraction ∧
      fraction < Layout.binary32.fractionUnit ∧
      x.toDouble.toSingle = .ofMagnitude negative (Layout.binary32.infinity + fraction) := by
    refine ⟨Layout.binary64.isNegative x.toDouble.bits.toNat,
      Layout.binary64.fraction x.toDouble.bits.toNat / pow2 29 ||| Layout.binary32.quietBit,
      Nat.lt_of_lt_of_le (by decide) Nat.right_le_or, Nat.or_lt_two_pow (n := 23) ?_ (by decide), ?_⟩
    · have hlt : Layout.binary64.fraction x.toDouble.bits.toNat < 2 ^ 52 := Nat.mod_lt _ (by decide)
      exact Nat.div_lt_of_lt_mul hlt
    · unfold Double.toSingle
      rw [hdatum']
      rfl
  have hsign' : Layout.binary32.infinity + fraction' < Layout.binary32.signUnit := by
    have hunit : Layout.binary32.infinity + Layout.binary32.fractionUnit =
      Layout.binary32.signUnit := rfl
    omega
  unfold isNaN Single.datum
  rw [hnarrow, Single.toNat_bits_ofMagnitude hsign', Layout.datum_nan hpos' hfraction']
  rfl

end Single

end Protoscript
