import Protoscript.Proofs.EqualMessages

/-!
# Widening keeps equality

Numbers of one layout lie at one place of its number line if they are one number. Widening changes the
layout, but not the number; so singles are equal if the doubles are that they are widened to.

* `Datum.position?_finite_iff` — equality of places is equality of numbers;
* `Single.equals_toDouble` — widening keeps equality.
-/

namespace Protoscript

/-- The place of a finite number, as a number. -/
theorem Layout.position_finite {L : Layout} {s : Nat} {e : Int} (hs : L.Normal s e) (negative : Bool) :
    (((if negative then -((s : Int) * pow2 (e - L.minExponent).toNat)
      else (s : Int) * pow2 (e - L.minExponent).toNat) : Int) : ℚ) =
      (if negative then -((s : ℚ) * 2 ^ e) else (s : ℚ) * 2 ^ e) * 2 ^ (-L.minExponent) := by
  have hpow : ((pow2 (e - L.minExponent).toNat : Nat) : ℚ) = 2 ^ e * 2 ^ (-L.minExponent) := by
    have hleast := hs.least
    rw [pow2_eq, ← zpow_add₀ (by norm_num), Nat.cast_pow, ← zpow_natCast]
    congr 1
    omega
  split <;> push_cast <;> rw [hpow] <;> ring

/-- Finite numbers of a layout lie at one place if they are one number. -/
theorem Datum.position?_finite_iff {L : Layout} {s t : Nat} {e f : Int} {m n : Bool}
    (hs : L.Normal s e) (ht : L.Normal t f) :
    (Datum.finite m s e).position? L = (Datum.finite n t f).position? L ↔
      (if m then -((s : ℚ) * 2 ^ e) else (s : ℚ) * 2 ^ e) =
        if n then -((t : ℚ) * 2 ^ f) else (t : ℚ) * 2 ^ f := by
  have hunit : (2 : ℚ) ^ (-L.minExponent) ≠ 0 := zpow_ne_zero _ (by norm_num)
  unfold Datum.position?
  rw [Option.some_inj, ← Int.cast_inj (α := ℚ), Layout.position_finite hs, Layout.position_finite ht,
    mul_left_inj' hunit]

theorem Datum.position?_ne_of_infinite {L : Layout} {s : Nat} {e : Int} {m n : Bool} (hs : L.Normal s e)
    (hlt : L.pattern s e < L.infinity) :
    (Datum.infinite n).position? L ≠ (Datum.finite m s e).position? L := by
  have hnear := hs.lt_farPosition hlt
  unfold Datum.position?
  rw [Ne, Option.some_inj]
  push_cast at hnear
  have hpos : (0 : Int) ≤ (s : Int) * pow2 (e - L.minExponent).toNat := by positivity
  cases m <;> cases n <;> simp only [Bool.false_eq_true, if_false, if_true] <;> omega

theorem Datum.position?_infinite_iff {L : Layout} {m n : Bool} :
    (Datum.infinite m).position? L = (Datum.infinite n).position? L ↔ m = n := by
  have hfar : 0 < L.farPosition := Int.natCast_pos.2 (pow2_pos _)
  unfold Datum.position?
  rw [Option.some_inj]
  cases m <;> cases n <;> simp only [Bool.false_eq_true, if_false, if_true] <;> constructor <;>
    intro h <;> first | rfl | omega | cases h

/-- **Widening keeps equality.** -/
theorem Single.equals_toDouble (x y : Single) : x.toDouble.equals y.toDouble = x.equals y := by
  have hsingle {x y : Single} : x.equals y = true ↔
      x.datum ≠ .nan ∧ x.datum.position? Layout.binary32 = y.datum.position? Layout.binary32 := by
    rw [equals_iff]
    unfold position?
    rcases x.datum <;> simp [Datum.position?, eq_comm]
  have hdouble {x y : Double} : x.equals y = true ↔
      x.datum ≠ .nan ∧ x.datum.position? Layout.binary64 = y.datum.position? Layout.binary64 := by
    rw [Double.equals_iff]
    unfold Double.position?
    rcases x.datum <;> simp [Datum.position?, eq_comm]
  rw [Bool.eq_iff_iff, hsingle, hdouble]
  -- both formats are compared by the positions of their numbers
  rcases hx : x.datum with _ | m | ⟨m, s, e⟩
  · rw [datum_toDouble_of_nan hx]
    simp
  · rw [datum_toDouble_of_infinite hx]
    rcases hy : y.datum with _ | n | ⟨n, t, f⟩
    · rw [datum_toDouble_of_nan hy]
      simp [Datum.position?]
    · rw [datum_toDouble_of_infinite hy, Datum.position?_infinite_iff, Datum.position?_infinite_iff]
    · obtain ⟨t', f', hy', ht', hlt', -⟩ := datum_toDouble_of_finite hy
      obtain ⟨ht, hlt, -⟩ := Layout.pattern_of_datum y.bits_lt hy
      rw [hy']
      simp [Datum.position?_ne_of_infinite ht hlt, Datum.position?_ne_of_infinite ht' hlt']
  · obtain ⟨s', e', hx', hs', hlt', hse⟩ := datum_toDouble_of_finite hx
    obtain ⟨hs, hlt, -⟩ := Layout.pattern_of_datum x.bits_lt hx
    rw [hx']
    rcases hy : y.datum with _ | n | ⟨n, t, f⟩
    · rw [datum_toDouble_of_nan hy]
      simp [Datum.position?]
    · rw [datum_toDouble_of_infinite hy]
      simp [(Datum.position?_ne_of_infinite hs hlt).symm, (Datum.position?_ne_of_infinite hs' hlt').symm]
    · obtain ⟨t', f', hy', ht', -, htf⟩ := datum_toDouble_of_finite hy
      obtain ⟨ht, -, -⟩ := Layout.pattern_of_datum y.bits_lt hy
      rw [hy', Datum.position?_finite_iff hs ht, Datum.position?_finite_iff hs' ht', hse, htf]
      simp

end Protoscript
