import Protoscript.Script.Hash
import Protoscript.Proofs.Rounding

/-!
# Integers and whole doubles

Two doubles that lie at one place of the number line are one pattern, but for the two zeros, so they are
whole both or neither and are truncated alike. The double that an integer of 128 bits is rounded to is
whole; it is the integer itself if this has no more than 53 bits, and at least as far from zero as
`2 ^ 53` if not.

* `Layout.Normal.unique` — a magnitude is written in one way only;
* `Double.datum_of_equals` — what doubles stand for that lie at one place;
* `Double.datum_ofInt` — the double that an integer is rounded to;
* `Double.Faithful` — whether an integer that is rounded to a double is the one that the double is
  hashed as; `Double.faithful_ofInt` — this is so below `2 ^ 53`.
-/

namespace Protoscript

theorem pow2_le_pow2 {m n : Nat} (h : m ≤ n) : pow2 m ≤ pow2 n := Nat.pow_le_pow_right (by decide) h

namespace Layout

variable {L : Layout}

/-- **A magnitude is written in one way only.** -/
theorem Normal.unique {s t : Nat} {e f : Int} (hs : L.Normal s e) (ht : L.Normal t f)
    (h : s * pow2 (e - L.minExponent).toNat = t * pow2 (f - L.minExponent).toNat) : s = t ∧ e = f := by
  -- a larger exponent comes with a full significand, which makes the magnitude too large
  have no_less {s t : Nat} {e f : Int} (hs : L.Normal s e) (ht : L.Normal t f)
      (h : s * pow2 (e - L.minExponent).toNat = t * pow2 (f - L.minExponent).toNat) : ¬ e < f := by
    intro hef
    have hleast := hs.least
    have hfull : L.fractionUnit ≤ t := ht.full.resolve_right (by omega)
    obtain ⟨k, hk⟩ : ∃ k, (f - L.minExponent).toNat = k + 1 + (e - L.minExponent).toNat :=
      ⟨(f - e).toNat - 1, by omega⟩
    rw [hk, pow2_add, ← Nat.mul_assoc] at h
    have heq := Nat.eq_of_mul_eq_mul_right (pow2_pos _) h
    have hlarge : t * 2 ≤ t * pow2 (k + 1) :=
      Nat.mul_le_mul_left _ (pow2_le_pow2 (by omega : 1 ≤ k + 1))
    have hbound := hs.bound
    omega
  have hexp : e = f := by
    have hlt := no_less hs ht h
    have hgt := no_less ht hs h.symm
    omega
  subst hexp
  exact ⟨Nat.eq_of_mul_eq_mul_right (pow2_pos _) h, rfl⟩

/-- A finite place of the number line lies before the infinities. -/
theorem Normal.lt_farPosition {s : Nat} {e : Int} (hs : L.Normal s e)
    (hlt : L.pattern s e < L.infinity) :
    ((s * pow2 (e - L.minExponent).toNat : Nat) : Int) < L.farPosition := by
  have hexponent : (e - L.minExponent).toNat + 1 ≤ pow2 L.exponentBits := by
    have htop := L.topExponent_succ
    obtain ⟨field, fraction, hfield, -, -, ⟨-, -, rfl⟩ | ⟨-, -, rfl⟩⟩ := hs.fields hlt <;> omega
  have hmul : s * pow2 (e - L.minExponent).toNat <
      2 * L.fractionUnit * pow2 (e - L.minExponent).toNat :=
    Nat.mul_lt_mul_of_pos_right hs.bound (pow2_pos _)
  have hfar : 2 * L.fractionUnit * pow2 (e - L.minExponent).toNat =
      pow2 ((e - L.minExponent).toNat + 1 + L.fractionBits) := by
    rw [pow2_add, pow2_add, Nat.mul_comm, ← Nat.mul_assoc]
    rfl
  unfold farPosition
  refine Int.ofNat_lt.2 (Nat.lt_of_lt_of_le (hfar ▸ hmul) (pow2_le_pow2 ?_))
  omega

end Layout

namespace Double

variable {x y : Double}

theorem bits_lt (x : Double) : x.bits.toNat < 2 * Layout.binary64.signUnit := x.bits.toNat_lt

/-- What is no NaN is given by what it stands for. -/
theorem eq_of_datum (h : x.datum = y.datum) (hnan : x.datum ≠ .nan) : x = y := by
  have hbits : x.bits.toNat = y.bits.toNat := by
    rcases hx : x.datum with _ | negative | ⟨negative, s, e⟩
    · exact absurd hx hnan
    · rw [Layout.eq_signed_of_infinite x.bits_lt hx,
        Layout.eq_signed_of_infinite y.bits_lt (h.symm.trans hx)]
    · rw [(Layout.pattern_of_datum x.bits_lt hx).2.2,
        (Layout.pattern_of_datum y.bits_lt (h.symm.trans hx)).2.2]
  cases x
  cases y
  exact congrArg Double.mk (UInt64.toNat_inj.1 hbits)

theorem equals_iff {x y : Double} :
    x.equals y = true ↔ ∃ a, x.position? = some a ∧ y.position? = some a := by
  unfold equals compare?
  rcases x.position? with _ | a <;> rcases y.position? with _ | b <;> simp
  exact eq_comm

theorem equals_comm (x y : Double) : x.equals y = y.equals x := by
  rw [Bool.eq_iff_iff, equals_iff, equals_iff]
  simp only [and_comm]

theorem equals_trans {z : Double} (hxy : x.equals y = true) (hyz : y.equals z = true) :
    x.equals z = true := by
  obtain ⟨place, hx, hy⟩ := equals_iff.1 hxy
  obtain ⟨place', hy', hz⟩ := equals_iff.1 hyz
  exact equals_iff.2 ⟨place, hx, by rw [hz, ← hy', hy]⟩

theorem isNaN_of_equals (h : x.equals y = true) : x.isNaN = false := by
  obtain ⟨place, hx, -⟩ := equals_iff.1 h
  unfold position? Datum.position? at hx
  unfold isNaN
  rcases hdatum : x.datum with _ | negative | ⟨negative, s, e⟩
  · rw [hdatum] at hx
    cases hx
  · rfl
  · rfl

theorem equals_self (hx : x.isNaN = false) : x.equals x = true := by
  unfold isNaN at hx
  refine equals_iff.2 ?_
  unfold position? Datum.position?
  rcases hdatum : x.datum with _ | negative | ⟨negative, s, e⟩
  · rw [hdatum] at hx
    cases hx
  · exact ⟨_, rfl, rfl⟩
  · exact ⟨_, rfl, rfl⟩

/-- **What doubles stand for that lie at one place**: the same, or both a zero. -/
theorem datum_of_equals (h : x.equals y = true) :
    x.datum ≠ .nan ∧ x.datum = y.datum ∨ ∃ a b,
      x.datum = .finite a 0 Layout.binary64.minExponent ∧
        y.datum = .finite b 0 Layout.binary64.minExponent := by
  obtain ⟨place, hx, hy⟩ := equals_iff.1 h
  unfold position? Datum.position? at hx hy
  have hfar : 0 < Layout.binary64.farPosition := Int.natCast_pos.2 (pow2_pos _)
  rcases hdx : x.datum with _ | m | ⟨m, s, e⟩ <;> rw [hdx] at hx
  · cases hx
  all_goals
    rcases hdy : y.datum with _ | n | ⟨n, t, f⟩ <;> rw [hdy] at hy
    · cases hy
  all_goals have hplace := Option.some.inj (hx.trans hy.symm)
  case infinite.infinite =>
    refine .inl ⟨nofun, ?_⟩
    cases m <;> cases n <;> simp only [Bool.false_eq_true, if_false, if_true] at hplace <;>
      first | rfl | omega
  case infinite.finite =>
    obtain ⟨hn, hlt, -⟩ := Layout.pattern_of_datum y.bits_lt hdy
    have hnear := hn.lt_farPosition hlt
    rw [← Int.natCast_mul] at hplace
    cases m <;> cases n <;> simp only [Bool.false_eq_true, if_false, if_true] at hplace <;> omega
  case finite.infinite =>
    obtain ⟨hn, hlt, -⟩ := Layout.pattern_of_datum x.bits_lt hdx
    have hnear := hn.lt_farPosition hlt
    rw [← Int.natCast_mul] at hplace
    cases m <;> cases n <;> simp only [Bool.false_eq_true, if_false, if_true] at hplace <;> omega
  case finite.finite =>
    obtain ⟨hs, -, -⟩ := Layout.pattern_of_datum x.bits_lt hdx
    obtain ⟨ht, -, -⟩ := Layout.pattern_of_datum y.bits_lt hdy
    -- the magnitudes are equal, and zero if the signs differ
    have hmagnitude : s * pow2 (e - Layout.binary64.minExponent).toNat =
        t * pow2 (f - Layout.binary64.minExponent).toNat ∧
        (m = n ∨ s * pow2 (e - Layout.binary64.minExponent).toNat = 0) := by
      rw [← Int.natCast_mul, ← Int.natCast_mul] at hplace
      generalize s * pow2 _ = left at hplace
      generalize t * pow2 _ = right at hplace
      cases m <;> cases n <;> simp only [Bool.false_eq_true, if_false, if_true] at hplace <;>
        first | exact ⟨by omega, .inl rfl⟩ | exact ⟨by omega, .inr (by omega)⟩
    obtain ⟨rfl, rfl⟩ := hs.unique ht hmagnitude.1
    rcases hmagnitude.2 with rfl | hzero
    · exact .inl ⟨nofun, rfl⟩
    · obtain rfl : s = 0 := (Nat.mul_eq_zero.1 hzero).resolve_right (pow2_pos _).ne'
      obtain rfl : e = Layout.binary64.minExponent :=
        hs.full.resolve_left (by have := Layout.binary64.fractionUnit_pos; omega)
      exact .inr ⟨m, n, rfl, rfl⟩

/-- Doubles at one place are truncated alike. -/
theorem truncate?_of_equals (h : x.equals y = true) : x.truncate? = y.truncate? := by
  unfold truncate?
  rcases datum_of_equals h with ⟨-, hdatum⟩ | ⟨a, b, hx, hy⟩
  · rw [hdatum]
  · rw [hx, hy]
    simp only [Int.natCast_zero, Int.zero_mul, Int.zero_ediv, Int.neg_zero, ite_self]

/-- Doubles at one place are whole both or neither. -/
theorem isIntegral_of_equals (h : x.equals y = true) : x.isIntegral = y.isIntegral := by
  unfold isIntegral
  rcases datum_of_equals h with ⟨-, hdatum⟩ | ⟨a, b, hx, hy⟩
  · rw [hdatum]
  · rw [hx, hy]

/-- Doubles at one place that are not whole are one pattern. -/
theorem eq_of_equals (h : x.equals y = true) (hwhole : x.isIntegral = false) : x = y := by
  rcases datum_of_equals h with ⟨hnan, hdatum⟩ | ⟨a, b, hx, -⟩
  · exact eq_of_datum hdatum hnan
  · unfold isIntegral at hwhole
    rw [hx] at hwhole
    simp at hwhole

/-- What is whole can be truncated. -/
theorem exists_truncate? (h : x.isIntegral = true) : ∃ n, x.truncate? = some n := by
  unfold isIntegral at h
  unfold truncate?
  rcases hdatum : x.datum with _ | negative | ⟨negative, s, e⟩ <;> rw [hdatum] at h
  · cases h
  · cases h
  · exact ⟨_, rfl⟩

/-! ## The double that an integer is rounded to -/

theorem floorLog2_one {m : Nat} (hm : 0 < m) : floorLog2 m 1 = m.log2 := by
  refine floorLog2_eq hm Nat.one_pos ?_ ?_
  · have hlow : ((2 ^ m.log2 : Nat) : ℚ) ≤ m := Nat.cast_le.2 (Nat.log2_self_le hm.ne')
    simpa using hlow
  · have hhigh : (m : ℚ) < (2 ^ (m.log2 + 1) : Nat) := Nat.cast_lt.2 Nat.lt_log2_self
    rw [Nat.cast_one, mul_one]
    exact_mod_cast hhigh

/-- An integer of up to 53 bits is a magnitude of doubles. -/
theorem nearest_of_short {m : Nat} (hm : m < 2 ^ 53) :
    ∃ k : Nat, Layout.binary64.Normal (m * pow2 k) (-k) ∧
      Layout.binary64.pattern (m * pow2 k) (-k) < Layout.binary64.infinity ∧
      Layout.binary64.nearest m 1 = Layout.binary64.pattern (m * pow2 k) (-k) := by
  have hunit : Layout.binary64.fractionUnit = 2 ^ 52 := rfl
  have hleast : Layout.binary64.minExponent = -1074 := rfl
  have hinfinity : Layout.binary64.infinity = 2047 * 2 ^ 52 := rfl
  obtain ⟨k, hn⟩ : ∃ k : Nat, Layout.binary64.Normal (m * pow2 k) (-k) := by
    rcases Nat.eq_zero_or_pos m with rfl | hpos
    · exact ⟨1074, by omega, by omega, .inr (by omega)⟩
    · -- as many zeros as make the significand full
      obtain ⟨k, hk⟩ : ∃ k, m.log2 + k = 52 :=
        ⟨52 - m.log2, by have := (Nat.log2_lt hpos.ne').2 hm; omega⟩
      have hfull : 2 ^ 52 ≤ m * 2 ^ k := by
        rw [← hk, pow_add]
        exact Nat.mul_le_mul_right _ (Nat.log2_self_le hpos.ne')
      have hshort : m * 2 ^ k < 2 ^ 53 := by
        have hsucc : 53 = m.log2 + 1 + k := by omega
        rw [hsucc, pow_add]
        exact Nat.mul_lt_mul_of_pos_right Nat.lt_log2_self (Nat.two_pow_pos k)
      exact ⟨k, by rw [pow2_eq]; omega, by omega, .inl (by rw [pow2_eq]; omega)⟩
  have hlt : Layout.binary64.pattern (m * pow2 k) (-k) < Layout.binary64.infinity := by
    have hbound := hn.bound
    have hfield : (-(k : Int) - Layout.binary64.minExponent + 1).toNat ≤ 1075 := by omega
    have := Nat.mul_le_mul_right Layout.binary64.fractionUnit hfield
    unfold Layout.pattern
    split <;> omega
  refine ⟨k, hn, hlt, (Layout.nearest_of_normal Nat.one_pos hn ?_).trans (Nat.min_eq_left hlt.le)⟩
  have hpow : (2 : ℚ) ^ k * 2 ^ (-(k : Int)) = 1 := by
    rw [← zpow_natCast, ← zpow_add₀ (by norm_num)]
    simp
  rw [pow2_eq, Nat.cast_mul, Nat.cast_pow, Nat.cast_one, mul_one, mul_assoc]
  push_cast
  rw [hpow, mul_one]

/-- Rounding a quotient gives it or the next integer. -/
theorem roundHalfEven_bounds (num den : Nat) :
    num / den ≤ roundHalfEven num den ∧ roundHalfEven num den ≤ num / den + 1 := by
  unfold roundHalfEven
  dsimp only
  split <;> omega

/-- A longer one is rounded to a whole magnitude. -/
theorem nearest_of_long {m : Nat} (hlong : 2 ^ 53 ≤ m) (hm : m ≤ 2 ^ 127) :
    ∃ s e, Layout.binary64.Normal s e ∧ Layout.binary64.pattern s e < Layout.binary64.infinity ∧
      Layout.binary64.nearest m 1 = Layout.binary64.pattern s e ∧ 2 ^ 52 ≤ s ∧ 1 ≤ e := by
  have hunit : Layout.binary64.fractionUnit = 2 ^ 52 := rfl
  have hleast : Layout.binary64.minExponent = -1074 := rfl
  have hinfinity : Layout.binary64.infinity = 2047 * 2 ^ 52 := rfl
  have hbits : Layout.binary64.fractionBits = 52 := rfl
  have hpos : 0 < m := by omega
  obtain ⟨k, hk⟩ : ∃ k, m.log2 = 52 + (k + 1) := by
    have := (Nat.le_log2 hpos.ne').2 hlong
    exact ⟨m.log2 - 53, by omega⟩
  have hsmall : k < 75 := by
    have := (Nat.log2_lt hpos.ne').2 (by omega : m < 2 ^ 128)
    omega
  -- the significand before rounding has 53 bits
  have hquotient : 2 ^ 52 ≤ m / 2 ^ (k + 1) ∧ m / 2 ^ (k + 1) < 2 ^ 53 := by
    have hlow := Nat.log2_self_le hpos.ne'
    have hhigh := Nat.lt_log2_self (n := m)
    rw [hk, pow_add] at hlow
    rw [hk, show 52 + (k + 1) + 1 = 53 + (k + 1) by omega, pow_add] at hhigh
    exact ⟨(Nat.le_div_iff_mul_le (Nat.two_pow_pos _)).2 hlow, Nat.div_lt_of_lt_mul (by rwa [Nat.mul_comm])⟩
  have hround := roundHalfEven_bounds m (2 ^ (k + 1))
  have hnearest : Layout.binary64.nearest m 1 = min ((k + 1076) * 2 ^ 52 +
      (roundHalfEven m (2 ^ (k + 1)) - 2 ^ 52)) (2047 * 2 ^ 52) := by
    have hne : (m == 0) = false := beq_eq_false_iff_ne.2 hpos.ne'
    have hexponent : max ((m.log2 : Int) - (Layout.binary64.fractionBits : Int))
        Layout.binary64.minExponent = ((k + 1 : Nat) : Int) := by omega
    have hnumerator : m * pow2 (-((k + 1 : Nat) : Int)).toNat = m := by
      rw [show (-((k + 1 : Nat) : Int)).toNat = 0 by omega]
      exact Nat.mul_one m
    have hdenominator : 1 * pow2 ((k + 1 : Nat) : Int).toNat = 2 ^ (k + 1) := Nat.one_mul _
    have hfield : (((k + 1 : Nat) : Int) - Layout.binary64.minExponent + 1).toNat = k + 1076 := by
      omega
    unfold Layout.nearest
    simp only [hne, floorLog2_one hpos, hexponent, hnumerator, hdenominator, hfield, hunit, hinfinity]
    rw [if_neg Bool.false_ne_true, if_neg (by omega)]
  generalize roundHalfEven m (2 ^ (k + 1)) = r at hround hnearest
  have hpattern (s j : Nat) (hs : 2 ^ 52 ≤ s) :
      Layout.binary64.pattern s (j : Int) = (j + 1075) * 2 ^ 52 + (s - 2 ^ 52) := by
    have hfield : ((j : Int) - Layout.binary64.minExponent + 1).toNat = j + 1075 := by omega
    unfold Layout.pattern
    rw [if_neg (Nat.not_lt.2 (hunit ▸ hs)), hfield, hunit]
  rcases Nat.lt_or_ge r (2 ^ 53) with hr | hr
  · refine ⟨r, (k + 1 : Nat), ⟨by omega, by omega, .inl (by omega)⟩, ?_, ?_, by omega, by omega⟩
    · rw [hpattern r _ (by omega), hinfinity]
      omega
    · rw [hpattern r _ (by omega), hnearest, Nat.min_eq_left (by omega)]
  · -- rounded up to the next power of two
    refine ⟨2 ^ 52, (k + 2 : Nat), ⟨by omega, by omega, .inl (by omega)⟩, ?_, ?_, by omega, by omega⟩
    · rw [hpattern _ _ (Nat.le_refl _), hinfinity]
      omega
    · rw [hpattern _ _ (Nat.le_refl _), hnearest, Nat.min_eq_left (by omega)]
      omega

/-- **The double that an integer is rounded to**: the integer itself if it has up to 53 bits, and
otherwise a whole number that is as far from zero. -/
theorem datum_ofInt {n : Int} (hn : n.natAbs ≤ 2 ^ 127) :
    ∃ s e, (ofInt n).datum = .finite (decide (n < 0)) s e ∧
      ((∃ k : Nat, e = -k ∧ s = n.natAbs * pow2 k ∧ n.natAbs < 2 ^ 53) ∨
        (2 ^ 52 ≤ s ∧ 1 ≤ e ∧ 2 ^ 53 ≤ n.natAbs)) := by
  have of_nearest {s : Nat} {e : Int} (hs : Layout.binary64.Normal s e)
      (hlt : Layout.binary64.pattern s e < Layout.binary64.infinity)
      (hnearest : Layout.binary64.nearest n.natAbs 1 = Layout.binary64.pattern s e) :
      (ofInt n).datum = .finite (decide (n < 0)) s e := by
    unfold datum ofInt ofRatio
    rw [hnearest, toNat_bits_ofMagnitude (hlt.trans_le (by decide)), Layout.datum_pattern _ hs hlt]
  rcases Nat.lt_or_ge n.natAbs (2 ^ 53) with hshort | hlong
  · obtain ⟨k, hs, hlt, hnearest⟩ := nearest_of_short hshort
    exact ⟨_, _, of_nearest hs hlt hnearest, .inl ⟨k, rfl, rfl, hshort⟩⟩
  · obtain ⟨s, e, hs, hlt, hnearest, hfull, hexponent⟩ := nearest_of_long hlong hn
    exact ⟨s, e, of_nearest hs hlt hnearest, .inr ⟨hfull, hexponent, hlong⟩⟩

/-- The double that an integer is rounded to is whole. -/
theorem isIntegral_ofInt {n : Int} (hn : n.natAbs ≤ 2 ^ 127) : (ofInt n).isIntegral = true := by
  obtain ⟨s, e, hdatum, ⟨k, rfl, rfl, -⟩ | ⟨-, hexponent, -⟩⟩ := datum_ofInt hn
  · unfold isIntegral
    rw [hdatum]
    simp
  · have hzero : (-e).toNat = 0 := by omega
    unfold isIntegral
    rw [hdatum]
    simp [hzero, pow2_eq, Nat.mod_one]

/-- It is the integer itself if this has up to 53 bits, and as far from zero as `2 ^ 53` if not. -/
theorem truncate?_ofInt {n : Int} (hn : n.natAbs ≤ 2 ^ 127) : ∃ t, (ofInt n).truncate? = some t ∧
    (n.natAbs < 2 ^ 53 ∧ t = n ∨ 2 ^ 53 ≤ n.natAbs ∧ 2 ^ 53 ≤ t.natAbs) := by
  obtain ⟨s, e, hdatum, ⟨k, rfl, rfl, hshort⟩ | ⟨hfull, hexponent, hlong⟩⟩ := datum_ofInt hn
  · refine ⟨n, ?_, .inl ⟨hshort, rfl⟩⟩
    have hzero : (-(k : Int)).toNat = 0 := by omega
    have hk : (- -(k : Int)).toNat = k := by omega
    have hmagnitude : ((n.natAbs * pow2 k : Nat) : Int) * ((pow2 0 : Nat) : Int) / (pow2 k : Nat) =
        n.natAbs := by
      rw [← Int.natCast_mul, ← Int.natCast_ediv, pow2_eq 0, Nat.pow_zero, Nat.mul_one,
        Nat.mul_div_cancel _ (pow2_pos k)]
    unfold truncate?
    rw [hdatum]
    simp only [hzero, hk, hmagnitude, decide_eq_true_eq, Option.some.injEq]
    split <;> omega
  · have hzero : (-e).toNat = 0 := by omega
    have hone : ((pow2 0 : Nat) : Int) = 1 := rfl
    refine ⟨_, by unfold truncate?; rw [hdatum], .inr ⟨hlong, ?_⟩⟩
    have hlarge : 2 ^ 53 ≤ s * pow2 e.toNat :=
      Nat.mul_le_mul hfull (pow2_le_pow2 (by omega : 1 ≤ e.toNat))
    rw [hzero, hone, Int.ediv_one, ← Int.natCast_mul]
    split <;> omega

end Double

/-! ## Hashes of integers -/

/-- Whether an integer has 128 bits. -/
def Is128 (n : Int) : Prop := -(2 ^ 127) ≤ n ∧ n < 2 ^ 127

theorem saturate128_eq {n : Int} (hn : Is128 n) : saturate128 n = n := by
  have hpow : ((pow2 127 : Nat) : Int) = 2 ^ 127 := rfl
  have := hn.1
  have := hn.2
  unfold saturate128
  omega

theorem is128_saturate128 (n : Int) : Is128 (saturate128 n) := by
  have hpow : ((pow2 127 : Nat) : Int) = 2 ^ 127 := rfl
  unfold saturate128 Is128
  omega

theorem natAbs_le_of_is128 {m : Int} (hm : Is128 m) : m.natAbs ≤ 2 ^ 127 := by
  obtain ⟨_, _⟩ := hm
  omega

/-- The low bytes of a number give it, up to what lies above them. -/
theorem mod_eq_of_lowBytes {count m n : Nat} (h : lowBytes count m = lowBytes count n) :
    m % 256 ^ count = n % 256 ^ count := by
  induction count generalizing m n with
  | zero => rw [pow_zero, Nat.mod_one, Nat.mod_one]
  | succ count ih =>
    obtain ⟨hbyte, hrest⟩ := List.cons.inj h
    have hlow : m % 256 = n % 256 := by
      have hnat := congrArg UInt8.toNat hbyte
      rwa [UInt8.toNat_ofNat', UInt8.toNat_ofNat', Nat.mod_mod, Nat.mod_mod] at hnat
    rw [Nat.pow_succ', Nat.mod_mul, Nat.mod_mul, hlow, ih hrest]

/-- Integers of 128 bits are given by their bytes. -/
theorem eq_of_integerBytes {m n : Int} (hm : Is128 m) (hn : Is128 n)
    (h : integerBytes 16 m = integerBytes 16 n) : m = n := by
  have hmodulus : ((pow2 (8 * 16) : Nat) : Int) = 2 ^ 128 := rfl
  have hpow : (256 : Nat) ^ 16 = 2 ^ 128 := rfl
  unfold integerBytes at h
  have hmod := mod_eq_of_lowBytes h
  rw [hmodulus, hpow] at hmod
  obtain ⟨_, _⟩ := hm
  obtain ⟨_, _⟩ := hn
  omega

namespace Double

variable {x : Double}

/-- Whether no integer is rounded to a double but the one that the double is hashed as. -/
def Faithful (x : Double) : Prop :=
  ∀ m, Is128 m → (ofInt m).equals x = true → x.truncate?.map saturate128 = some m

/-- **Integers below `2 ^ 53` are told apart from all others** when they are rounded. -/
theorem faithful_ofInt {n : Int} (hn : n.natAbs < 2 ^ 53) : (ofInt n).Faithful := by
  intro m hm heq
  obtain ⟨t, ht, hcase⟩ := truncate?_ofInt (n := n) (by omega)
  obtain ⟨u, hu, hcase'⟩ := truncate?_ofInt (natAbs_le_of_is128 hm)
  have htu : u = t := Option.some.inj (hu.symm.trans ((truncate?_of_equals heq).trans ht))
  obtain rfl : m = t := by omega
  rw [ht, Option.map_some, saturate128_eq hm]

/-- No integer is rounded to a double that is not whole. -/
theorem faithful_of_not_isIntegral (hx : x.isIntegral = false) : x.Faithful := by
  intro m hm heq
  rw [← isIntegral_of_equals heq, isIntegral_ofInt (natAbs_le_of_is128 hm)] at hx
  cases hx

end Double

end Protoscript
