import Mathlib.Algebra.Order.Ring.Nat
import Mathlib.Tactic.Ring
import SmallScheme.Number.Shortest
/-!
# Rounding a quotient

The double nearest to a quotient depends on the quotient alone, and a representable magnitude is its
own nearest double. Hence the double nearest to a decimal is the rounded exact value of the decimal,
also where `Decimal.toDouble` decides it from the exponent without forming a power of ten.
-/

namespace SmallScheme

theorem roundHalfEven_mul_right (numerator denominator : Nat) {factor : Nat} (hpos : 0 < factor) :
    roundHalfEven (numerator * factor) (denominator * factor) =
      roundHalfEven numerator denominator := by
  have hlt : 2 * (numerator % denominator * factor) < denominator * factor ↔
      2 * (numerator % denominator) < denominator := by
    rw [← Nat.mul_assoc]
    exact Nat.mul_lt_mul_right hpos
  have hgt : denominator * factor < 2 * (numerator % denominator * factor) ↔
      denominator < 2 * (numerator % denominator) := by
    rw [← Nat.mul_assoc]
    exact Nat.mul_lt_mul_right hpos
  simp only [roundHalfEven, Nat.mul_div_mul_right _ _ hpos, Nat.mul_mod_mul_right, hlt, hgt]

theorem roundHalfEven_mul_self (count : Nat) {denominator : Nat} (hpos : 0 < denominator) :
    roundHalfEven (count * denominator) denominator = count := by
  simp [roundHalfEven, hpos]

/-- Less than a half rounds to nothing. -/
theorem roundHalfEven_eq_zero {numerator denominator : Nat} (hsmall : 2 * numerator < denominator) :
    roundHalfEven numerator denominator = 0 := by
  have hlt : numerator < denominator := by omega
  simp [roundHalfEven, Nat.mod_eq_of_lt hlt, Nat.div_eq_of_lt hlt, hsmall]

theorem div_le_roundHalfEven (numerator denominator : Nat) :
    numerator / denominator ≤ roundHalfEven numerator denominator := by
  simp only [roundHalfEven]
  split
  · exact Nat.le_refl _
  · split
    · omega
    · split <;> omega

namespace Double

theorem spacing_pos (units : Nat) : 0 < spacing units := Nat.two_pow_pos _

theorem one_eq_two_pow : one = 2 ^ 1074 := by
  unfold one
  generalize 1074 = exponent
  exact Nat.pow_eq

theorem limit_eq_two_pow : limit = 2 ^ 2098 := by
  unfold limit
  generalize 2098 = exponent
  exact Nat.pow_eq

theorem one_pos : 0 < one := by
  unfold one
  generalize 1074 = exponent
  exact Nat.two_pow_pos exponent

theorem roundUnits_mul_right (numerator denominator : Nat) {factor : Nat} (hpos : 0 < factor) :
    roundUnits (numerator * factor) (denominator * factor) = roundUnits numerator denominator := by
  simp only [roundUnits, Nat.mul_div_mul_right _ _ hpos]
  rw [Nat.mul_right_comm denominator factor, roundHalfEven_mul_right _ _ hpos]

/-- A multiple of its local spacing is not rounded. -/
theorem roundUnits_of_spacing_dvd {units : Nat} (hdvd : spacing units ∣ units) :
    roundUnits units 1 = units := by
  obtain ⟨count, hcount⟩ := hdvd
  have hround := roundHalfEven_mul_self count (spacing_pos units)
  rw [Nat.mul_comm, ← hcount] at hround
  simp only [roundUnits, Nat.div_one, Nat.one_mul, hround]
  rw [Nat.mul_comm]
  exact hcount.symm

theorem roundUnits_eq_zero {numerator denominator : Nat} (hsmall : 2 * numerator < denominator) :
    roundUnits numerator denominator = 0 := by
  have hquotient : numerator / denominator = 0 := Nat.div_eq_of_lt (by omega)
  have hspacing : spacing 0 = 1 := rfl
  simp only [roundUnits, hquotient, hspacing, Nat.mul_one]
  exact roundHalfEven_eq_zero hsmall

/-- Rounding does not fall below a power of two. -/
theorem two_pow_le_roundUnits {units exponent : Nat} (hle : 2 ^ exponent ≤ units) :
    2 ^ exponent ≤ roundUnits units 1 := by
  have hne : units ≠ 0 := (Nat.lt_of_lt_of_le (Nat.two_pow_pos exponent) hle).ne'
  have hspacing : spacing units = 2 ^ (units.log2 - 52) := Nat.pow_eq
  simp only [roundUnits, Nat.div_one, Nat.one_mul, hspacing]
  have hdvd : 2 ^ (units.log2 - 52) ∣ 2 ^ units.log2 := Nat.pow_dvd_pow 2 (Nat.sub_le _ _)
  calc 2 ^ exponent
      ≤ 2 ^ units.log2 := Nat.pow_le_pow_right (by decide) ((Nat.le_log2 hne).2 hle)
    _ = 2 ^ units.log2 / 2 ^ (units.log2 - 52) * 2 ^ (units.log2 - 52) :=
        (Nat.div_mul_cancel hdvd).symm
    _ ≤ units / 2 ^ (units.log2 - 52) * 2 ^ (units.log2 - 52) :=
        Nat.mul_le_mul_right _ (Nat.div_le_div_right (Nat.log2_self_le hne))
    _ ≤ roundHalfEven units (2 ^ (units.log2 - 52)) * 2 ^ (units.log2 - 52) :=
        Nat.mul_le_mul_right _ (div_le_roundHalfEven _ _)

theorem limit_le_roundUnits {units : Nat} (hlarge : limit ≤ units) :
    limit ≤ roundUnits units 1 := by
  rw [limit_eq_two_pow] at hlarge ⊢
  generalize 2098 = exponent at hlarge ⊢
  exact two_pow_le_roundUnits hlarge

theorem ofRatio_congr {negative : Bool} {numerator denominator numerator' denominator' : Nat}
    (hunits : roundUnits numerator denominator = roundUnits numerator' denominator') :
    ofRatio negative numerator denominator = ofRatio negative numerator' denominator' := by
  simp only [ofRatio, hunits]

/-- Equal quotients have the same nearest double. -/
theorem ofRatio_eq_of_mul_eq_mul {negative : Bool}
    {numerator denominator numerator' denominator' : Nat} (hpos : 0 < denominator)
    (hpos' : 0 < denominator') (heq : numerator * denominator' = numerator' * denominator) :
    ofRatio negative numerator denominator = ofRatio negative numerator' denominator' := by
  refine ofRatio_congr ?_
  rw [← roundUnits_mul_right numerator denominator hpos',
    ← roundUnits_mul_right numerator' denominator' hpos, heq, Nat.mul_comm denominator]

/-- The sign does not take part in the rounding. -/
theorem ofRatio_of_roundUnits (negative : Bool) {numerator denominator units : Nat}
    {hunits : Representable units} (hround : roundUnits numerator denominator = units) :
    ofRatio negative numerator denominator = .finite negative units hunits := by
  simp only [ofRatio, hround, hunits.1, ↓reduceDIte]

theorem roundUnits_of_ofRatio {negative sign : Bool} {numerator denominator units : Nat}
    {hunits : Representable units}
    (heq : ofRatio negative numerator denominator = .finite sign units hunits) :
    roundUnits numerator denominator = units := by
  rw [ofRatio] at heq
  by_cases hbelow : roundUnits numerator denominator < limit
  · simp only [hbelow, ↓reduceDIte] at heq
    exact (Double.finite.inj heq).2
  · simp only [hbelow, ↓reduceDIte] at heq
    cases heq

/-- A finite double is the nearest one to its own magnitude. -/
theorem ofRatio_of_representable (negative : Bool) {units : Nat} (hunits : Representable units) :
    ofRatio negative units 1 = .finite negative units hunits :=
  ofRatio_of_roundUnits negative (roundUnits_of_spacing_dvd hunits.2)

theorem ofRatio_eq_zero (negative : Bool) {numerator denominator : Nat}
    (hsmall : 2 * numerator < denominator) :
    ofRatio negative numerator denominator = zero negative := by
  have hround := roundUnits_eq_zero hsmall
  simp only [ofRatio, hround, limit_pos, ↓reduceDIte, zero]

theorem ofRatio_eq_infinite (negative : Bool) {units : Nat} (hlarge : limit ≤ units) :
    ofRatio negative units 1 = .infinite negative := by
  have hround := limit_le_roundUnits hlarge
  simp only [ofRatio, Nat.not_lt.2 hround, ↓reduceDIte]

/-- A number of at most 53 binary digits is a multiple of the spacing at its own magnitude, wherever
its digits stand. -/
theorem spacing_dvd_mul_two_pow {count : Nat} (hcount : count ≤ 2 ^ 53) (exponent : Nat) :
    spacing (count * 2 ^ exponent) ∣ count * 2 ^ exponent := by
  rw [spacing, Nat.pow_eq]
  rcases Nat.eq_or_lt_of_le hcount with hfull | hbelow
  · rw [hfull, ← Nat.pow_add, Nat.log2_two_pow]
    exact Nat.pow_dvd_pow 2 (Nat.sub_le _ _)
  · rcases Nat.eq_zero_or_pos count with hzero | hpos
    · simp [hzero]
    · have hne : count * 2 ^ exponent ≠ 0 := (Nat.mul_pos hpos (Nat.two_pow_pos exponent)).ne'
      have hlog : (count * 2 ^ exponent).log2 < 53 + exponent := by
        rw [Nat.log2_lt hne, Nat.pow_add]
        exact Nat.mul_lt_mul_of_pos_right hbelow (Nat.two_pow_pos exponent)
      exact Nat.dvd_mul_left_of_dvd (Nat.pow_dvd_pow 2 (by omega)) count

theorem representable_mul_two_pow {count exponent : Nat} (hcount : count ≤ 2 ^ 53)
    (hexponent : 53 + exponent < 2098) : Representable (count * 2 ^ exponent) := by
  refine ⟨?_, spacing_dvd_mul_two_pow hcount exponent⟩
  rw [limit_eq_two_pow]
  generalize 2098 = top at hexponent ⊢
  calc count * 2 ^ exponent
      ≤ 2 ^ 53 * 2 ^ exponent := Nat.mul_le_mul_right _ hcount
    _ = 2 ^ (53 + exponent) := (Nat.pow_add 2 53 exponent).symm
    _ < 2 ^ top := Nat.pow_lt_pow_right (by decide) hexponent

theorem representable_mul_one {count : Nat} (hcount : count ≤ 2 ^ 53) :
    Representable (count * one) := by
  rw [one_eq_two_pow]
  exact representable_mul_two_pow hcount (by decide)

/-- A count of at most `2 ^ 53` is not rounded. -/
theorem integer?_ofNat {count : Nat} (hcount : count ≤ 2 ^ 53) :
    (ofNat count).integer? = some (count : Int) := by
  rw [ofNat, ofRatio_of_representable false (representable_mul_one hcount), integer?,
    if_pos (Nat.mul_mod_left count one), Nat.mul_div_cancel count one_pos]
  rfl

end Double

namespace Decimal

open Double

/-- The numerator of the exact value of a decimal, in units of the least positive double. -/
def numerator (decimal : Decimal) : Nat := decimal.digits * 10 ^ decimal.exponent.toNat * one

def denominator (decimal : Decimal) : Nat := 10 ^ (-decimal.exponent).toNat

theorem denominator_pos (decimal : Decimal) : 0 < decimal.denominator :=
  Nat.pow_pos (by decide)

theorem two_pow_le_ten_pow (power : Nat) : 2 ^ (3 * power) ≤ 10 ^ power := by
  rw [Nat.pow_mul]
  exact Nat.pow_le_pow_left (by decide) power

/-- Beyond the exponents for which a power of ten is formed, the exact value is out of range. -/
theorem limit_le_numerator {decimal : Decimal} (hdigits : decimal.digits ≠ 0)
    (hlarge : 400 < decimal.exponent) : limit ≤ decimal.numerator := by
  have hlimit : limit = 2 ^ 1024 * one := by
    rw [limit_eq_two_pow, one_eq_two_pow, ← Nat.pow_add]
  have hexponent : 1024 ≤ 3 * decimal.exponent.toNat := by omega
  rw [hlimit, numerator]
  generalize 1024 = exponent at hexponent ⊢
  refine Nat.mul_le_mul_right _ ?_
  calc 2 ^ exponent ≤ 2 ^ (3 * decimal.exponent.toNat) := Nat.pow_le_pow_right (by decide) hexponent
    _ ≤ 10 ^ decimal.exponent.toNat := two_pow_le_ten_pow _
    _ ≤ decimal.digits * 10 ^ decimal.exponent.toNat :=
        Nat.le_mul_of_pos_left _ (Nat.pos_of_ne_zero hdigits)

/-- Below the exponents for which a power of ten is formed, the exact value is less than half of the
least positive double. -/
theorem two_mul_numerator_lt_denominator {decimal : Decimal}
    (hsmall : decimal.exponent + decimal.digits.log2 < -400) :
    2 * decimal.numerator < decimal.denominator := by
  have hzero : decimal.exponent.toNat = 0 := by omega
  have hexponent : decimal.digits.log2 + 1 + 1074 + 1 ≤ 3 * (-decimal.exponent).toNat := by omega
  rw [numerator, denominator, hzero, Nat.pow_zero, Nat.mul_one, one_eq_two_pow]
  generalize 1074 = exponent at hexponent ⊢
  calc 2 * (decimal.digits * 2 ^ exponent)
      < 2 * (2 ^ (decimal.digits.log2 + 1) * 2 ^ exponent) := by
        refine Nat.mul_lt_mul_of_pos_left ?_ (by decide)
        exact Nat.mul_lt_mul_of_pos_right Nat.lt_log2_self (Nat.two_pow_pos _)
    _ = 2 ^ (decimal.digits.log2 + 1 + exponent + 1) := by
        rw [← Nat.pow_add, ← Nat.pow_succ']
    _ ≤ 2 ^ (3 * (-decimal.exponent).toNat) := Nat.pow_le_pow_right (by decide) hexponent
    _ ≤ 10 ^ (-decimal.exponent).toNat := two_pow_le_ten_pow _

/-- The double nearest to a decimal is its exact value, rounded. -/
theorem toDouble_eq_ofRatio (decimal : Decimal) :
    decimal.toDouble = .ofRatio decimal.negative decimal.numerator decimal.denominator := by
  unfold toDouble
  split
  · next hzero =>
    have hnumerator : decimal.numerator = 0 := by simp [numerator, hzero]
    rw [hnumerator, ofRatio_eq_zero _ decimal.denominator_pos]
  · next hdigits =>
    split
    · next hlarge =>
      have hdenominator : decimal.denominator = 1 := by
        rw [denominator, show (-decimal.exponent).toNat = 0 by omega, Nat.pow_zero]
      rw [hdenominator, ofRatio_eq_infinite _ (limit_le_numerator hdigits hlarge)]
    · split
      · next hsmall => rw [ofRatio_eq_zero _ (two_mul_numerator_lt_denominator hsmall)]
      · simp only [numerator, denominator, Nat.pow_eq]
        split
        · next power hexponent =>
          rw [hexponent]
          congr 1
          cases power <;> rfl
        · next power hexponent =>
          rw [hexponent]
          simp only [Int.toNat_negSucc, Nat.pow_zero, Nat.mul_one, Int.neg_negSucc]
          rfl

/-- Two decimals of one sign and one exact value have the same nearest double. -/
theorem toDouble_eq_of_mul_eq_mul {left right : Decimal} (hsign : left.negative = right.negative)
    (heq : left.numerator * right.denominator = right.numerator * left.denominator) :
    left.toDouble = right.toDouble := by
  rw [toDouble_eq_ofRatio, toDouble_eq_ofRatio, hsign]
  exact ofRatio_eq_of_mul_eq_mul left.denominator_pos right.denominator_pos heq

end Decimal

end SmallScheme
