import Mathlib.Data.List.Induction
import Mathlib.Data.List.TakeWhile
import SmallScheme.Number.Text
import SmallScheme.Proofs.Number.Rounding
import SmallScheme.Reader.Token
/-!
# Written numbers read back

The shortest decimal of a double rounds to that double, and every layout of a decimal is read as a
decimal of the same value. So the text of a finite double means the double again; only the sign of a
zero is not written.
-/

namespace SmallScheme

/-! ### Digits -/

theorem exists_digitChar_of_mem_decimalDigits {value : Nat} {char : Char}
    (hmem : char ∈ decimalDigits value) : ∃ digit < 10, char = digitChar digit := by
  fun_induction decimalDigits value with
  | case1 value hsmall => exact ⟨value, hsmall, List.mem_singleton.1 hmem⟩
  | case2 value _ ih =>
    rcases List.mem_append.1 hmem with hmem | hmem
    · exact ih hmem
    · exact ⟨value % 10, Nat.mod_lt _ (by decide), List.mem_singleton.1 hmem⟩

theorem decimalDigits_ne_nil (value : Nat) : decimalDigits value ≠ [] := by
  rw [decimalDigits]
  split <;> simp

theorem isDecimalDigit_of_mem_decimalDigits {value : Nat} :
    ∀ char ∈ decimalDigits value, isDecimalDigit char := by
  intro char hmem
  obtain ⟨digit, hdigit, rfl⟩ := exists_digitChar_of_mem_decimalDigits hmem
  simp [isDecimalDigit, decimalDigit?_digitChar digit hdigit]

theorem isSymbolChar_of_mem_decimalDigits {value : Nat} :
    ∀ char ∈ decimalDigits value, Scan.isSymbolChar char := by
  intro char hmem
  obtain ⟨digit, hdigit, rfl⟩ := exists_digitChar_of_mem_decimalDigits hmem
  have hall : ∀ digit < 10, Scan.isSymbolChar (digitChar digit) := by decide
  exact hall digit hdigit

theorem isDecimalDigit_of_mem_replicate {count : Nat} :
    ∀ char ∈ List.replicate count '0', isDecimalDigit char := by
  intro char hmem
  rw [List.eq_of_mem_replicate hmem]
  decide

theorem isDecimalDigit_of_mem_zero : ∀ char ∈ ['0'], isDecimalDigit char :=
  List.all_eq_true.1 (by decide)

theorem digitsValue_append (left right : List Char) :
    digitsValue (left ++ right) = digitsValue left * 10 ^ right.length + digitsValue right := by
  induction right using List.reverseRecOn with
  | nil => simp [digitsValue]
  | append_singleton right digit ih =>
    rw [← List.append_assoc, digitsValue_append_singleton, ih, digitsValue_append_singleton,
      List.length_append, List.length_singleton, Nat.pow_succ]
    ring

theorem digitsValue_replicate_zero (count : Nat) : digitsValue (List.replicate count '0') = 0 := by
  induction count with
  | zero => rfl
  | succ count ih =>
    rw [List.replicate_succ', digitsValue_append_singleton, ih]
    decide

/-! ### The value of a decimal -/

namespace Decimal

/-- Zeros at the end of the digits count as much as the exponent. -/
theorem toDouble_mul_ten_pow (negative : Bool) (digits power : Nat) (exponent : Int) :
    toDouble ⟨negative, digits * 10 ^ power, exponent⟩ =
      toDouble ⟨negative, digits, exponent + power⟩ := by
  refine toDouble_eq_of_mul_eq_mul rfl ?_
  have hpowers : power + exponent.toNat + (-(exponent + power)).toNat =
      (exponent + power).toNat + (-exponent).toNat := by omega
  simp only [numerator, denominator]
  calc digits * 10 ^ power * 10 ^ exponent.toNat * Double.one * 10 ^ (-(exponent + power)).toNat
      = digits * 10 ^ (power + exponent.toNat + (-(exponent + power)).toNat) * Double.one := by
        rw [Nat.pow_add, Nat.pow_add]
        ring
    _ = digits * 10 ^ (exponent + power).toNat * Double.one * 10 ^ (-exponent).toNat := by
        rw [hpowers, Nat.pow_add]
        ring

theorem toDouble_trim (decimal : Decimal) : decimal.trim.toDouble = decimal.toDouble := by
  fun_induction trim decimal with
  | case1 decimal hdigits ih =>
    have hten : decimal.digits = decimal.digits / 10 * 10 ^ 1 := by omega
    rw [ih]
    conv_rhs => rw [show decimal = ⟨decimal.negative, decimal.digits, decimal.exponent⟩ from rfl]
    conv_rhs => rw [hten, toDouble_mul_ten_pow]
    rfl
  | case2 decimal => rfl

/-- A candidate for the shortest decimal has been read back. -/
theorem toDouble_of_neighbour? {double : Double} {numerator denominator : Nat} {exponent : Int}
    {decimal : Decimal} (hfound : neighbour? double numerator denominator exponent = some decimal) :
    decimal.toDouble = double := by
  simp only [neighbour?] at hfound
  obtain ⟨digits, -, hdigits⟩ := List.exists_of_findSome?_eq_some hfound
  split at hdigits
  · next hreads => exact Option.some.inj hdigits ▸ hreads
  · cases hdigits

/-- Any magnitude is a decimal exactly, since the least positive double is a power of a half. -/
theorem toDouble_mul_five_pow {power : Nat} (hone : Double.one = 2 ^ power) {units : Nat}
    (hunits : Double.Representable units) :
    toDouble ⟨false, units * Nat.pow 5 power, -power⟩ = .finite false units hunits := by
  rw [toDouble_eq_ofRatio, ← Double.ofRatio_of_representable]
  refine Double.ofRatio_eq_of_mul_eq_mul (denominator_pos _) Nat.one_pos ?_
  have hneg : (-(power : Int)).toNat = 0 := by omega
  simp only [numerator, denominator, hone, hneg, Int.neg_neg, Int.toNat_natCast, Nat.pow_eq]
  rw [Nat.pow_zero, Nat.mul_one, Nat.mul_one, Nat.mul_assoc, ← Nat.mul_pow]

theorem toDouble_exact {units : Nat} (hunits : Double.Representable units) :
    toDouble ⟨false, units * Nat.pow 5 1074, -1074⟩ = .finite false units hunits := by
  have hone := Double.one_eq_two_pow
  have hexponent : (-1074 : Int) = -((1074 : Nat) : Int) := rfl
  rw [hexponent]
  -- the power is never to be computed
  generalize 1074 = power at hone ⊢
  exact toDouble_mul_five_pow hone hunits

/-- The shortest decimal of a magnitude rounds to that magnitude. -/
theorem toDouble_shortest (units : Nat) (hunits : Double.Representable units) :
    (shortest units hunits).toDouble = .finite false units hunits := by
  unfold shortest
  dsimp only
  split
  · next decimal hfound =>
    rw [toDouble_trim]
    obtain ⟨digits, -, hdigits⟩ := List.exists_of_findSome?_eq_some hfound
    exact toDouble_of_neighbour? hdigits
  · rw [toDouble_trim]
    exact toDouble_exact hunits

theorem toDouble_withSign {decimal : Decimal} {sign : Bool} {units : Nat}
    {hunits : Double.Representable units} (hread : decimal.toDouble = .finite sign units hunits)
    (negative : Bool) : toDouble { decimal with negative } = .finite negative units hunits := by
  rw [toDouble_eq_ofRatio] at hread ⊢
  exact Double.ofRatio_of_roundUnits negative (Double.roundUnits_of_ofRatio hread)

/-! ### Reading a layout -/

/-- The text does not go on with a digit. -/
def NoDigitAhead (text : List Char) : Prop := ∀ char ∈ text.head?, isDecimalDigit char = false

theorem takeWhile_isDecimalDigit_append {digits tail : List Char}
    (hdigits : ∀ char ∈ digits, isDecimalDigit char) (htail : NoDigitAhead tail) :
    (digits ++ tail).takeWhile isDecimalDigit = digits := by
  rw [List.takeWhile_append_of_pos hdigits]
  cases tail with
  | nil => simp
  | cons char tail => simp [htail char rfl]

theorem dropWhile_isDecimalDigit_append {digits tail : List Char}
    (hdigits : ∀ char ∈ digits, isDecimalDigit char) (htail : NoDigitAhead tail) :
    (digits ++ tail).dropWhile isDecimalDigit = tail := by
  rw [List.dropWhile_append_of_pos hdigits]
  cases tail with
  | nil => simp
  | cons char tail => simp [htail char rfl]

theorem splitSign_of_isDecimalDigit {char : Char} (hdigit : isDecimalDigit char)
    (rest : List Char) : splitSign (char :: rest) = (false, char :: rest) := by
  unfold splitSign
  split
  · next heq => cases heq; exact absurd hdigit (by decide)
  · next heq => cases heq; exact absurd hdigit (by decide)
  · rfl

theorem splitSign_withSign (negative : Bool) {digits rest : List Char} (hne : digits ≠ [])
    (hdigits : ∀ char ∈ digits, isDecimalDigit char) :
    splitSign (Double.withSign negative (digits ++ rest)) = (negative, digits ++ rest) := by
  cases negative with
  | true => rfl
  | false =>
    cases digits with
    | nil => exact absurd rfl hne
    | cons char digits => exact splitSign_of_isDecimalDigit (hdigits char List.mem_cons_self) _

/-- A signed number without a point, up to its exponent. -/
theorem parse?_withSign (negative : Bool) {whole tail : List Char} (hne : whole ≠ [])
    (hwhole : ∀ char ∈ whole, isDecimalDigit char) (htail : NoDigitAhead tail)
    (hpoint : tail.head? ≠ some '.') :
    parse? (Double.withSign negative (whole ++ tail)) =
      (parseExponent? tail).map fun exponent => ⟨negative, digitsValue whole, exponent⟩ := by
  simp only [parse?, splitSign_withSign negative hne hwhole,
    takeWhile_isDecimalDigit_append hwhole htail, dropWhile_isDecimalDigit_append hwhole htail]
  split
  · exact absurd rfl hpoint
  · simp [hne]

/-- A signed number with a point, up to its exponent. -/
theorem parse?_withSign_point (negative : Bool) {whole fraction tail : List Char} (hne : whole ≠ [])
    (hwhole : ∀ char ∈ whole, isDecimalDigit char)
    (hfraction : ∀ char ∈ fraction, isDecimalDigit char) (htail : NoDigitAhead tail) :
    parse? (Double.withSign negative (whole ++ '.' :: (fraction ++ tail))) =
      (parseExponent? tail).map fun exponent =>
        ⟨negative, digitsValue (whole ++ fraction), exponent - fraction.length⟩ := by
  have hpoint : NoDigitAhead ('.' :: (fraction ++ tail)) := by
    rintro char ⟨⟩
    decide
  simp only [parse?, splitSign_withSign negative hne hwhole,
    takeWhile_isDecimalDigit_append hwhole hpoint, dropWhile_isDecimalDigit_append hwhole hpoint,
    takeWhile_isDecimalDigit_append hfraction htail,
    dropWhile_isDecimalDigit_append hfraction htail]
  simp [hne]

end Decimal

namespace NumberLayout

open Decimal

theorem noDigitAhead_exponentText (layout : NumberLayout) (exponent : Int) :
    NoDigitAhead (layout.exponentText exponent) := by
  rintro char ⟨⟩
  decide

theorem parseExponent?_exponentText (layout : NumberLayout) (exponent : Int) :
    parseExponent? (layout.exponentText exponent) = some exponent := by
  have hdigits : ∀ padding : Nat, ∀ char ∈
      List.replicate padding '0' ++ decimalDigits exponent.natAbs, isDecimalDigit char := by
    intro padding char hmem
    rcases List.mem_append.1 hmem with hmem | hmem
    · exact isDecimalDigit_of_mem_replicate char hmem
    · exact isDecimalDigit_of_mem_decimalDigits char hmem
  have hvalue : ∀ padding : Nat, digitsValue
      (List.replicate padding '0' ++ decimalDigits exponent.natAbs) = exponent.natAbs := by
    intro padding
    rw [digitsValue_append, digitsValue_replicate_zero, digitsValue_decimalDigits, Nat.zero_mul,
      Nat.zero_add]
  simp only [exponentText, parseExponent?]
  by_cases hneg : exponent < 0
  · simp only [hneg, ↓reduceIte, splitSign, hvalue, true_or]
    rw [List.all_eq_true.2 (hdigits _), if_neg (by simp [decimalDigits_ne_nil])]
    exact congrArg some (by omega)
  · simp only [hneg, ↓reduceIte, splitSign, hvalue, true_or]
    rw [List.all_eq_true.2 (hdigits _), if_neg (by simp [decimalDigits_ne_nil])]
    have habs : (exponent.natAbs : Int) = exponent := by omega
    simp only [Bool.false_eq_true, ↓reduceIte, habs]

section Layouts

variable {digits : List Char} (negative : Bool)

theorem noDigitAhead_nil : NoDigitAhead [] := by
  rintro char ⟨⟩

/-- A number below one: zeros stand between the point and the digits. -/
theorem parse?_zeros_digits (hdigits : ∀ char ∈ digits, isDecimalDigit char) (zeros : Nat) :
    parse? (Double.withSign negative ('0' :: '.' :: (List.replicate zeros '0' ++ digits))) =
      some ⟨negative, digitsValue digits, -(zeros + digits.length : Int)⟩ := by
  have hfraction : ∀ char ∈ List.replicate zeros '0' ++ digits, isDecimalDigit char := by
    intro char hmem
    exact (List.mem_append.1 hmem).elim (isDecimalDigit_of_mem_replicate char) (hdigits char)
  have hzero : digitsValue ['0'] = 0 := by decide
  have hparse := parse?_withSign_point negative (List.cons_ne_nil '0' [])
    isDecimalDigit_of_mem_zero hfraction noDigitAhead_nil
  rw [List.append_nil, List.singleton_append] at hparse
  rw [hparse, digitsValue_append, digitsValue_append, digitsValue_replicate_zero, hzero]
  simp [parseExponent?]

/-- A whole number: zeros stand after the digits. -/
theorem parse?_digits_zeros (hne : digits ≠ []) (hdigits : ∀ char ∈ digits, isDecimalDigit char)
    (zeros : Nat) (pointZero : Bool) :
    ∃ read, parse? (Double.withSign negative (digits ++ List.replicate zeros '0' ++
        if pointZero then ['.', '0'] else [])) = some read ∧
      read.toDouble = toDouble ⟨negative, digitsValue digits, zeros⟩ := by
  have hwhole : ∀ char ∈ digits ++ List.replicate zeros '0', isDecimalDigit char := by
    intro char hmem
    exact (List.mem_append.1 hmem).elim (hdigits char) (isDecimalDigit_of_mem_replicate char)
  have hwholeNe : digits ++ List.replicate zeros '0' ≠ [] := by simp [hne]
  cases pointZero with
  | true =>
    refine ⟨_, parse?_withSign_point negative hwholeNe hwhole isDecimalDigit_of_mem_zero
      noDigitAhead_nil, ?_⟩
    rw [List.append_assoc, digitsValue_append, ← List.replicate_succ', digitsValue_replicate_zero,
      Nat.add_zero, List.length_replicate, toDouble_mul_ten_pow]
    congr 2
    simp
  | false =>
    refine ⟨_, parse?_withSign negative hwholeNe hwhole noDigitAhead_nil (by simp), ?_⟩
    rw [digitsValue_append, digitsValue_replicate_zero, Nat.add_zero, List.length_replicate,
      toDouble_mul_ten_pow, Int.zero_add]

/-- The point stands among the digits. -/
theorem parse?_split_digits (hdigits : ∀ char ∈ digits, isDecimalDigit char) {point : Nat}
    (hpos : 0 < point) (hpoint : point < digits.length) :
    parse? (Double.withSign negative (digits.take point ++ '.' :: digits.drop point)) =
      some ⟨negative, digitsValue digits, (point : Int) - digits.length⟩ := by
  have hne : digits.take point ≠ [] := by
    rw [← List.length_pos_iff, List.length_take]
    omega
  have hfraction : ∀ char ∈ digits.drop point, isDecimalDigit char :=
    fun char hmem => hdigits char (List.mem_of_mem_drop hmem)
  have hparse := parse?_withSign_point negative hne
    (fun char hmem => hdigits char (List.mem_of_mem_take hmem)) hfraction noDigitAhead_nil
  rw [List.append_nil] at hparse
  rw [hparse, List.take_append_drop, List.length_drop]
  simp [parseExponent?]
  omega

theorem parse?_digit_exponent (layout : NumberLayout) {digit : Char} (hdigit : isDecimalDigit digit)
    (power : Int) :
    parse? (Double.withSign negative (digit :: layout.exponentText power)) =
      some ⟨negative, digitsValue [digit], power⟩ := by
  have hparse := parse?_withSign negative (List.cons_ne_nil digit []) (by simpa using hdigit)
    (layout.noDigitAhead_exponentText power) (by rintro ⟨⟩)
  rw [List.singleton_append] at hparse
  rw [hparse, parseExponent?_exponentText, Option.map_some]

theorem parse?_digit_point_exponent (layout : NumberLayout) {digit : Char}
    (hdigits : ∀ char ∈ digit :: digits, isDecimalDigit char) (power : Int) :
    parse? (Double.withSign negative (digit :: '.' :: (digits ++ layout.exponentText power))) =
      some ⟨negative, digitsValue (digit :: digits), power - digits.length⟩ := by
  have hparse := parse?_withSign_point negative (List.cons_ne_nil digit [])
    (by simpa using hdigits digit List.mem_cons_self)
    (fun char hmem => hdigits char (List.mem_cons_of_mem _ hmem))
    (layout.noDigitAhead_exponentText power)
  rw [List.singleton_append] at hparse
  rw [hparse, parseExponent?_exponentText, List.singleton_append, Option.map_some]

end Layouts

/-- Every layout of a decimal is read as a decimal of the same value. -/
theorem parse?_decimalText (layout : NumberLayout) (negative : Bool) (decimal : Decimal) :
    ∃ read, parse? (Double.withSign negative (layout.decimalText decimal)) = some read ∧
      read.toDouble = toDouble { decimal with negative } := by
  have hne := decimalDigits_ne_nil decimal.digits
  have hdigits := @isDecimalDigit_of_mem_decimalDigits decimal.digits
  have hvalue := digitsValue_decimalDigits decimal.digits
  simp only [decimalText]
  generalize decimalDigits decimal.digits = digits at hne hdigits hvalue ⊢
  have hlength : 0 < digits.length := List.length_pos_iff.2 hne
  rw [← hvalue]
  split
  · split
    · -- a number below one
      refine ⟨_, parse?_zeros_digits negative hdigits _, ?_⟩
      congr 2
      omega
    · split
      · -- a whole number
        obtain ⟨read, hparse, hread⟩ := parse?_digits_zeros negative hne hdigits
          ((↑digits.length + decimal.exponent).toNat - digits.length) layout.pointZero
        refine ⟨read, hparse, hread.trans ?_⟩
        congr 2
        omega
      · -- the point is among the digits
        refine ⟨_, parse?_split_digits negative hdigits (by omega) (by omega), ?_⟩
        congr 2
        omega
  · split
    · exact absurd rfl hne
    · -- a single digit before the exponent
      refine ⟨_, parse?_digit_exponent negative layout (hdigits _ List.mem_cons_self) _, ?_⟩
      congr 2
      simp
    · -- a point after the first of several digits
      refine ⟨_, parse?_digit_point_exponent negative layout hdigits _, ?_⟩
      congr 2
      simp
      omega

/-- Every layout of a magnitude is read as that magnitude. -/
theorem parse?_magnitudeText (layout : NumberLayout) (negative : Bool) {units : Nat}
    (hunits : Double.Representable units) :
    ∃ read, parse? (Double.withSign negative (layout.magnitudeText units hunits)) = some read ∧
      read.toDouble = .finite negative units hunits := by
  rw [magnitudeText]
  split
  · next hzero =>
    subst hzero
    obtain ⟨read, hparse, hread⟩ := parse?_digits_zeros negative (List.cons_ne_nil '0' [])
      isDecimalDigit_of_mem_zero 0 layout.pointZero
    refine ⟨read, ?_, hread.trans rfl⟩
    rw [← hparse]
    cases layout.pointZero <;> rfl
  · obtain ⟨read, hparse, hread⟩ := layout.parse?_decimalText negative (shortest units hunits)
    exact ⟨read, hparse, hread.trans (toDouble_withSign (toDouble_shortest units hunits) negative)⟩

end NumberLayout

/-! ### Source text -/

namespace Double

/-- The number, without the sign that a zero may have. -/
def withoutZeroSign : Double → Double
  | .finite negative units hunits => .finite (negative && decide (units ≠ 0)) units hunits
  | number => number

/-- The number is neither an infinity nor the one value that is no number. -/
def IsFinite : Double → Prop
  | .finite .. => True
  | _ => False

theorem parse?_integerDigits (value : Int) :
    Decimal.parse? (integerDigits value) = some ⟨decide (value < 0), value.natAbs, 0⟩ := by
  have hparse := Decimal.parse?_withSign (decide (value < 0)) (decimalDigits_ne_nil value.natAbs)
    isDecimalDigit_of_mem_decimalDigits NumberLayout.noDigitAhead_nil (by simp)
  rw [List.append_nil, digitsValue_decimalDigits] at hparse
  refine Eq.trans ?_ (hparse.trans rfl)
  rw [integerDigits]
  by_cases hneg : value < 0 <;> simp [hneg, withSign]

theorem natAbs_signed (negative : Bool) (units : Nat) : (signed negative units).natAbs = units := by
  cases negative <;> simp [signed]

theorem signed_neg_iff (negative : Bool) (units : Nat) :
    signed negative units < 0 ↔ negative = true ∧ units ≠ 0 := by
  cases negative with
  | false => simp [signed]
  | true =>
    simp [signed]
    omega

/-- A whole number is read from its exact digits, but for the sign of a zero. -/
theorem toDouble_of_integer (negative : Bool) {count units : Nat} (hunits : Representable units)
    (hcount : count * one = units) :
    Decimal.toDouble ⟨decide (signed negative count < 0), (signed negative count).natAbs, 0⟩ =
      .finite (negative && decide (units ≠ 0)) units hunits := by
  have hsign : decide (signed negative count < 0) = (negative && decide (units ≠ 0)) := by
    rw [Bool.eq_iff_iff, ← hcount]
    simp [signed_neg_iff, one_pos.ne']
  rw [Decimal.toDouble_eq_ofRatio]
  simp only [Decimal.numerator, Decimal.denominator, natAbs_signed, hsign]
  refine ofRatio_of_roundUnits _ ?_
  have hpow : (10 : Nat) ^ (0 : Int).toNat = 1 := rfl
  have hpow' : (10 : Nat) ^ (-0 : Int).toNat = 1 := rfl
  rw [hpow, hpow', Nat.mul_one, hcount]
  exact roundUnits_of_spacing_dvd hunits.2

/-- The source text of a finite double is read as the double, but for the sign of a zero. -/
theorem parse?_sourceChars {number : Double} (hfinite : number.IsFinite) :
    ∃ read, Decimal.parse? number.sourceChars = some read ∧
      read.toDouble = number.withoutZeroSign := by
  obtain ⟨negative, units, hunits⟩ | _ | _ := number
  · rw [sourceChars, integer?]
    by_cases hwhole : units % one = 0
    · simp only [hwhole, ↓reduceIte]
      exact ⟨_, parse?_integerDigits _, toDouble_of_integer negative hunits
        (Nat.div_mul_cancel (Nat.dvd_of_mod_eq_zero hwhole))⟩
    · simp only [hwhole, ↓reduceIte, chars]
      obtain ⟨read, hparse, hread⟩ := plainLayout.parse?_magnitudeText negative hunits
      refine ⟨read, hparse, hread.trans ?_⟩
      have hne : units ≠ 0 := fun h => hwhole (by rw [h, Nat.zero_mod])
      simp [withoutZeroSign, hne]
  · exact hfinite.elim
  · exact hfinite.elim

end Double

/-! ### The characters of a number -/

namespace NumberLayout

theorem isSymbolChar_of_mem_exponentText (layout : NumberLayout) (exponent : Int) :
    ∀ char ∈ layout.exponentText exponent, Scan.isSymbolChar char := by
  have hpadding : ∀ padding : Nat, ∀ char ∈ List.replicate padding '0' ++
      decimalDigits exponent.natAbs, Scan.isSymbolChar char := by
    intro padding char hmem
    rcases List.mem_append.1 hmem with hmem | hmem
    · rw [List.eq_of_mem_replicate hmem]
      decide
    · exact isSymbolChar_of_mem_decimalDigits char hmem
  have he : Scan.isSymbolChar 'e' := by decide
  have hsign : Scan.isSymbolChar (if exponent < 0 then '-' else '+') := by split <;> decide
  simp only [exponentText, List.forall_mem_cons]
  exact ⟨he, hsign, hpadding _⟩

theorem isSymbolChar_of_mem_decimalText (layout : NumberLayout) (decimal : Decimal) :
    ∀ char ∈ layout.decimalText decimal, Scan.isSymbolChar char := by
  have hzero : Scan.isSymbolChar '0' := by decide
  have hpoint : Scan.isSymbolChar '.' := by decide
  have hzeros : ∀ zeros : Nat, ∀ char ∈ List.replicate zeros '0', Scan.isSymbolChar char := by
    intro zeros char hmem
    exact List.eq_of_mem_replicate hmem ▸ hzero
  have hexponent := layout.isSymbolChar_of_mem_exponentText
  have hdigits := @isSymbolChar_of_mem_decimalDigits decimal.digits
  simp only [decimalText]
  generalize decimalDigits decimal.digits = digits at hdigits ⊢
  split
  · split
    · simp only [List.forall_mem_cons, List.forall_mem_append]
      exact ⟨hzero, hpoint, hzeros _, hdigits⟩
    · split
      · simp only [List.forall_mem_append]
        refine ⟨⟨hdigits, hzeros _⟩, ?_⟩
        cases layout.pointZero <;> simp [hzero, hpoint]
      · simp only [List.forall_mem_cons, List.forall_mem_append]
        exact ⟨fun char hmem => hdigits char (List.mem_of_mem_take hmem), hpoint,
          fun char hmem => hdigits char (List.mem_of_mem_drop hmem)⟩
  · split
    · exact hdigits
    · simp only [List.forall_mem_cons] at hdigits ⊢
      exact ⟨hdigits.1, hexponent _⟩
    · simp only [List.forall_mem_cons, List.forall_mem_append] at hdigits ⊢
      exact ⟨hdigits.1, hpoint, hdigits.2, hexponent _⟩

theorem isSymbolChar_of_mem_magnitudeText (layout : NumberLayout) {units : Nat}
    (hunits : Double.Representable units) :
    ∀ char ∈ layout.magnitudeText units hunits, Scan.isSymbolChar char := by
  rw [magnitudeText]
  split
  · split <;> exact List.all_eq_true.1 (by decide)
  · exact layout.isSymbolChar_of_mem_decimalText _

end NumberLayout

namespace Double

theorem isSymbolChar_of_mem_withSign {negative : Bool} {text : List Char}
    (htext : ∀ char ∈ text, Scan.isSymbolChar char) :
    ∀ char ∈ withSign negative text, Scan.isSymbolChar char := by
  have hminus : Scan.isSymbolChar '-' := by decide
  cases negative with
  | false => exact htext
  | true => exact List.forall_mem_cons.2 ⟨hminus, htext⟩

/-- A number is written in characters of which symbols are made. -/
theorem isSymbolChar_of_mem_sourceChars (number : Double) :
    ∀ char ∈ number.sourceChars, Scan.isSymbolChar char := by
  rw [sourceChars]
  split
  · next value _ =>
    have hdigits := @isSymbolChar_of_mem_decimalDigits value.natAbs
    rw [integerDigits]
    split
    · exact @isSymbolChar_of_mem_withSign true _ hdigits
    · exact hdigits
  · cases number with
    | finite negative units hunits =>
      exact isSymbolChar_of_mem_withSign (plainLayout.isSymbolChar_of_mem_magnitudeText hunits)
    | infinite negative =>
      exact isSymbolChar_of_mem_withSign (List.all_eq_true.1 (by decide))
    | nan => exact List.all_eq_true.1 (by decide)

end Double

end SmallScheme
