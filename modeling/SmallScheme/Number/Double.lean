/-!
# Double precision numbers

The one number type of the language: the binary format with 53 significant bits. Every finite double
is a whole multiple of the least positive one, `2 ^ -1074`, so a finite double is stored as a sign
and that multiple. All arithmetic is done exactly on the multiples and rounded once, to the nearest
double and from a half to the even one.
-/

namespace SmallScheme

namespace Double

/-- How many of the least positive doubles make one. -/
def one : Nat := Nat.pow 2 1074

/-- The first magnitude, in units of the least positive double, that is too large for a finite
double. -/
def limit : Nat := Nat.pow 2 2098

/-- The distance between neighbouring doubles at the magnitude `units`. -/
def spacing (units : Nat) : Nat := Nat.pow 2 (units.log2 - 52)

def Representable (units : Nat) : Prop := units < limit ∧ spacing units ∣ units

instance (units : Nat) : Decidable (Representable units) := by
  unfold Representable; infer_instance

end Double

/-- A double: a signed magnitude, a signed infinity, or the one value that is no number. -/
inductive Double where
  /-- The number `units * 2 ^ -1074`, negated if `negative`; zero has both signs. -/
  | finite (negative : Bool) (units : Nat) (representable : Double.Representable units)
  | infinite (negative : Bool)
  | nan
  deriving DecidableEq

/-- The quotient rounded to the nearest natural number; a half goes to the even neighbour. -/
def roundHalfEven (numerator denominator : Nat) : Nat :=
  let floor := numerator / denominator
  let twice := 2 * (numerator % denominator)
  if twice < denominator then floor
  else if denominator < twice then floor + 1
  else if floor % 2 = 0 then floor else floor + 1

theorem roundHalfEven_le (numerator denominator : Nat) :
    roundHalfEven numerator denominator ≤ numerator / denominator + 1 := by
  unfold roundHalfEven
  dsimp only
  split
  · omega
  · split
    · omega
    · split <;> omega

namespace Double

theorem spacing_dvd_spacing {small large : Nat} (le : small ≤ large) :
    spacing small ∣ spacing large := by
  simp only [spacing, Nat.pow_eq]
  apply Nat.pow_dvd_pow
  have log_le : small.log2 ≤ large.log2 := by
    by_cases zero : small = 0
    · simp [zero]
    · exact (Nat.le_log2 (by omega)).2 (Nat.le_trans (Nat.log2_self_le zero) le)
  omega

/-- The multiple of the local spacing that is nearest to a quotient, with no regard to the limit. -/
def roundUnits (numerator denominator : Nat) : Nat :=
  let step := spacing (numerator / denominator)
  roundHalfEven numerator (denominator * step) * step

theorem spacing_dvd_roundUnits (numerator denominator : Nat) :
    spacing (roundUnits numerator denominator) ∣ roundUnits numerator denominator := by
  unfold roundUnits
  dsimp only
  have quotient_lt : numerator / denominator < 2 ^ (53 + ((numerator / denominator).log2 - 52)) :=
    Nat.lt_of_lt_of_le Nat.lt_log2_self (Nat.pow_le_pow_right (by decide) (by omega))
  have count_le := roundHalfEven_le numerator (denominator * spacing (numerator / denominator))
  rw [← Nat.div_div_eq_div_mul] at count_le
  revert quotient_lt count_le
  simp only [spacing, Nat.pow_eq]
  generalize numerator / denominator = quotient
  generalize quotient.log2 - 52 = shift
  generalize roundHalfEven numerator (denominator * 2 ^ shift) = count
  intro quotient_lt count_le
  have pow_pos : 0 < 2 ^ shift := Nat.two_pow_pos shift
  have div_lt : quotient / 2 ^ shift < 2 ^ 53 := by
    rw [Nat.div_lt_iff_lt_mul pow_pos, ← Nat.pow_add]
    exact quotient_lt
  by_cases full : count = 2 ^ 53
  · subst full
    rw [← Nat.pow_add, Nat.log2_two_pow]
    exact Nat.pow_dvd_pow 2 (by omega)
  · have count_lt : count < 2 ^ 53 := by omega
    refine Nat.dvd_trans (Nat.pow_dvd_pow 2 ?_) (Nat.dvd_mul_left (2 ^ shift) count)
    by_cases zero : count * 2 ^ shift = 0
    · simp [zero]
    · have below : count * 2 ^ shift < 2 ^ (53 + shift) := by
        rw [Nat.pow_add]
        exact Nat.mul_lt_mul_of_pos_right count_lt pow_pos
      have log_lt := (Nat.log2_lt zero).2 below
      omega

theorem Representable.mod {left right : Nat} (left_ok : Representable left)
    (right_ok : Representable right) : Representable (left % right) := by
  refine ⟨Nat.lt_of_le_of_lt (Nat.mod_le left right) left_ok.1, ?_⟩
  by_cases zero : right = 0
  · subst zero
    simpa using left_ok.2
  · have mod_lt : left % right < right := Nat.mod_lt left (by omega)
    rcases Nat.le_total left right with le | le
    · exact Nat.dvd_trans (spacing_dvd_spacing (Nat.mod_le left right))
        ((Nat.dvd_mod_iff (Nat.dvd_trans (spacing_dvd_spacing le) right_ok.2)).2 left_ok.2)
    · exact Nat.dvd_trans (spacing_dvd_spacing (Nat.le_of_lt mod_lt))
        ((Nat.dvd_mod_iff right_ok.2).2 (Nat.dvd_trans (spacing_dvd_spacing le) left_ok.2))

theorem limit_pos : 0 < limit := by
  unfold limit
  generalize 2098 = exponent
  exact Nat.two_pow_pos exponent

theorem representable_zero : Representable 0 := ⟨limit_pos, Nat.dvd_zero _⟩

def zero (negative : Bool) : Double := .finite negative 0 representable_zero

/-- The double nearest to a quotient of units, infinite when that is beyond the limit. -/
def ofRatio (negative : Bool) (numerator denominator : Nat) : Double :=
  let units := roundUnits numerator denominator
  if below : units < limit then
    .finite negative units ⟨below, spacing_dvd_roundUnits numerator denominator⟩
  else .infinite negative

def ofInt? (value : Int) : Option Double :=
  match ofRatio (decide (value < 0)) (value.natAbs * one) 1 with
  | .infinite _ => none
  | number => some number

def ofNat (value : Nat) : Double := ofRatio false (value * one) 1

def signed (negative : Bool) (units : Nat) : Int := if negative then -(units : Int) else units

/-- Where a number lies on the number line, counted in units; infinities lie just beyond every
finite number, and what is no number lies nowhere. -/
def place? : Double → Option Int
  | .finite negative units _ => some (signed negative units)
  | .infinite negative => some (signed negative limit)
  | .nan => none

def related (relation : Int → Int → Bool) (left right : Double) : Bool :=
  match left.place?, right.place? with
  | some leftPlace, some rightPlace => relation leftPlace rightPlace
  | _, _ => false

/-- Numeric equality: the zeros are equal, and what is no number equals nothing. -/
def equals : Double → Double → Bool := related (fun left right => decide (left = right))

def less : Double → Double → Bool := related (fun left right => decide (left < right))

def atMost : Double → Double → Bool := related (fun left right => decide (left ≤ right))

def isZero (number : Double) : Bool := number.equals (zero false)

def negate : Double → Double
  | .finite negative units representable => .finite (!negative) units representable
  | .infinite negative => .infinite (!negative)
  | .nan => .nan

/-- The sum; an exact zero is negative only if both operands are. -/
def add : Double → Double → Double
  | .nan, _ | _, .nan => .nan
  | .infinite left, .infinite right => if left = right then .infinite left else .nan
  | .infinite left, .finite .. => .infinite left
  | .finite .., .infinite right => .infinite right
  | .finite leftNegative left _, .finite rightNegative right _ =>
    let sum := signed leftNegative left + signed rightNegative right
    if sum = 0 then zero (leftNegative && rightNegative)
    else ofRatio (decide (sum < 0)) sum.natAbs 1

def subtract (left right : Double) : Double := left.add right.negate

/-- The product; an infinity times zero is no number. -/
def multiply : Double → Double → Double
  | .nan, _ | _, .nan => .nan
  | .infinite left, .infinite right => .infinite (left != right)
  | .infinite leftNegative, .finite rightNegative right _ =>
    if right = 0 then .nan else .infinite (leftNegative != rightNegative)
  | .finite leftNegative left _, .infinite rightNegative =>
    if left = 0 then .nan else .infinite (leftNegative != rightNegative)
  | .finite leftNegative left _, .finite rightNegative right _ =>
    ofRatio (leftNegative != rightNegative) (left * right) one

/-- The quotient; zero by zero and infinity by infinity are no number. -/
def divide : Double → Double → Double
  | .nan, _ | _, .nan => .nan
  | .infinite _, .infinite _ => .nan
  | .infinite leftNegative, .finite rightNegative _ _ => .infinite (leftNegative != rightNegative)
  | .finite leftNegative _ _, .infinite rightNegative => zero (leftNegative != rightNegative)
  | .finite leftNegative left _, .finite rightNegative right _ =>
    if right = 0 then
      if left = 0 then .nan else .infinite (leftNegative != rightNegative)
    else ofRatio (leftNegative != rightNegative) (left * one) right

/-- The exact remainder of the division toward zero, with the sign of the dividend. An infinite
dividend and a zero divisor have none. -/
def remainder? : Double → Double → Option Double
  | .nan, _ | _, .nan => some .nan
  | .infinite _, _ => none
  | .finite negative units representable, .infinite _ => some (.finite negative units representable)
  | .finite negative left leftOk, .finite _ right rightOk =>
    if right = 0 then none else some (.finite negative (left % right) (leftOk.mod rightOk))

def integer? : Double → Option Int
  | .finite negative units _ =>
    if units % one = 0 then some (signed negative (units / one)) else none
  | .infinite _ | .nan => none

end Double

end SmallScheme
