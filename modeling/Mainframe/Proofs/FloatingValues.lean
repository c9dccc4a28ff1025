import Mainframe.FloatingPoint.Basic
import Mathlib.Algebra.Order.Field.Power
import Mathlib.Data.Int.Log
import Mathlib.Data.Rat.Floor
import Mathlib.Tactic.FieldSimp
import Mathlib.Tactic.Linarith
import Mathlib.Tactic.Positivity

/-! What floating point words stand for: exact rational numbers. Unpacking an operand keeps its
value, and packing a magnitude truncates a number toward zero to 48 bits. -/

set_option autoImplicit false

namespace Mainframe.FloatingPoint

def signed (negative : Bool) (magnitude : ℚ) : ℚ := if negative then -magnitude else magnitude

@[simp] theorem abs_signed (negative : Bool) (magnitude : ℚ) :
    |signed negative magnitude| = |magnitude| := by
  cases negative <;> simp [signed]

theorem signed_mul (negative : Bool) (magnitude factor : ℚ) :
    signed negative (magnitude * factor) = signed negative magnitude * factor := by
  cases negative <;> simp [signed]

theorem signed_add (negative : Bool) (first second : ℚ) :
    signed negative (first + second) = signed negative first + signed negative second := by
  cases negative <;> simp [signed, add_comm]

theorem signed_sub (negative : Bool) (first second : ℚ) :
    signed negative (first - second) = signed negative first + signed (!negative) second := by
  cases negative <;> simp [signed, sub_eq_add_neg, add_comm]

@[simp] theorem signed_eq_zero {negative : Bool} {magnitude : ℚ} :
    signed negative magnitude = 0 ↔ magnitude = 0 := by
  cases negative <;> simp [signed]

theorem signed_lt_zero {negative : Bool} {magnitude : ℚ} (positive : 0 < magnitude) :
    signed negative magnitude < 0 ↔ negative = true := by
  cases negative <;> simp [signed, positive, positive.le]

def signedWhole (negative : Bool) (magnitude : Nat) : Int :=
  if negative then -(magnitude : Int) else magnitude

@[simp] theorem cast_signedWhole (negative : Bool) (magnitude : Nat) :
    (signedWhole negative magnitude : ℚ) = signed negative magnitude := by
  cases negative <;> simp [signedWhole, signed]

@[simp] theorem natAbs_signedWhole (negative : Bool) (magnitude : Nat) :
    (signedWhole negative magnitude).natAbs = magnitude := by
  cases negative <;> simp [signedWhole]

@[simp] theorem signedWhole_zero (negative : Bool) : signedWhole negative 0 = 0 := by
  cases negative <;> rfl

theorem signedWhole_natAbs (number : Int) :
    signedWhole (decide (number < 0)) number.natAbs = number := by
  unfold signedWhole
  simp only [decide_eq_true_eq]
  split <;> omega

theorem signedWhole_lt_zero {negative : Bool} {magnitude : Nat} (nonzero : magnitude ≠ 0) :
    signedWhole negative magnitude < 0 ↔ negative = true := by
  cases negative <;> simp [signedWhole, Nat.pos_of_ne_zero nonzero]

theorem signedWhole_add (negative : Bool) (first second : Nat) :
    signedWhole negative (first + second) =
      signedWhole negative first + signedWhole negative second := by
  unfold signedWhole
  split <;> omega

theorem signedWhole_sub (negative : Bool) {first second : Nat} (order : second ≤ first) :
    signedWhole negative (first - second) =
      signedWhole negative first + signedWhole (!negative) second := by
  cases negative <;> simp only [signedWhole, Bool.not_true, Bool.not_false, Bool.false_eq_true,
    if_true, if_false] <;> omega

def value (word : Word) : ℚ :=
  signed (signBit word) (coefficient word * 2 ^ (biasedExponent word - bias - 48))

/-- The exponent with which a nonzero number is normalized: it is at least one half times two to
this exponent, and less than two to it. -/
def exponentOf (number : ℚ) : Int := Int.log 2 |number| + 1

theorem exponentOf_eq {number : ℚ} {exponent : Int} (low : (2 : ℚ) ^ (exponent - 1) ≤ |number|)
    (high : |number| < 2 ^ exponent) : exponentOf number = exponent := by
  have positive : 0 < |number| := (zpow_pos two_pos (exponent - 1)).trans_le low
  have least : exponent - 1 ≤ Int.log 2 |number| :=
    (Int.zpow_le_iff_le_log (by decide) positive).mp (by exact_mod_cast low)
  have most : Int.log 2 |number| < exponent :=
    (Int.lt_zpow_iff_log_lt (by decide) positive).mp (by exact_mod_cast high)
  unfold exponentOf
  omega

structure Normalized (word : Word) : Prop where
  smallest : smallestExponent ≤ biasedExponent word
  largest : biasedExponent word ≤ largestExponent
  leading : 2 ^ 47 ≤ coefficient word

/-- A normalized word stands for a number truncated toward zero: what is cut off is less than the
last place of its coefficient. -/
structure Truncates (word : Word) (number : ℚ) : Prop where
  normalized : Normalized word
  sign : signBit word = decide (number < 0)
  toward : |value word| ≤ |number|
  close : |number| < |value word| + 2 ^ (biasedExponent word - bias - 48)

inductive Rounded (number : ℚ) : Except FloatFault Word → Prop where
  | zero (zero : number = 0) : Rounded number (.ok 0)
  | overflow (above : largestExponent < exponentOf number + bias) :
      Rounded number (.error .exponentOverflow)
  | underflow (below : exponentOf number + bias < smallestExponent) :
      Rounded number (.error .exponentUnderflow)
  | word (word : Word) (truncates : Truncates word number) : Rounded number (.ok word)

theorem coefficient_lt (word : Word) : coefficient word < 2 ^ 48 :=
  (word.extractLsb' 0 48).isLt

theorem word_ext {left right : Word} (sign : signBit left = signBit right)
    (exponent : biasedExponent left = biasedExponent right)
    (bits : coefficient left = coefficient right) : left = right := by
  unfold biasedExponent at exponent
  have exponent : left.extractLsb' 48 15 = right.extractLsb' 48 15 :=
    BitVec.eq_of_toNat_eq (by omega)
  have bits : left.extractLsb' 0 48 = right.extractLsb' 0 48 := BitVec.eq_of_toNat_eq bits
  refine BitVec.eq_of_getLsbD_eq fun place inside => ?_
  rcases Nat.lt_or_ge place 48 with low | high
  · have same := congrArg (·.getLsbD place) bits
    simpa [BitVec.getLsbD_extractLsb', low] using same
  rcases Nat.lt_or_ge place 63 with middle | last
  · have same := congrArg (·.getLsbD (place - 48)) exponent
    simpa [BitVec.getLsbD_extractLsb', show place - 48 < 15 by omega,
      show 48 + (place - 48) = place by omega] using same
  · obtain rfl : place = 63 := by omega
    simpa [signBit, BitVec.msb_eq_getLsbD_last] using sign

theorem parts_append (negative : Bool) {biased : Int} (low : 0 ≤ biased) (high : biased < 2 ^ 15)
    {bits : Nat} (small : bits < 2 ^ 48) :
    let word : Word := BitVec.ofBool negative ++ BitVec.ofInt 15 biased ++ BitVec.ofNat 48 bits
    signBit word = negative ∧ biasedExponent word = biased ∧ coefficient word = bits := by
  intro word
  refine ⟨?_, ?_, ?_⟩
  · have outer := BitVec.msb_append (x := BitVec.ofBool negative ++ BitVec.ofInt 15 biased)
      (y := BitVec.ofNat 48 bits)
    have inner := BitVec.msb_append (x := BitVec.ofBool negative) (y := BitVec.ofInt 15 biased)
    rw [if_neg (by decide)] at outer inner
    exact outer.trans (inner.trans (BitVec.msb_ofBool negative))
  · have part : word.extractLsb' 48 15 = BitVec.ofInt 15 biased :=
      (BitVec.extractLsb'_append_eq_of_le (Nat.le_refl 48)).trans
        BitVec.extractLsb'_append_eq_right
    unfold biasedExponent
    rw [part, BitVec.toNat_ofInt]
    omega
  · have part : word.extractLsb' 0 48 = BitVec.ofNat 48 bits := BitVec.extractLsb'_append_eq_right
    unfold coefficient
    rw [part, BitVec.toNat_ofNat, Nat.mod_eq_of_lt small]

/-! ## Truncation -/

theorem exponentOf_of_bits {number : ℚ} {bits : Nat} {exponent : Int} (leading : 2 ^ 47 ≤ bits)
    (small : bits < 2 ^ 48) (below : (bits : ℚ) * 2 ^ (exponent - 48) ≤ |number|)
    (above : |number| < (bits + 1) * 2 ^ (exponent - 48)) : exponentOf number = exponent := by
  have unit : (0 : ℚ) < 2 ^ (exponent - 48) := zpow_pos two_pos _
  have places (count : Nat) : (2 : ℚ) ^ (exponent - 48 + count) =
      2 ^ count * 2 ^ (exponent - 48) := by
    rw [zpow_add₀ two_ne_zero, zpow_natCast, mul_comm]
  have first := places 47
  have past := places 48
  rw [show exponent - 48 + ((47 : Nat) : Int) = exponent - 1 by omega] at first
  rw [show exponent - 48 + ((48 : Nat) : Int) = exponent by omega] at past
  have leading : (2 ^ 47 : ℚ) ≤ bits := by exact_mod_cast leading
  have small : (bits + 1 : ℚ) ≤ 2 ^ 48 := by exact_mod_cast small
  refine exponentOf_eq ?_ ?_
  · rw [first]
    exact (mul_le_mul_of_nonneg_right leading unit.le).trans below
  · rw [past]
    exact above.trans_le (mul_le_mul_of_nonneg_right small unit.le)

theorem abs_value (word : Word) :
    |value word| = coefficient word * 2 ^ (biasedExponent word - bias - 48) := by
  unfold value
  rw [abs_signed, abs_of_nonneg]
  positivity

theorem Normalized.not_indefinite {word : Word} (normalized : Normalized word) :
    ¬ IsIndefinite word :=
  fun indefinite => indefinite.2 ⟨normalized.smallest, normalized.largest⟩

namespace Truncates

variable {word other : Word} {number : ℚ}

theorem bits (truncates : Truncates word number) :
    (coefficient word : ℚ) * 2 ^ (biasedExponent word - bias - 48) ≤ |number| ∧
      |number| < (coefficient word + 1) * 2 ^ (biasedExponent word - bias - 48) := by
  rw [add_one_mul, ← abs_value]
  exact ⟨truncates.toward, truncates.close⟩

theorem exponentOf_eq (truncates : Truncates word number) :
    exponentOf number = biasedExponent word - bias :=
  exponentOf_of_bits truncates.normalized.leading (coefficient_lt word) truncates.bits.1
    truncates.bits.2

theorem ne_zero (truncates : Truncates word number) : number ≠ 0 := by
  rintro rfl
  have leading := truncates.normalized.leading
  have some : (0 : ℚ) < coefficient word := by exact_mod_cast (by omega : 0 < coefficient word)
  have positive := mul_pos some (zpow_pos two_pos (biasedExponent word - bias - 48))
  have none := truncates.bits.1
  rw [abs_zero] at none
  exact absurd positive (not_lt.mpr none)

theorem parts_eq (truncates : Truncates word number) {bits : Nat} {exponent : Int}
    (leading : 2 ^ 47 ≤ bits) (small : bits < 2 ^ 48)
    (below : (bits : ℚ) * 2 ^ (exponent - 48) ≤ |number|)
    (above : |number| < (bits + 1) * 2 ^ (exponent - 48)) :
    biasedExponent word - bias = exponent ∧ coefficient word = bits := by
  have same : biasedExponent word - bias = exponent :=
    truncates.exponentOf_eq.symm.trans (exponentOf_of_bits leading small below above)
  refine ⟨same, ?_⟩
  obtain ⟨low, high⟩ := truncates.bits
  rw [same] at low high
  have unit := zpow_pos (two_pos (α := ℚ)) (exponent - 48)
  have first := lt_of_mul_lt_mul_right (below.trans_lt high) unit.le
  have second := lt_of_mul_lt_mul_right (low.trans_lt above) unit.le
  have first : bits < coefficient word + 1 := by exact_mod_cast first
  have second : coefficient word < bits + 1 := by exact_mod_cast second
  omega

theorem value_of_bits (truncates : Truncates word number) {bits : Nat} {exponent : Int}
    (leading : 2 ^ 47 ≤ bits) (small : bits < 2 ^ 48)
    (below : (bits : ℚ) * 2 ^ (exponent - 48) ≤ |number|)
    (above : |number| < (bits + 1) * 2 ^ (exponent - 48)) :
    value word = signed (decide (number < 0)) (bits * 2 ^ (exponent - 48)) := by
  obtain ⟨same, kept⟩ := truncates.parts_eq leading small below above
  unfold value
  rw [truncates.sign, same, kept]

theorem unique (truncates : Truncates word number) (again : Truncates other number) :
    word = other := by
  obtain ⟨exponent, bits⟩ := truncates.parts_eq again.normalized.leading (coefficient_lt other)
    again.bits.1 again.bits.2
  exact word_ext (truncates.sign.trans again.sign.symm) (by omega) bits

end Truncates

theorem exponentOf_zero : exponentOf 0 = 1 := by simp [exponentOf]

theorem Rounded.unique {number : ℚ} {outcome other : Except FloatFault Word}
    (rounded : Rounded number outcome) (again : Rounded number other) : outcome = other := by
  have inside {word : Word} (truncates : Truncates word number) :
      smallestExponent ≤ exponentOf number + bias ∧
        exponentOf number + bias ≤ largestExponent := by
    rw [truncates.exponentOf_eq]
    have smallest := truncates.normalized.smallest
    have largest := truncates.normalized.largest
    omega
  have origin (zero : number = 0) : exponentOf number + bias = 0x4001 := by
    rw [zero, exponentOf_zero]
    rfl
  have smallest : smallestExponent = 0x3000 := rfl
  have largest : largestExponent = 0x4FFF := rfl
  -- The four outcomes exclude each other by the exponent: zero is given one that words have.
  cases rounded with
  | zero zero =>
    have origin := origin zero
    cases again with
    | zero => rfl
    | overflow | underflow => omega
    | word _ truncates => exact absurd zero truncates.ne_zero
  | overflow above =>
    cases again with
    | overflow => rfl
    | zero zero =>
      have origin := origin zero
      omega
    | underflow => omega
    | word _ truncates =>
      have inside := inside truncates
      omega
  | underflow below =>
    cases again with
    | underflow => rfl
    | zero zero =>
      have origin := origin zero
      omega
    | overflow => omega
    | word _ truncates =>
      have inside := inside truncates
      omega
  | word word truncates =>
    have inside := inside truncates
    cases again with
    | zero zero => exact absurd zero truncates.ne_zero
    | overflow | underflow => omega
    | word other again => rw [truncates.unique again]

theorem Rounded.ne_indefinite {number : ℚ} {outcome : Except FloatFault Word}
    (rounded : Rounded number outcome) : outcome ≠ .error .indefinite := by
  cases rounded <;> exact nofun

theorem Rounded.ne_divideByZero {number : ℚ} {outcome : Except FloatFault Word}
    (rounded : Rounded number outcome) : outcome ≠ .error .divideByZero := by
  cases rounded <;> exact nofun

theorem Rounded.truncates {number : ℚ} {outcome : Except FloatFault Word}
    (rounded : Rounded number outcome) (nonzero : number ≠ 0)
    (smallest : smallestExponent ≤ exponentOf number + bias)
    (largest : exponentOf number + bias ≤ largestExponent) :
    ∃ word, outcome = .ok word ∧ Truncates word number := by
  cases rounded with
  | zero zero => exact absurd zero nonzero
  | overflow above => exact absurd largest (not_le.mpr above)
  | underflow below => exact absurd smallest (not_le.mpr below)
  | word word truncates => exact ⟨word, rfl, truncates⟩

/-- The outcome is a number truncated to a word, or tells on which side of the range its exponent
lies. -/
structure TruncationLaw (number : ℚ) (outcome : Except FloatFault Word) : Prop where
  rounded : Rounded number outcome
  zero : outcome = .ok 0 ↔ number = 0
  overflow : outcome = .error .exponentOverflow ↔ largestExponent < exponentOf number + bias
  underflow : outcome = .error .exponentUnderflow ↔ exponentOf number + bias < smallestExponent

theorem Rounded.truncationLaw {number : ℚ} {outcome : Except FloatFault Word}
    (rounded : Rounded number outcome) : TruncationLaw number outcome where
  rounded := rounded
  zero := by
    refine ⟨fun blank => ?_, fun zero => rounded.unique (.zero zero)⟩
    cases rounded with
    | zero zero => exact zero
    | overflow | underflow => cases blank
    | word word truncates =>
      cases blank
      exact absurd truncates.normalized.leading (by decide)
  overflow := by
    refine ⟨fun fault => ?_, fun above => rounded.unique (.overflow above)⟩
    cases rounded with
    | overflow above => exact above
    | zero | underflow | word => cases fault
  underflow := by
    refine ⟨fun fault => ?_, fun below => rounded.unique (.underflow below)⟩
    cases rounded with
    | underflow below => exact below
    | zero | overflow | word => cases fault

/-! ## Unpacking -/

namespace Operand

def value (operand : Operand) : ℚ :=
  signed operand.negative (operand.coefficient * 2 ^ (operand.exponent - 48))

structure Normal (operand : Operand) : Prop where
  leading : 2 ^ 47 ≤ operand.coefficient
  small : operand.coefficient < 2 ^ 48

theorem abs_value (operand : Operand) :
    |operand.value| = operand.coefficient * 2 ^ (operand.exponent - 48) := by
  unfold value
  rw [abs_signed, abs_of_nonneg]
  positivity

theorem abs_value_lt (operand : Operand) :
    |operand.value| < (operand.coefficient + 1) * 2 ^ (operand.exponent - 48) := by
  rw [operand.abs_value]
  exact mul_lt_mul_of_pos_right (lt_add_one _) (zpow_pos two_pos _)

namespace Normal

variable {operand : Operand}

theorem exponentOf_value (normal : operand.Normal) :
    exponentOf operand.value = operand.exponent :=
  exponentOf_of_bits normal.leading normal.small operand.abs_value.ge operand.abs_value_lt

theorem coefficient_ne_zero (normal : operand.Normal) : operand.coefficient ≠ 0 := by
  have leading := normal.leading
  omega

theorem value_ne_zero (normal : operand.Normal) : operand.value ≠ 0 := by
  have some : (operand.coefficient : ℚ) ≠ 0 := Nat.cast_ne_zero.mpr normal.coefficient_ne_zero
  exact signed_eq_zero.not.mpr (mul_ne_zero some (zpow_ne_zero _ two_ne_zero))

theorem sign_value (normal : operand.Normal) :
    decide (operand.value < 0) = operand.negative := by
  have some : (0 : ℚ) < operand.coefficient :=
    Nat.cast_pos.mpr (Nat.pos_of_ne_zero normal.coefficient_ne_zero)
  rw [Bool.eq_iff_iff, decide_eq_true_iff]
  exact signed_lt_zero (mul_pos some (zpow_pos two_pos _))

end Normal

end Operand

theorem Truncates.value_eq {word : Word} {operand : Operand}
    (truncates : Truncates word operand.value) (normal : operand.Normal) :
    FloatingPoint.value word = operand.value := by
  rw [truncates.value_of_bits normal.leading normal.small operand.abs_value.ge
    operand.abs_value_lt, normal.sign_value]
  rfl

theorem log2_le {coefficient : Nat} (small : coefficient < 2 ^ 48) : coefficient.log2 ≤ 47 := by
  rcases Nat.eq_zero_or_pos coefficient with zero | positive
  · rw [zero]
    decide
  · exact Nat.lt_succ_iff.mp ((Nat.log2_lt positive.ne').mpr small)

theorem shift_leadingZeros {coefficient : Nat} (nonzero : coefficient ≠ 0)
    (small : coefficient < 2 ^ 48) :
    2 ^ 47 ≤ coefficient <<< leadingZeros coefficient ∧
      coefficient <<< leadingZeros coefficient < 2 ^ 48 := by
  have most := log2_le small
  have least := Nat.log2_self_le nonzero
  have above : coefficient < 2 ^ (coefficient.log2 + 1) := Nat.lt_log2_self
  have first : 2 ^ coefficient.log2 * 2 ^ (47 - coefficient.log2) = 2 ^ 47 :=
    pow_mul_pow_sub 2 most
  have past : 2 ^ (coefficient.log2 + 1) * 2 ^ (47 - coefficient.log2) = 2 ^ 48 := by
    rw [Nat.pow_succ', Nat.mul_assoc, first]
    rfl
  unfold leadingZeros
  rw [Nat.shiftLeft_eq, ← first, ← past]
  exact ⟨Nat.mul_le_mul_right _ least, Nat.mul_lt_mul_of_pos_right above (Nat.two_pow_pos _)⟩

/-- An operand for a number, or none for zero. A word may be unnormalized, so the exponent of its
operand may be below the range. -/
inductive StandsFor (number : ℚ) : Option Operand → Prop where
  | zero (zero : number = 0) : StandsFor number none
  | operand (operand : Operand) (normal : operand.Normal) (same : operand.value = number)
      (low : smallestExponent - bias - 47 ≤ operand.exponent)
      (high : operand.exponent ≤ largestExponent - bias) : StandsFor number (some operand)

theorem StandsFor.eq_none_iff {number : ℚ} {operand : Option Operand}
    (stands : StandsFor number operand) : operand = none ↔ number = 0 := by
  cases stands with
  | zero zero => simp [zero]
  | operand operand normal same => simp [← same, normal.value_ne_zero]

inductive Unpacked (word : Word) : Except FloatFault (Option Operand) → Prop where
  | indefinite (indefinite : IsIndefinite word) : Unpacked word (.error .indefinite)
  | definite (operand : Option Operand) (definite : ¬ IsIndefinite word)
      (stands : StandsFor (value word) operand) : Unpacked word (.ok operand)

theorem unpack_unpacked (word : Word) : Unpacked word (unpack word) := by
  unfold unpack
  split
  next indefinite => exact .indefinite indefinite
  next definite =>
  split
  next zero =>
    refine .definite none definite (.zero ?_)
    simp [value, zero, signed]
  next nonzero =>
    have inside : smallestExponent ≤ biasedExponent word ∧
        biasedExponent word ≤ largestExponent := by
      by_contra outside
      exact definite ⟨fun zero => nonzero zero.2, outside⟩
    -- The coefficient is shifted up until its first bit is set, and the exponent lowered by as
    -- much.
    obtain ⟨leading, small⟩ := shift_leadingZeros nonzero (coefficient_lt word)
    have shift : leadingZeros (coefficient word) ≤ 47 := Nat.sub_le _ _
    refine .definite _ definite (.operand _ ⟨leading, small⟩ ?_ ?_ ?_)
    · unfold Operand.value value
      dsimp only
      rw [Nat.shiftLeft_eq, Nat.cast_mul, Nat.cast_pow, Nat.cast_ofNat, mul_assoc,
        ← zpow_natCast, ← zpow_add₀ two_ne_zero]
      congr 3
      omega
    · dsimp only
      omega
    · dsimp only
      omega

theorem normal_of_unpack {word : Word} {operand : Operand}
    (unpacked : unpack word = .ok (some operand)) : operand.Normal := by
  have found := unpack_unpacked word
  rw [unpacked] at found
  cases found with
  | definite _ _ stands =>
    cases stands with
    | operand _ normal => exact normal

/-- What an operation on two words comes to: both are unpacked before it looks at either. -/
inductive Operates {α : Type} (left right : Word)
    (operate : Option Operand → Option Operand → Except FloatFault α) :
    Except FloatFault α → Prop where
  | indefinite (either : IsIndefinite left ∨ IsIndefinite right) :
      Operates left right operate (.error .indefinite)
  | definite (first second : Option Operand) (definite : ¬ IsIndefinite left)
      (others : ¬ IsIndefinite right) (stands : StandsFor (value left) first)
      (standing : StandsFor (value right) second) :
      Operates left right operate (operate first second)

theorem operates {α : Type} (left right : Word)
    (operate : Option Operand → Option Operand → Except FloatFault α) :
    Operates left right operate (do operate (← unpack left) (← unpack right)) := by
  have first := unpack_unpacked left
  have second := unpack_unpacked right
  generalize unpack left = found at first
  generalize unpack right = other at second
  cases first with
  | indefinite indefinite => exact .indefinite (.inl indefinite)
  | definite first definite stands =>
    cases second with
    | indefinite indefinite => exact .indefinite (.inr indefinite)
    | definite second others standing =>
      exact .definite first second definite others stands standing

namespace Operates

variable {α : Type} {left right : Word}
  {operate : Option Operand → Option Operand → Except FloatFault α} {outcome : Except FloatFault α}

theorem indefinite_iff (operated : Operates left right operate outcome)
    (proper : ∀ first second, StandsFor (value left) first → StandsFor (value right) second →
      operate first second ≠ .error .indefinite) :
    outcome = .error .indefinite ↔ IsIndefinite left ∨ IsIndefinite right := by
  cases operated with
  | indefinite either => exact ⟨fun _ => either, fun _ => rfl⟩
  | definite first second definite others stands standing =>
    exact ⟨fun fault => absurd fault (proper first second stands standing),
      fun either => absurd either (not_or.mpr ⟨definite, others⟩)⟩

theorem of_definite (operated : Operates left right operate outcome)
    (definite : ¬ IsIndefinite left) (others : ¬ IsIndefinite right) :
    ∃ first second, StandsFor (value left) first ∧ StandsFor (value right) second ∧
      outcome = operate first second := by
  cases operated with
  | indefinite either => exact absurd either (not_or.mpr ⟨definite, others⟩)
  | definite first second _ _ stands standing => exact ⟨first, second, stands, standing, rfl⟩

end Operates

/-! ## Packing -/

theorem leadingBits_bounds {magnitude : Nat} (nonzero : magnitude ≠ 0) :
    2 ^ 47 ≤ leadingBits magnitude ∧ leadingBits magnitude < 2 ^ 48 := by
  unfold leadingBits
  split
  next wide =>
    have least := Nat.log2_self_le nonzero
    have above : magnitude < 2 ^ (magnitude.log2 + 1) := Nat.lt_log2_self
    have first : 2 ^ 47 * 2 ^ (magnitude.log2 - 47) = 2 ^ magnitude.log2 :=
      pow_mul_pow_sub 2 wide.le
    have past : 2 ^ 48 * 2 ^ (magnitude.log2 - 47) = 2 ^ (magnitude.log2 + 1) := by
      rw [Nat.pow_succ' (n := magnitude.log2), ← first, ← Nat.mul_assoc]
      rfl
    rw [← first] at least
    rw [← past] at above
    rw [Nat.shiftRight_eq_div_pow]
    exact ⟨(Nat.le_div_iff_mul_le (Nat.two_pow_pos _)).mpr least,
      (Nat.div_lt_iff_lt_mul (Nat.two_pow_pos _)).mpr above⟩
  next narrow =>
    refine shift_leadingZeros nonzero ?_
    exact (Nat.log2_lt nonzero).mp (by omega)

/-- The leading bits of a magnitude are also those of the number. -/
structure Leads (magnitude : Nat) (number : ℚ) : Prop where
  below : (leadingBits magnitude : ℚ) * 2 ^ ((magnitude.log2 : Int) - 47) ≤ number
  above : number < (leadingBits magnitude + 1) * 2 ^ ((magnitude.log2 : Int) - 47)

namespace Leads

variable {magnitude : Nat} {number : ℚ}

/-- A number is cut to the same bits as a wide magnitude not above it. So is a number less than
one below the magnitude, if something is cut from the magnitude itself. -/
theorem of_close (wide : 47 ≤ magnitude.log2)
    (below : (magnitude : ℚ) ≤ number ∨
      ¬ 2 ^ (magnitude.log2 - 47) ∣ magnitude ∧ (magnitude : ℚ) - 1 ≤ number)
    (above : number < magnitude + 1) : Leads magnitude number := by
  obtain ⟨places, counted⟩ : ∃ places, magnitude.log2 = 47 + places :=
    ⟨magnitude.log2 - 47, by omega⟩
  have bits : leadingBits magnitude = magnitude / 2 ^ places := by
    unfold leadingBits
    split
    · rw [Nat.shiftRight_eq_div_pow, counted, Nat.add_sub_cancel_left]
    · obtain rfl : places = 0 := by omega
      simp [counted]
  have unit : (2 : ℚ) ^ ((magnitude.log2 : Int) - 47) = ((2 ^ places : Nat) : ℚ) := by
    rw [counted, show ((47 + places : Nat) : Int) - 47 = places by omega]
    simp
  rw [counted, Nat.add_sub_cancel_left] at below
  have cut := Nat.div_add_mod magnitude (2 ^ places)
  have rest := Nat.mod_lt magnitude (Nat.two_pow_pos places)
  rw [Nat.mul_comm] at cut
  -- The leading bits are a quotient, and what is cut from the magnitude is the remainder.
  constructor
  · rw [bits, unit, ← Nat.cast_mul]
    rcases below with least | ⟨indivisible, least⟩
    · have kept : magnitude / 2 ^ places * 2 ^ places ≤ magnitude := Nat.div_mul_le_self _ _
      exact (Nat.cast_le.mpr kept).trans least
    -- Something is cut, so that one less than the magnitude still has the same quotient.
    · have some : magnitude % 2 ^ places ≠ 0 := fun none =>
        indivisible (Nat.dvd_of_mod_eq_zero none)
      have kept : magnitude / 2 ^ places * 2 ^ places + 1 ≤ magnitude := by omega
      have kept : ((magnitude / 2 ^ places * 2 ^ places : Nat) : ℚ) + 1 ≤ magnitude := by
        exact_mod_cast kept
      linarith
  · rw [bits, unit]
    have past : magnitude + 1 ≤ (magnitude / 2 ^ places + 1) * 2 ^ places := by
      rw [Nat.add_one_mul]
      omega
    have past : (magnitude : ℚ) + 1 ≤
        ((magnitude / 2 ^ places : Nat) + 1) * ((2 ^ places : Nat) : ℚ) := by
      exact_mod_cast past
    linarith

theorem self (magnitude : Nat) : Leads magnitude magnitude := by
  rcases Nat.lt_or_ge magnitude.log2 47 with narrow | wide
  · have bits : (leadingBits magnitude : ℚ) * 2 ^ ((magnitude.log2 : Int) - 47) = magnitude := by
      unfold leadingBits
      rw [if_neg (by omega), Nat.shiftLeft_eq, Nat.cast_mul, Nat.cast_pow, Nat.cast_ofNat,
        mul_assoc, ← zpow_natCast, ← zpow_add₀ two_ne_zero,
        show ((47 - magnitude.log2 : Nat) : Int) + (magnitude.log2 - 47) = 0 by omega, zpow_zero,
        mul_one]
    refine ⟨bits.le, ?_⟩
    rw [add_one_mul, bits]
    exact lt_add_of_pos_right _ (zpow_pos two_pos _)
  · exact of_close wide (.inl le_rfl) (lt_add_one _)

end Leads

/-- Packing a magnitude truncates the number that it leads, or finds that its exponent is out of
range. -/
theorem pack_rounded (negative : Bool) {magnitude : Nat} (scale : Int) {number : ℚ}
    (nonzero : magnitude ≠ 0) (leads : Leads magnitude number) :
    Rounded (signed negative (number * 2 ^ scale)) (pack negative magnitude scale) := by
  obtain ⟨leading, small⟩ := leadingBits_bounds nonzero
  obtain ⟨exponent, isExponent⟩ : ∃ exponent, exponent = scale + magnitude.log2 + 1 := ⟨_, rfl⟩
  -- What is known of the leading bits is scaled to the number, which has the exponent that is
  -- packed.
  have unit : (2 : ℚ) ^ ((magnitude.log2 : Int) - 47) * 2 ^ scale = 2 ^ (exponent - 48) := by
    rw [← zpow_add₀ two_ne_zero]
    congr 1
    omega
  have scaled := zpow_pos (two_pos (α := ℚ)) scale
  have below := mul_le_mul_of_nonneg_right leads.below scaled.le
  have above := mul_lt_mul_of_pos_right leads.above scaled
  rw [mul_assoc, unit] at below above
  have some : (0 : ℚ) < leadingBits magnitude := by
    exact_mod_cast (by omega : 0 < leadingBits magnitude)
  have positive : 0 < number * 2 ^ scale := (mul_pos some (zpow_pos two_pos _)).trans_le below
  have absolute : |signed negative (number * 2 ^ scale)| = number * 2 ^ scale := by
    rw [abs_signed, abs_of_pos positive]
  have exponentOf : exponentOf (signed negative (number * 2 ^ scale)) = exponent :=
    exponentOf_of_bits leading small (by rwa [absolute]) (by rwa [absolute])
  unfold pack
  rw [if_neg nonzero, ← isExponent]
  dsimp only
  split
  next above => exact .overflow (by rwa [exponentOf])
  split
  next low => exact .underflow (by rwa [exponentOf])
  next inside outside =>
  -- The exponent fits its field now, so the parts of the word can be read back.
  have smallest : smallestExponent = 0x3000 := rfl
  have largest : largestExponent = 0x4FFF := rfl
  obtain ⟨sign, biased, bits⟩ :=
    parts_append negative (show 0 ≤ exponent + bias by omega) (by omega) small
  refine .word _ ⟨⟨?_, ?_, ?_⟩, ?_, ?_, ?_⟩
  · omega
  · omega
  · rwa [bits]
  · rw [sign, Bool.eq_iff_iff, decide_eq_true_iff, signed_lt_zero positive]
  · rwa [absolute, abs_value, biased, bits, add_sub_cancel_right]
  · rwa [absolute, abs_value, biased, bits, add_sub_cancel_right, ← add_one_mul]

end Mainframe.FloatingPoint
