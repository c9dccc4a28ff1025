import Mainframe.FloatingPoint.Arithmetic
import Mainframe.Proofs.FloatingValues
import Mathlib.Data.Nat.Cast.Field
import Mathlib.Data.Nat.Cast.Order.Field

/-! Sums and differences of floating point words. An addend loses the bits that fall below the guard
when it is aligned, and the sum is truncated after that. As long as the addend with the smaller
exponent keeps one bit, the sum is that of the exact values, truncated once. Past that distance it
is the other addend. -/

set_option autoImplicit false

namespace Mainframe.FloatingPoint

/-! ## Alignment -/

/-- The magnitude of an addend in units of the last guard bit, at an exponent that is higher by a
number of places. What falls below the guard is cut off. -/
def cutAt (places : Nat) (addend : Operand) : Nat := (addend.coefficient <<< guardBits) >>> places

def placed (places : Nat) (addend : Operand) : ℚ :=
  addend.coefficient * 2 ^ 64 / 2 ^ places

variable {left right addend : Operand} {places : Nat}

theorem cutAt_eq (places : Nat) (addend : Operand) :
    cutAt places addend = addend.coefficient * 2 ^ 64 / 2 ^ places := by
  rw [cutAt, Nat.shiftRight_eq_div_pow, Nat.shiftLeft_eq]
  rfl

theorem placed_eq (places : Nat) (addend : Operand) :
    placed places addend =
      ((addend.coefficient * 2 ^ 64 : Nat) : ℚ) / ((2 ^ places : Nat) : ℚ) := by
  unfold placed
  push_cast
  rfl

theorem cutAt_le_placed (places : Nat) (addend : Operand) :
    (cutAt places addend : ℚ) ≤ placed places addend := by
  rw [cutAt_eq, placed_eq]
  exact Nat.cast_div_le

theorem placed_lt_cutAt (places : Nat) (addend : Operand) :
    placed places addend < cutAt places addend + 1 := by
  have unit : (0 : ℚ) < ((2 ^ places : Nat) : ℚ) := by positivity
  have past := Nat.lt_mul_div_succ (addend.coefficient * 2 ^ 64) (Nat.two_pow_pos places)
  rw [← cutAt_eq, Nat.mul_comm (2 ^ places)] at past
  rw [placed_eq, div_lt_iff₀ unit, ← Nat.cast_add_one, ← Nat.cast_mul]
  exact Nat.cast_lt.mpr past

theorem placed_eq_cutAt (within : places ≤ 64) (addend : Operand) :
    placed places addend = cutAt places addend := by
  have divides : 2 ^ places ∣ addend.coefficient * 2 ^ 64 :=
    Dvd.dvd.mul_left (Nat.pow_dvd_pow 2 within) _
  have unit : ((2 ^ places : Nat) : ℚ) ≠ 0 := by positivity
  rw [cutAt_eq, placed_eq, Nat.cast_div divides unit]

theorem value_eq_placed (places : Nat) (addend : Operand) :
    addend.value =
      signed addend.negative (placed places addend * 2 ^ (addend.exponent + places - 112)) := by
  have unit : (2 : ℚ) ^ (addend.exponent + places - 112) =
      2 ^ (addend.exponent - 48) * 2 ^ places / 2 ^ 64 := by
    rw [show addend.exponent + places - 112 = addend.exponent - 48 + places - (64 : Nat) by omega,
      zpow_sub₀ two_ne_zero, zpow_add₀ two_ne_zero, zpow_natCast, zpow_natCast]
  unfold Operand.value placed
  rw [unit]
  congr 1
  field_simp

namespace Operand.Normal

theorem cutAt_lt (normal : addend.Normal) (past : 64 < places) : cutAt places addend < 2 ^ 47 := by
  have small := normal.small
  rw [cutAt_eq, Nat.div_lt_iff_lt_mul (Nat.two_pow_pos _)]
  calc addend.coefficient * 2 ^ 64 < 2 ^ 48 * 2 ^ 64 := Nat.mul_lt_mul_of_pos_right small (by decide)
    _ = 2 ^ 47 * 2 ^ 65 := by decide
    _ ≤ 2 ^ 47 * 2 ^ places := Nat.mul_le_mul_left _ (Nat.pow_le_pow_right (by decide) past)

theorem cutAt_pos (normal : addend.Normal) (near : places ≤ 111) : 0 < cutAt places addend := by
  have leading := normal.leading
  rw [cutAt_eq]
  refine Nat.div_pos ?_ (Nat.two_pow_pos _)
  calc 2 ^ places ≤ 2 ^ 111 := Nat.pow_le_pow_right (by decide) near
    _ = 2 ^ 47 * 2 ^ 64 := by decide
    _ ≤ addend.coefficient * 2 ^ 64 := Nat.mul_le_mul_right _ leading

theorem cutAt_eq_zero (normal : addend.Normal) (far : 112 ≤ places) : cutAt places addend = 0 := by
  have small := normal.small
  rw [cutAt_eq]
  refine Nat.div_eq_of_lt ?_
  calc addend.coefficient * 2 ^ 64 < 2 ^ 48 * 2 ^ 64 := Nat.mul_lt_mul_of_pos_right small (by decide)
    _ = 2 ^ 112 := by decide
    _ ≤ 2 ^ places := Nat.pow_le_pow_right (by decide) far

theorem le_cutAt (normal : addend.Normal) : 2 ^ 111 ≤ cutAt 0 addend := by
  have leading := normal.leading
  rw [cutAt_eq, Nat.pow_zero, Nat.div_one]
  omega

end Operand.Normal

theorem dvd_cutAt (addend : Operand) : 2 ^ 64 ∣ cutAt 0 addend := by
  rw [cutAt_eq, Nat.pow_zero, Nat.div_one]
  exact Nat.dvd_mul_left _ _

/-! ## One truncation or two -/

/-- What the smaller addend has lost is less than the last unit of the sum, and that place is cut
off with the sum. -/
theorem leads_add (normal : left.Normal) (places : Nat) (right : Operand) :
    Leads (cutAt 0 left + cutAt places right) (placed 0 left + placed places right) := by
  have kept := placed_eq_cutAt (Nat.zero_le 64) left
  have low := cutAt_le_placed places right
  have high := placed_lt_cutAt places right
  have wide : 2 ^ 47 ≤ cutAt 0 left + cutAt places right := by
    have least := normal.le_cutAt
    omega
  have positive : cutAt 0 left + cutAt places right ≠ 0 := by omega
  refine .of_close ((Nat.le_log2 positive).mpr wide) (.inl ?_) ?_ <;>
  · push_cast
    linarith

/-- In a difference of magnitudes what the smaller one has lost would have been cut off as well,
because some of its bits are still among those that are cut. -/
theorem leads_sub (first : left.Normal) (second : right.Normal) (past : 64 < places)
    (near : places ≤ 111) :
    Leads (cutAt 0 left - cutAt places right) (placed 0 left - placed places right) := by
  have kept := placed_eq_cutAt (Nat.zero_le 64) left
  have low := cutAt_le_placed places right
  have high := placed_lt_cutAt places right
  have least := first.le_cutAt
  have most := second.cutAt_lt past
  have some := second.cutAt_pos near
  have multiple := dvd_cutAt left
  have wide : 2 ^ 110 ≤ cutAt 0 left - cutAt places right := by omega
  have positive : cutAt 0 left - cutAt places right ≠ 0 := by omega
  have difference : ((cutAt 0 left - cutAt places right : Nat) : ℚ) =
      cutAt 0 left - cutAt places right := Nat.cast_sub (by omega)
  have log : 110 ≤ (cutAt 0 left - cutAt places right).log2 := (Nat.le_log2 positive).mpr wide
  refine .of_close (by omega) (.inr ⟨fun divides => ?_, ?_⟩) ?_
  · -- The larger magnitude ends in zeros there, and the smaller one does not.
    have divides : 2 ^ 63 ∣ cutAt 0 left - cutAt places right :=
      (Nat.pow_dvd_pow 2 (by omega)).trans divides
    omega
  · rw [difference]
    linarith
  · rw [difference]
    linarith

/-! ## Sums -/

theorem addAt_rounded (negative : Bool) {magnitude : Nat} (exponent : Int) {number : ℚ}
    (nonzero : magnitude ≠ 0) (leads : Leads magnitude number) :
    Rounded (signed negative (number * 2 ^ (exponent - 112)))
      (addOperands.addAt exponent (signedWhole negative magnitude)) := by
  have sign : decide (signedWhole negative magnitude < 0) = negative := by
    rw [Bool.eq_iff_iff, decide_eq_true_iff, signedWhole_lt_zero nonzero]
  have scale : exponent - 48 - (guardBits : Int) = exponent - 112 := by
    unfold guardBits
    omega
  unfold addOperands.addAt
  rw [sign, natAbs_signedWhole, scale]
  exact pack_rounded negative _ nonzero leads

theorem addAt_exact (exponent sum : Int) :
    Rounded (sum * 2 ^ (exponent - 112)) (addOperands.addAt exponent sum) := by
  by_cases zero : sum = 0
  · rw [zero]
    refine .zero ?_
    simp
  have rounded := addAt_rounded (decide (sum < 0)) exponent (Int.natAbs_ne_zero.mpr zero)
    (.self sum.natAbs)
  rwa [signed_mul, ← cast_signedWhole, signedWhole_natAbs] at rounded

theorem value_eq_cutAt (addend : Operand) :
    addend.value =
      (signedWhole addend.negative (cutAt 0 addend) : ℚ) * 2 ^ (addend.exponent - 112) := by
  have value := value_eq_placed 0 addend
  rwa [Nat.cast_zero, add_zero, placed_eq_cutAt (Nat.zero_le 64), signed_mul,
    ← cast_signedWhole] at value

theorem aligned_eq {exponent : Int} (apart : exponent = addend.exponent + places) :
    aligned exponent addend = signedWhole addend.negative (cutAt places addend) := by
  unfold aligned cutAt signedWhole
  rw [show (exponent - addend.exponent).toNat = places by omega]

theorem aligned_self (addend : Operand) :
    aligned addend.exponent addend = signedWhole addend.negative (cutAt 0 addend) :=
  aligned_eq (add_zero addend.exponent).symm

theorem addOperands_eq (apart : left.exponent = right.exponent + places) :
    addOperands (some left) (some right) =
      addOperands.addAt left.exponent
        (signedWhole left.negative (cutAt 0 left) +
          signedWhole right.negative (cutAt places right)) := by
  have larger : max left.exponent right.exponent = left.exponent := by omega
  unfold addOperands
  dsimp only
  rw [larger, aligned_eq apart, aligned_self]

theorem addOperands_comm (left right : Option Operand) :
    addOperands left right = addOperands right left := by
  rcases left with _ | left <;> rcases right with _ | right <;> try rfl
  unfold addOperands
  dsimp only
  rw [max_comm, add_comm]

theorem addOperands_none (left : Operand) :
    Rounded left.value (addOperands (some left) none) := by
  rw [value_eq_cutAt]
  unfold addOperands
  dsimp only
  rw [aligned_self]
  exact addAt_exact _ _

theorem addOperands_near (first : left.Normal) (second : right.Normal)
    (apart : left.exponent = right.exponent + places) (near : places ≤ 111) :
    Rounded (left.value + right.value) (addOperands (some left) (some right)) := by
  have larger := value_eq_placed 0 left
  have smaller := value_eq_placed places right
  rw [Nat.cast_zero, add_zero] at larger
  rw [← apart] at smaller
  rw [addOperands_eq apart, larger, smaller]
  -- Up to 64 places nothing is cut when the operands are aligned. Beyond that bits are cut, but the
  -- sum of what is left leads to the same word.
  rcases Nat.lt_or_ge 64 places with past | within
  · have least := first.le_cutAt
    have most := second.cutAt_lt past
    by_cases same : right.negative = left.negative
    · have nonzero : cutAt 0 left + cutAt places right ≠ 0 := by omega
      have rounded := addAt_rounded left.negative left.exponent nonzero
        (leads_add first places right)
      rw [signedWhole_add, add_mul, signed_add] at rounded
      rwa [same]
    · have nonzero : cutAt 0 left - cutAt places right ≠ 0 := by omega
      have rounded := addAt_rounded left.negative left.exponent nonzero
        (leads_sub first second past near)
      rw [signedWhole_sub _ (by omega), sub_mul, signed_sub] at rounded
      rwa [Bool.eq_not.mpr same]
  · rw [placed_eq_cutAt (Nat.zero_le 64), placed_eq_cutAt within, signed_mul, signed_mul,
      ← add_mul, ← cast_signedWhole, ← cast_signedWhole, ← Int.cast_add]
    exact addAt_exact _ _

/-- Of operands that are far apart the one with the smaller exponent loses all its bits. -/
theorem addOperands_far (normal : right.Normal)
    (apart : left.exponent = right.exponent + places) (far : 112 ≤ places) :
    Rounded left.value (addOperands (some left) (some right)) := by
  rw [addOperands_eq apart, normal.cutAt_eq_zero far, signedWhole_zero, add_zero, value_eq_cutAt]
  exact addAt_exact _ _

theorem addOperands_far_value (first : left.Normal) (second : right.Normal)
    (low : smallestExponent - bias - 47 ≤ right.exponent)
    (high : left.exponent ≤ largestExponent - bias) (far : right.exponent + 112 ≤ left.exponent) :
    ∃ word, addOperands (some left) (some right) = .ok word ∧ Normalized word ∧
      value word = left.value := by
  obtain ⟨places, apart⟩ : ∃ places : Nat, left.exponent = right.exponent + places :=
    ⟨(left.exponent - right.exponent).toNat, by omega⟩
  have rounded := addOperands_far second apart (by omega)
  have exponent := first.exponentOf_value
  obtain ⟨word, packed, truncates⟩ :=
    rounded.truncates first.value_ne_zero (by omega) (by omega)
  exact ⟨word, packed, truncates.normalized, truncates.value_eq first⟩

/-! ## Operands in either order -/

theorem addOperands_of_near (first : left.Normal) (second : right.Normal)
    (near : |left.exponent - right.exponent| ≤ 111) :
    Rounded (left.value + right.value) (addOperands (some left) (some right)) := by
  rw [abs_le] at near
  rcases le_total right.exponent left.exponent with order | order
  · exact addOperands_near first second
      (show left.exponent = right.exponent + (left.exponent - right.exponent).toNat by omega)
      (by omega)
  · rw [addOperands_comm, add_comm]
    exact addOperands_near second first
      (show right.exponent = left.exponent + (right.exponent - left.exponent).toNat by omega)
      (by omega)

theorem addOperands_of_far (first : left.Normal) (second : right.Normal)
    (leftLow : smallestExponent - bias - 47 ≤ left.exponent)
    (rightLow : smallestExponent - bias - 47 ≤ right.exponent)
    (leftHigh : left.exponent ≤ largestExponent - bias)
    (rightHigh : right.exponent ≤ largestExponent - bias)
    (far : 112 ≤ |left.exponent - right.exponent|) :
    ∃ word, addOperands (some left) (some right) = .ok word ∧ Normalized word ∧
      value word = if right.exponent < left.exponent then left.value else right.value := by
  rcases le_total right.exponent left.exponent with order | order
  · rw [abs_of_nonneg (by omega)] at far
    rw [if_pos (by omega)]
    exact addOperands_far_value first second rightLow leftHigh (by omega)
  · rw [abs_of_nonpos (by omega)] at far
    rw [if_neg (by omega), addOperands_comm]
    exact addOperands_far_value second first leftLow rightHigh (by omega)

/-! ## The law of sums -/

structure SumLaw (left right : Word) (x y : ℚ) (outcome : Except FloatFault Word) : Prop where
  indefinite : outcome = .error .indefinite ↔ IsIndefinite left ∨ IsIndefinite right
  near : ¬ IsIndefinite left → ¬ IsIndefinite right →
    x = 0 ∨ y = 0 ∨ |exponentOf x - exponentOf y| ≤ 111 → Rounded (x + y) outcome
  far : ¬ IsIndefinite left → ¬ IsIndefinite right → x ≠ 0 → y ≠ 0 →
    112 ≤ |exponentOf x - exponentOf y| → ∃ word, outcome = .ok word ∧ Normalized word ∧
      value word = if exponentOf y < exponentOf x then x else y

theorem addOperands_law {x y : ℚ} {left right : Option Operand} (first : StandsFor x left)
    (second : StandsFor y right) :
    (x = 0 ∨ y = 0 ∨ |exponentOf x - exponentOf y| ≤ 111 →
      Rounded (x + y) (addOperands left right)) ∧
    (x ≠ 0 → y ≠ 0 → 112 ≤ |exponentOf x - exponentOf y| →
      ∃ word, addOperands left right = .ok word ∧ Normalized word ∧
        value word = if exponentOf y < exponentOf x then x else y) := by
  -- Zero has an exponent too, but is never far from a number that is added to it.
  cases first with
  | zero zero =>
    subst zero
    refine ⟨fun _ => ?_, fun some => absurd rfl some⟩
    rw [zero_add]
    cases second with
    | zero zero => exact .zero zero
    | operand right normal same =>
      rw [← same, addOperands_comm]
      exact addOperands_none right
  | operand left first same low high =>
    subst same
    cases second with
    | zero zero =>
      subst zero
      refine ⟨fun _ => ?_, fun _ some => absurd rfl some⟩
      rw [add_zero]
      exact addOperands_none left
    | operand right second same lower higher =>
      subst same
      rw [first.exponentOf_value, second.exponentOf_value]
      refine ⟨fun near => addOperands_of_near first second ?_,
        fun _ _ => addOperands_of_far first second low lower high higher⟩
      rcases near with zero | zero | near
      · exact absurd zero first.value_ne_zero
      · exact absurd zero second.value_ne_zero
      · exact near

theorem addOperands_ne_indefinite {x y : ℚ} {left right : Option Operand}
    (first : StandsFor x left) (second : StandsFor y right) :
    addOperands left right ≠ .error .indefinite := by
  obtain ⟨near, far⟩ := addOperands_law first second
  by_cases close : x = 0 ∨ y = 0 ∨ |exponentOf x - exponentOf y| ≤ 111
  · exact (near close).ne_indefinite
  · obtain ⟨nonzero, other, apart⟩ := by simpa only [not_or, not_le] using close
    obtain ⟨word, packed, -⟩ := far nonzero other apart
    rw [packed]
    nofun

theorem add_operates (left right : Word) : Operates left right addOperands (add left right) :=
  operates left right addOperands

theorem add_law (left right : Word) :
    SumLaw left right (value left) (value right) (add left right) where
  indefinite := (add_operates left right).indefinite_iff fun _ _ => addOperands_ne_indefinite
  near definite others := by
    obtain ⟨first, second, stands, standing, sum⟩ :=
      (add_operates left right).of_definite definite others
    rw [sum]
    exact (addOperands_law stands standing).1
  far definite others := by
    obtain ⟨first, second, stands, standing, sum⟩ :=
      (add_operates left right).of_definite definite others
    rw [sum]
    exact (addOperands_law stands standing).2

/-! ## Differences -/

theorem parts_negate (word : Word) :
    signBit (word ^^^ BitVec.intMin 64) = !signBit word ∧
      biasedExponent (word ^^^ BitVec.intMin 64) = biasedExponent word ∧
      coefficient (word ^^^ BitVec.intMin 64) = coefficient word := by
  have exponent : (BitVec.intMin 64).extractLsb' 48 15 = 0#15 := by decide
  have bits : (BitVec.intMin 64).extractLsb' 0 48 = 0#48 := by decide
  have sign : (BitVec.intMin 64).msb = true := by decide
  refine ⟨?_, ?_, ?_⟩
  · rw [signBit, BitVec.msb_xor, sign, Bool.xor_true]
    rfl
  · rw [biasedExponent, BitVec.extractLsb'_xor, exponent, BitVec.xor_zero]
    rfl
  · rw [coefficient, BitVec.extractLsb'_xor, bits, BitVec.xor_zero]
    rfl

theorem value_negated (word : Word) : value (negated word) = -value word := by
  unfold negated
  split
  next blank =>
    have rest := congrArg BitVec.toNat blank
    have zero : coefficient word = 0 := by
      rw [BitVec.toNat_setWidth] at rest
      rw [coefficient, BitVec.extractLsb'_toNat]
      simp only [BitVec.ofNat_eq_ofNat, BitVec.toNat_ofNat, Nat.shiftRight_zero] at rest ⊢
      omega
    simp [value, zero, signed]
  next some =>
    obtain ⟨sign, exponent, bits⟩ := parts_negate word
    unfold value
    rw [sign, exponent, bits]
    cases signBit word <;> simp [signed]

theorem isIndefinite_negated (word : Word) : IsIndefinite (negated word) ↔ IsIndefinite word := by
  unfold negated
  split
  · rfl
  · obtain ⟨-, exponent, bits⟩ := parts_negate word
    unfold IsIndefinite
    rw [exponent, bits]

theorem subtract_law (left right : Word) :
    SumLaw left right (value left) (-value right) (subtract left right) := by
  have law := add_law left (negated right)
  rw [value_negated] at law
  constructor
  · exact law.indefinite.trans (or_congr_right (isIndefinite_negated right))
  · exact fun definite other => law.near definite ((isIndefinite_negated right).not.mpr other)
  · exact fun definite other => law.far definite ((isIndefinite_negated right).not.mpr other)

/-! ## Room for what is computed -/

def FitsSigned (number : Int) : Prop := -2 ^ 127 ≤ number ∧ number < 2 ^ 127

structure SumPacks (sum : Int) : Prop where
  fits : FitsSigned sum
  leading : leadingBits sum.natAbs < 2 ^ 48

/-- What is computed on the way to the sum of two words fits in 128 bits. Nothing is left of an
addend that is shifted by 127 places or more, so that a shift need never be by more. -/
structure SumFits (left right : Word) : Prop where
  shifted : ∀ word ∈ [left, right], ∀ operand, unpack word = .ok (some operand) →
    FitsSigned (operand.coefficient <<< guardBits : Nat) ∧
      ∀ exponent, 127 ≤ exponent - operand.exponent → aligned exponent operand = 0
  alone : ∀ word ∈ [left, right], ∀ operand, unpack word = .ok (some operand) →
    ∀ exponent, SumPacks (aligned exponent operand)
  summed : ∀ first second, unpack left = .ok (some first) → unpack right = .ok (some second) →
    ∀ exponent, SumPacks (aligned exponent first + aligned exponent second)

theorem sumPacks_of_lt {sum : Int} (small : sum.natAbs < 2 ^ 127) : SumPacks sum where
  fits := by
    constructor <;> omega
  leading := by
    by_cases zero : sum.natAbs = 0
    · rw [zero]
      decide
    · exact (leadingBits_bounds zero).2

namespace Operand.Normal

theorem shifted_lt (normal : addend.Normal) : addend.coefficient <<< guardBits < 2 ^ 112 := by
  have small := normal.small
  rw [Nat.shiftLeft_eq]
  exact Nat.mul_lt_mul_of_pos_right small (by decide)

theorem natAbs_aligned_lt (normal : addend.Normal) (exponent : Int) :
    (aligned exponent addend).natAbs < 2 ^ 112 := by
  have small : cutAt (exponent - addend.exponent).toNat addend < 2 ^ 112 := by
    refine Nat.lt_of_le_of_lt ?_ normal.shifted_lt
    rw [cutAt, Nat.shiftRight_eq_div_pow]
    exact Nat.div_le_self _ _
  unfold aligned
  rw [← cutAt]
  dsimp only
  split <;> omega

/-- Addends are aligned alike if none is shifted by 127 places or more. -/
theorem aligned_eq_cutoff (normal : addend.Normal) (exponent : Int) :
    aligned exponent addend =
      let shift := (exponent - addend.exponent).toNat
      signedWhole addend.negative
        (if 127 ≤ shift then 0 else (addend.coefficient <<< guardBits) >>> shift) := by
  dsimp only
  split
  next far =>
    rw [aligned_eq (show exponent = addend.exponent + (exponent - addend.exponent).toNat by omega),
      normal.cutAt_eq_zero (by omega)]
  next near => rfl

end Operand.Normal

theorem sum_fits (left right : Word) : SumFits left right where
  shifted word _ operand unpacked := by
    have normal := normal_of_unpack unpacked
    have small := normal.shifted_lt
    refine ⟨?_, fun exponent far => ?_⟩
    · generalize operand.coefficient <<< guardBits = shifted at small
      constructor <;> omega
    · rw [normal.aligned_eq_cutoff]
      dsimp only
      rw [if_pos (by omega), signedWhole_zero]
  alone word _ operand unpacked exponent := by
    have small := (normal_of_unpack unpacked).natAbs_aligned_lt exponent
    exact sumPacks_of_lt (by omega)
  summed first second unpacked found exponent := by
    have small := (normal_of_unpack unpacked).natAbs_aligned_lt exponent
    have other := (normal_of_unpack found).natAbs_aligned_lt exponent
    exact sumPacks_of_lt (by omega)

/-- Sums and differences of words are those of their values, truncated once, as long as the
exponents differ by at most 111. If they differ by more, the smaller number is lost. Nothing on the
way needs more than 128 bits. -/
theorem sums_truncated (left right : Word) :
    SumLaw left right (value left) (value right) (add left right) ∧
      SumLaw left right (value left) (-value right) (subtract left right) ∧
      SumFits left right ∧ SumFits left (negated right) :=
  ⟨add_law left right, subtract_law left right, sum_fits left right,
    sum_fits left (negated right)⟩

/-- Two to the power of -111 can still be taken from one, two to the power of -112 no longer. -/
example : add 0x4001800000000000 0xBF92800000000000 = .ok 0x4000FFFFFFFFFFFF ∧
    add 0x4001800000000000 0xBF91800000000000 = .ok 0x4001800000000000 := by
  decide +kernel

end Mainframe.FloatingPoint
