import Mainframe.FloatingPoint.Arithmetic
import Mainframe.Proofs.FloatingValues
import Mainframe.Proofs.IntegerArithmetic
import Mathlib.Algebra.Order.Floor.Semifield

/-! Conversions between integers and floating point words. An integer is truncated to its 48
leading bits, and a word to its integer part. Whether that fits in a word is decided after the
fraction is gone. -/

set_option autoImplicit false

namespace Mainframe.FloatingPoint

/-! ## Integer parts -/

def towardZero (number : ℚ) : Int := if number < 0 then ⌈number⌉ else ⌊number⌋

theorem towardZero_signed (negative : Bool) {magnitude : ℚ} (nonneg : 0 ≤ magnitude) :
    towardZero (signed negative magnitude) = signedWhole negative ⌊magnitude⌋₊ := by
  have floor := Int.natCast_floor_eq_floor nonneg
  unfold towardZero signed signedWhole
  cases negative with
  | false => simp [floor, not_lt.mpr nonneg]
  | true =>
    rcases nonneg.eq_or_lt with zero | positive
    · simp [← zero]
    · simp [floor, positive, Int.ceil_neg]

theorem towardZero_intCast (number : Int) : towardZero number = number := by
  unfold towardZero
  simp

theorem wholePart_eq (operand : Operand) :
    wholePart operand = ⌊(operand.coefficient : ℚ) * 2 ^ (operand.exponent - 48)⌋₊ := by
  unfold wholePart
  -- A shift to the left is exact, and one to the right rounds down.
  split
  next whole =>
    obtain ⟨places, counted⟩ : ∃ places : Nat, operand.exponent - 48 = places :=
      ⟨(operand.exponent - 48).toNat, by omega⟩
    rw [counted, Int.toNat_natCast, Nat.shiftLeft_eq, zpow_natCast]
    exact_mod_cast (Nat.floor_natCast (R := ℚ) (operand.coefficient * 2 ^ places)).symm
  next fraction =>
    obtain ⟨places, counted⟩ : ∃ places : Nat, 48 - operand.exponent = places :=
      ⟨(48 - operand.exponent).toNat, by omega⟩
    rw [show operand.exponent - 48 = -(places : Int) by omega, counted, Int.toNat_natCast,
      Nat.shiftRight_eq_div_pow, zpow_neg, zpow_natCast, ← div_eq_mul_inv]
    exact_mod_cast (Nat.floor_div_eq_div (K := ℚ) operand.coefficient (2 ^ places)).symm

theorem Operand.towardZero_value (operand : Operand) :
    towardZero operand.value = signedWhole operand.negative (wholePart operand) := by
  unfold Operand.value
  rw [wholePart_eq, towardZero_signed _ (by positivity)]

/-! ## From words to integers -/

theorem Operand.Normal.wide {operand : Operand} (normal : operand.Normal)
    (past : 64 < operand.exponent) : ¬ FitsWidth 64 (towardZero operand.value) := by
  have leading := normal.leading
  have wide : 2 ^ 64 ≤ wholePart operand := by
    unfold wholePart
    rw [if_pos (by omega), Nat.shiftLeft_eq]
    calc 2 ^ 64 = 2 ^ 47 * 2 ^ 17 := by decide
      _ ≤ operand.coefficient * 2 ^ (operand.exponent - 48).toNat :=
        Nat.mul_le_mul leading (Nat.pow_le_pow_right (by decide) (by omega))
  rw [operand.towardZero_value]
  unfold FitsWidth signedWhole
  split <;> omega

theorem toInteger_eq (word : Word) :
    toInteger word =
      if IsIndefinite word then .error .indefinite
      else if FitsWidth 64 (towardZero (value word)) then
        .ok (BitVec.ofInt 64 (towardZero (value word)))
      else .error .integerOverflow := by
  have unpacked := unpack_unpacked word
  unfold toInteger
  generalize unpack word = found at unpacked
  cases unpacked with
  | indefinite indefinite =>
    rw [if_pos indefinite]
    rfl
  | definite found definite stands =>
    rw [if_neg definite]
    cases stands with
    | zero zero =>
      rw [zero]
      rfl
    | operand operand normal same =>
      rw [← same]
      change (if 64 < operand.exponent then _ else _) = _
      -- A great exponent is refused before the shift, and never wrongly.
      split
      next past => rw [if_neg (normal.wide past)]
      next within =>
      rw [operand.towardZero_value]
      rfl

structure ToIntegerLaw (word : Word) (outcome : Except FloatFault Word) : Prop where
  indefinite : outcome = .error .indefinite ↔ IsIndefinite word
  whole : ¬ IsIndefinite word → FitsWidth 64 (towardZero (value word)) →
    ∃ integer, outcome = .ok integer ∧ integer.toInt = towardZero (value word)
  overflow : outcome = .error .integerOverflow ↔
    ¬ IsIndefinite word ∧ ¬ FitsWidth 64 (towardZero (value word))

theorem toInteger_law (word : Word) : ToIntegerLaw word (toInteger word) := by
  rw [toInteger_eq]
  by_cases indefinite : IsIndefinite word
  · rw [if_pos indefinite]
    exact ⟨⟨fun _ => indefinite, fun _ => rfl⟩, fun definite => absurd indefinite definite,
      ⟨nofun, fun ⟨definite, _⟩ => absurd indefinite definite⟩⟩
  rw [if_neg indefinite]
  by_cases fits : FitsWidth 64 (towardZero (value word))
  · rw [if_pos fits]
    exact ⟨⟨nofun, fun never => absurd never indefinite⟩,
      fun _ _ => ⟨_, rfl, BitVec.toInt_ofInt_eq_self (by decide) fits.1 fits.2⟩,
      ⟨nofun, fun ⟨_, wide⟩ => absurd fits wide⟩⟩
  · rw [if_neg fits]
    exact ⟨⟨nofun, fun never => absurd never indefinite⟩, fun _ never => absurd never fits,
      ⟨fun _ => ⟨indefinite, fits⟩, fun _ => rfl⟩⟩

/-! ## From integers to words -/

theorem toInt_eq_signedWhole (integer : Word) :
    signedWhole integer.msb integer.toInt.natAbs = integer.toInt := by
  rw [BitVec.msb_eq_toInt, signedWhole_natAbs]

theorem natAbs_toInt_le (integer : Word) : integer.toInt.natAbs ≤ 2 ^ 63 := by
  have low := integer.le_toInt
  have high := integer.toInt_lt
  omega

theorem exponentOf_natCast (magnitude : Nat) : exponentOf magnitude = magnitude.log2 + 1 := by
  rw [exponentOf, abs_of_nonneg (Nat.cast_nonneg _), Int.log_natCast, Nat.log2_eq_log_two]

theorem abs_intCast (number : Int) : |(number : ℚ)| = (number.natAbs : Nat) := by
  rw [Nat.cast_natAbs, Int.cast_abs]

theorem exponentOf_intCast (number : Int) : exponentOf number = number.natAbs.log2 + 1 := by
  rw [← exponentOf_natCast, exponentOf, exponentOf, ← abs_intCast, abs_abs]

theorem ofInteger_rounded (integer : Word) :
    Rounded integer.toInt (ofInteger integer) := by
  unfold ofInteger
  by_cases zero : integer.toInt = 0
  · rw [zero]
    exact .zero rfl
  · have rounded := pack_rounded integer.msb 0 (Int.natAbs_ne_zero.mpr zero)
      (.self integer.toInt.natAbs)
    rwa [zpow_zero, mul_one, ← cast_signedWhole, toInt_eq_signedWhole] at rounded

theorem ofInteger_truncates {integer : Word} (nonzero : integer.toInt ≠ 0) :
    ∃ word, ofInteger integer = .ok word ∧ Truncates word integer.toInt := by
  have small := natAbs_toInt_le integer
  have log : integer.toInt.natAbs.log2 < 64 :=
    (Nat.log2_lt (Int.natAbs_ne_zero.mpr nonzero)).mpr (by omega)
  have smallest : smallestExponent = 0x3000 := rfl
  have largest : largestExponent = 0x4FFF := rfl
  have middle : bias = 0x4000 := rfl
  refine (ofInteger_rounded integer).truncates (Int.cast_ne_zero.mpr nonzero) ?_ ?_ <;>
  · rw [exponentOf_intCast]
    omega

/-! ## There and back -/

/-- A magnitude with nothing left below its 48 leading bits. -/
def keptBits (magnitude : Nat) : Nat :=
  magnitude >>> (magnitude.log2 - 47) <<< (magnitude.log2 - 47)

theorem testBit_keptBits (magnitude place : Nat) :
    (keptBits magnitude).testBit place =
      (magnitude.testBit place && decide (magnitude.log2 < place + 48)) := by
  unfold keptBits
  rw [Nat.testBit_shiftLeft, Nat.testBit_shiftRight]
  by_cases kept : magnitude.log2 - 47 ≤ place
  · simp [kept, show magnitude.log2 < place + 48 by omega]
  · simp [kept, show ¬ magnitude.log2 < place + 48 by omega]

theorem keptBits_le (magnitude : Nat) : keptBits magnitude ≤ magnitude := by
  unfold keptBits
  rw [Nat.shiftLeft_eq, Nat.shiftRight_eq_div_pow]
  exact Nat.div_mul_le_self _ _

theorem keptBits_eq_self {magnitude : Nat} (small : magnitude ≤ 2 ^ 48) :
    keptBits magnitude = magnitude := by
  rcases small.eq_or_lt with rfl | small
  · decide
  · have log := log2_le small
    rw [keptBits, Nat.sub_eq_zero_of_le log]
    rfl

theorem keptBits_ne_zero {magnitude : Nat} (nonzero : magnitude ≠ 0) :
    keptBits magnitude ≠ 0 := by
  intro zero
  have last := testBit_keptBits magnitude magnitude.log2
  rw [zero, Nat.testBit_log2 nonzero] at last
  simp at last

theorem leadingBits_eq_keptBits (magnitude : Nat) :
    (leadingBits magnitude : ℚ) * 2 ^ ((magnitude.log2 : Int) - 47) = keptBits magnitude := by
  unfold leadingBits keptBits
  split
  next wide =>
    obtain ⟨places, counted⟩ : ∃ places, magnitude.log2 - 47 = places := ⟨_, rfl⟩
    rw [show (magnitude.log2 : Int) - 47 = places by omega, counted, Nat.shiftLeft_eq,
      zpow_natCast, Nat.cast_mul, Nat.cast_pow, Nat.cast_ofNat]
  next narrow =>
    obtain ⟨places, counted⟩ : ∃ places, 47 - magnitude.log2 = places := ⟨_, rfl⟩
    have unit : (2 : ℚ) ^ places ≠ 0 := by positivity
    rw [show (magnitude.log2 : Int) - 47 = -(places : Int) by omega, counted,
      show magnitude.log2 - 47 = 0 by omega, Nat.shiftLeft_eq, zpow_neg, zpow_natCast,
      Nat.cast_mul, Nat.cast_pow, Nat.cast_ofNat, mul_inv_cancel_right₀ unit]
    rfl

def keptInteger (number : Int) : Int :=
  signedWhole (decide (number < 0)) (keptBits number.natAbs)

theorem fitsWidth_keptInteger (integer : Word) : FitsWidth 64 (keptInteger integer.toInt) := by
  have low := integer.le_toInt
  have high := integer.toInt_lt
  have least := keptBits_le integer.toInt.natAbs
  unfold FitsWidth keptInteger signedWhole
  simp only [decide_eq_true_eq]
  split <;> omega

theorem sign_keptInteger (number : Int) : (keptInteger number).sign = number.sign := by
  rcases lt_trichotomy number 0 with negative | rfl | positive
  · have some := keptBits_ne_zero (Int.natAbs_ne_zero.mpr negative.ne)
    rw [Int.sign_eq_neg_one_of_neg negative, Int.sign_eq_neg_one_of_neg]
    unfold keptInteger
    rw [signedWhole_lt_zero some, decide_eq_true negative]
  · rfl
  · have some := keptBits_ne_zero (Int.natAbs_ne_zero.mpr positive.ne')
    rw [Int.sign_eq_one_of_pos positive, Int.sign_eq_one_of_pos]
    unfold keptInteger signedWhole
    rw [decide_eq_false positive.le.not_gt, if_neg Bool.false_ne_true]
    exact_mod_cast Nat.pos_of_ne_zero some

theorem Truncates.value_intCast {word : Word} {number : Int}
    (truncates : Truncates word number) : value word = keptInteger number := by
  have nonzero : number.natAbs ≠ 0 :=
    Int.natAbs_ne_zero.mpr (Int.cast_ne_zero.mp truncates.ne_zero)
  obtain ⟨leading, small⟩ := leadingBits_bounds nonzero
  obtain ⟨below, above⟩ := Leads.self number.natAbs
  have place : (number.natAbs.log2 : Int) - 47 = number.natAbs.log2 + 1 - 48 := by omega
  have kept := leadingBits_eq_keptBits number.natAbs
  rw [← abs_intCast, place] at below above
  rw [place] at kept
  rw [truncates.value_of_bits leading small below above, kept, keptInteger, cast_signedWhole]
  simp only [Int.cast_lt_zero]

structure FromIntegerLaw (integer : Word) (outcome : Except FloatFault Word) : Prop where
  converts : ∃ word, outcome = .ok word
  truncated : Rounded integer.toInt outcome

theorem ofInteger_law (integer : Word) : FromIntegerLaw integer (ofInteger integer) := by
  refine ⟨?_, ofInteger_rounded integer⟩
  by_cases zero : integer.toInt = 0
  · obtain rfl : integer = 0 := BitVec.eq_of_toInt_eq zero
    exact ⟨0, rfl⟩
  · obtain ⟨word, packed, -⟩ := ofInteger_truncates zero
    exact ⟨word, packed⟩

/-- What the conversion of an integer to a word and back must be: the bits of the magnitude below
its 48 leading ones are cleared. -/
structure RoundTripLaw (integer : Word) (outcome : Except FloatFault Word) : Prop where
  kept : ∃ back, outcome = .ok back ∧ back.toInt.sign = integer.toInt.sign ∧
    ∀ place, back.toInt.natAbs.testBit place =
      (integer.toInt.natAbs.testBit place && decide (integer.toInt.natAbs.log2 < place + 48))
  exact : |integer.toInt| ≤ 2 ^ 48 → outcome = .ok integer

theorem toInteger_ofInteger (integer : Word) :
    (ofInteger integer >>= toInteger) = .ok (BitVec.ofInt 64 (keptInteger integer.toInt)) := by
  by_cases zero : integer.toInt = 0
  · obtain rfl : integer = 0 := BitVec.eq_of_toInt_eq zero
    rfl
  · obtain ⟨word, packed, truncates⟩ := ofInteger_truncates zero
    have fits := fitsWidth_keptInteger integer
    rw [packed]
    change toInteger word = _
    rw [toInteger_eq, if_neg truncates.normalized.not_indefinite, truncates.value_intCast,
      towardZero_intCast, if_pos fits]

theorem roundTrip_law (integer : Word) : RoundTripLaw integer (ofInteger integer >>= toInteger) := by
  have fits := fitsWidth_keptInteger integer
  have back : (BitVec.ofInt 64 (keptInteger integer.toInt)).toInt = keptInteger integer.toInt :=
    BitVec.toInt_ofInt_eq_self (by decide) fits.1 fits.2
  rw [toInteger_ofInteger]
  constructor
  · refine ⟨_, rfl, ?_, fun place => ?_⟩
    · rw [back, sign_keptInteger]
    · rw [back, keptInteger, natAbs_signedWhole, testBit_keptBits]
  · intro small
    have small : integer.toInt.natAbs ≤ 2 ^ 48 := by
      rw [abs_le] at small
      omega
    rw [keptInteger, keptBits_eq_self small, signedWhole_natAbs, BitVec.ofInt_toInt]

/-- Both conversions truncate toward zero, and together they clear what is below the 48 leading
bits. -/
theorem conversions_truncated (integer word : Word) :
    FromIntegerLaw integer (ofInteger integer) ∧ ToIntegerLaw word (toInteger word) ∧
      RoundTripLaw integer (ofInteger integer >>= toInteger) :=
  ⟨ofInteger_law integer, toInteger_law word, roundTrip_law integer⟩

/-- The least integer has a word of its own, and the number after the greatest has no integer. -/
example : toInteger 0xC040800000000000 = .ok 0x8000000000000000 ∧
    toInteger 0x4040800000000000 = .error .integerOverflow := by
  decide +kernel

end Mainframe.FloatingPoint
