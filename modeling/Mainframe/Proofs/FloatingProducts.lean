import Mainframe.FloatingPoint.Arithmetic
import Mainframe.Proofs.FloatingValues
import Mathlib.Data.Nat.Cast.Field
import Mathlib.Data.Nat.Cast.Order.Field

/-! Products and quotients of floating point words. A product of coefficients is exact, and a
quotient keeps at least 64 bits, of which packing cuts all but 48. What the division of the
coefficients has cut off lies below those, so that both results are the exact ones, truncated
once. -/

set_option autoImplicit false

namespace Mainframe.FloatingPoint

/-! ## Values -/

theorem signed_mul_signed (first second : Bool) (left right : ℚ) :
    signed first left * signed second right = signed (first != second) (left * right) := by
  cases first <;> cases second <;> simp [signed]

theorem signed_div_signed (first second : Bool) (left right : ℚ) :
    signed first left / signed second right = signed (first != second) (left / right) := by
  cases first <;> cases second <;> simp [signed, neg_div, div_neg]

namespace Operand

theorem value_mul (left right : Operand) :
    left.value * right.value =
      signed (left.negative != right.negative)
        ((left.coefficient * right.coefficient : Nat) *
          2 ^ (left.exponent + right.exponent - 96)) := by
  have scale : (2 : ℚ) ^ (left.exponent + right.exponent - 96) =
      2 ^ (left.exponent - 48) * 2 ^ (right.exponent - 48) := by
    rw [← zpow_add₀ two_ne_zero]
    congr 1
    omega
  unfold value
  rw [signed_mul_signed, scale, Nat.cast_mul]
  congr 1
  ring

theorem value_div (left right : Operand) :
    left.value / right.value =
      signed (left.negative != right.negative)
        ((left.coefficient * 2 ^ 64 : Nat) / (right.coefficient : ℚ) *
          2 ^ (left.exponent - right.exponent - 64)) := by
  have scale : (2 : ℚ) ^ (left.exponent - 48) / 2 ^ (right.exponent - 48) =
      2 ^ 64 * 2 ^ (left.exponent - right.exponent - 64) := by
    rw [← zpow_sub₀ two_ne_zero, ← zpow_natCast, ← zpow_add₀ two_ne_zero]
    congr 1
    omega
  unfold value
  rw [signed_div_signed, mul_div_mul_comm, scale, Nat.cast_mul, Nat.cast_pow, Nat.cast_ofNat]
  congr 1
  ring

end Operand

/-! ## Products -/

variable {left right : Operand}

theorem product_rounded (first : left.Normal) (second : right.Normal) :
    Rounded (left.value * right.value)
      (pack (left.negative != right.negative) (left.coefficient * right.coefficient)
        (left.exponent + right.exponent - 96)) := by
  rw [left.value_mul]
  exact pack_rounded _ _
    (Nat.mul_ne_zero first.coefficient_ne_zero second.coefficient_ne_zero) (.self _)

def multiplyOperands : Option Operand → Option Operand → Except FloatFault Word
  | some left, some right =>
    pack (left.negative != right.negative) (left.coefficient * right.coefficient)
      (left.exponent + right.exponent - 96)
  | _, _ => .ok 0

theorem multiplyOperands_rounded {x y : ℚ} {left right : Option Operand}
    (first : StandsFor x left) (second : StandsFor y right) :
    Rounded (x * y) (multiplyOperands left right) := by
  cases first with
  | zero zero => exact .zero (by rw [zero, zero_mul])
  | operand left first same =>
    cases second with
    | zero zero => exact .zero (by rw [zero, mul_zero])
    | operand right second standing =>
      rw [← same, ← standing]
      exact product_rounded first second

/-! ## Quotients -/

/-- The quotient of two coefficients, with 64 bits below the point. -/
def quotientBits (left right : Operand) : Nat := (left.coefficient <<< 64) / right.coefficient

theorem le_quotientBits (first : left.Normal) (second : right.Normal) :
    2 ^ 63 ≤ quotientBits left right := by
  have leading := first.leading
  have small := second.small
  have some := second.leading
  unfold quotientBits
  rw [Nat.shiftLeft_eq, Nat.le_div_iff_mul_le (by omega)]
  calc 2 ^ 63 * right.coefficient ≤ 2 ^ 63 * 2 ^ 48 := Nat.mul_le_mul_left _ small.le
    _ = 2 ^ 47 * 2 ^ 64 := by decide
    _ ≤ left.coefficient * 2 ^ 64 := Nat.mul_le_mul_right _ leading

/-- What the division cuts off is less than the last place of its quotient, and packing cuts off
that place as well. -/
theorem leads_quotientBits (first : left.Normal) (second : right.Normal) :
    Leads (quotientBits left right)
      ((left.coefficient * 2 ^ 64 : Nat) / (right.coefficient : ℚ)) := by
  have wide := le_quotientBits first second
  have positive : 0 < right.coefficient := Nat.pos_of_ne_zero second.coefficient_ne_zero
  have nonzero : quotientBits left right ≠ 0 := by omega
  have log : 63 ≤ (quotientBits left right).log2 := (Nat.le_log2 nonzero).mpr wide
  have cut : quotientBits left right = left.coefficient * 2 ^ 64 / right.coefficient := by
    rw [quotientBits, Nat.shiftLeft_eq]
  refine .of_close (by omega) (.inl ?_) ?_
  · rw [cut]
    exact Nat.cast_div_le
  · have past := Nat.lt_mul_div_succ (left.coefficient * 2 ^ 64) positive
    have some : (0 : ℚ) < right.coefficient := Nat.cast_pos.mpr positive
    rw [← cut, Nat.mul_comm right.coefficient] at past
    rw [div_lt_iff₀ some, ← Nat.cast_add_one, ← Nat.cast_mul]
    exact Nat.cast_lt.mpr past

theorem quotient_rounded (first : left.Normal) (second : right.Normal) :
    Rounded (left.value / right.value)
      (pack (left.negative != right.negative) (quotientBits left right)
        (left.exponent - right.exponent - 64)) := by
  have wide := le_quotientBits first second
  rw [left.value_div]
  exact pack_rounded _ _ (by omega) (leads_quotientBits first second)

def divideOperands : Option Operand → Option Operand → Except FloatFault Word
  | _, none => .error .divideByZero
  | none, some _ => .ok 0
  | some left, some right =>
    pack (left.negative != right.negative) (quotientBits left right)
      (left.exponent - right.exponent - 64)

theorem divideOperands_none (left : Option Operand) :
    divideOperands left none = .error .divideByZero := by
  cases left <;> rfl

theorem divideOperands_rounded {x y : ℚ} {left right : Option Operand}
    (first : StandsFor x left) (second : StandsFor y right) (nonzero : y ≠ 0) :
    Rounded (x / y) (divideOperands left right) := by
  cases second with
  | zero zero => exact absurd zero nonzero
  | operand right second standing =>
    cases first with
    | zero zero => exact .zero (by rw [zero, zero_div])
    | operand left first same =>
      rw [← same, ← standing]
      exact quotient_rounded first second

/-! ## The laws of products and quotients -/

structure ProductLaw (left right : Word) (outcome : Except FloatFault Word) : Prop where
  indefinite : outcome = .error .indefinite ↔ IsIndefinite left ∨ IsIndefinite right
  truncated : ¬ IsIndefinite left → ¬ IsIndefinite right →
    TruncationLaw (value left * value right) outcome

structure QuotientLaw (left right : Word) (outcome : Except FloatFault Word) : Prop where
  indefinite : outcome = .error .indefinite ↔ IsIndefinite left ∨ IsIndefinite right
  divideByZero : outcome = .error .divideByZero ↔
    ¬ IsIndefinite left ∧ ¬ IsIndefinite right ∧ value right = 0
  truncated : ¬ IsIndefinite left → ¬ IsIndefinite right → value right ≠ 0 →
    TruncationLaw (value left / value right) outcome

theorem multiply_operates (left right : Word) :
    Operates left right multiplyOperands (multiply left right) :=
  operates left right multiplyOperands

theorem multiply_law (left right : Word) : ProductLaw left right (multiply left right) where
  indefinite := (multiply_operates left right).indefinite_iff fun _ _ stands standing =>
    (multiplyOperands_rounded stands standing).ne_indefinite
  truncated definite others := by
    obtain ⟨first, second, stands, standing, product⟩ :=
      (multiply_operates left right).of_definite definite others
    rw [product]
    exact (multiplyOperands_rounded stands standing).truncationLaw

theorem divide_operates (left right : Word) :
    Operates left right divideOperands (divide left right) :=
  operates left right divideOperands

theorem divideOperands_ne_indefinite {x y : ℚ} {left right : Option Operand}
    (first : StandsFor x left) (second : StandsFor y right) :
    divideOperands left right ≠ .error .indefinite := by
  by_cases zero : y = 0
  · rw [second.eq_none_iff.mpr zero, divideOperands_none]
    nofun
  · exact (divideOperands_rounded first second zero).ne_indefinite

theorem divideOperands_eq_divideByZero_iff {x y : ℚ} {left right : Option Operand}
    (first : StandsFor x left) (second : StandsFor y right) :
    divideOperands left right = .error .divideByZero ↔ y = 0 := by
  constructor
  · intro fault
    by_contra nonzero
    exact (divideOperands_rounded first second nonzero).ne_divideByZero fault
  · intro zero
    rw [second.eq_none_iff.mpr zero, divideOperands_none]

theorem divide_law (left right : Word) : QuotientLaw left right (divide left right) := by
  have outcome := divide_operates left right
  have indefinite := outcome.indefinite_iff fun _ _ => divideOperands_ne_indefinite
  refine ⟨indefinite, ⟨fun fault => ?_, fun ⟨definite, others, zero⟩ => ?_⟩,
    fun definite others nonzero => ?_⟩
  · have definite : ¬ (IsIndefinite left ∨ IsIndefinite right) := fun either => by
      rw [indefinite.mpr either] at fault
      cases fault
    obtain ⟨definite, others⟩ := not_or.mp definite
    obtain ⟨first, second, stands, standing, quotient⟩ := outcome.of_definite definite others
    rw [quotient] at fault
    exact ⟨definite, others, (divideOperands_eq_divideByZero_iff stands standing).mp fault⟩
  · obtain ⟨first, second, stands, standing, quotient⟩ := outcome.of_definite definite others
    rw [quotient]
    exact (divideOperands_eq_divideByZero_iff stands standing).mpr zero
  · obtain ⟨first, second, stands, standing, quotient⟩ := outcome.of_definite definite others
    rw [quotient]
    exact (divideOperands_rounded stands standing nonzero).truncationLaw

/-- Products and quotients of words are those of their values, truncated once. Nothing else comes
of them but a fault of the operands or of the exponent of the result. -/
theorem products_truncated (left right : Word) :
    ProductLaw left right (multiply left right) ∧ QuotientLaw left right (divide left right) :=
  ⟨multiply_law left right, divide_law left right⟩

/-- A third is cut off, also where the divisor is not normalized. -/
example : divide 0x4001800000000000 0x4003600000000000 = .ok 0x3FFFAAAAAAAAAAAA := by
  decide +kernel

end Mainframe.FloatingPoint
