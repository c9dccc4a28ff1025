import Mainframe.Instruction.Mnemonic
import Mainframe.Proofs.Computations

/-! Integer arithmetic of registers. An operation gives the result of the exact integers if that is
within the signed range of the width, and otherwise leaves a condition and all registers. -/

set_option autoImplicit false

namespace Mainframe

/-! ## Operations on numbers of any width -/

def FitsWidth (width : Nat) (number : Int) : Prop :=
  -2 ^ (width - 1) ≤ number ∧ number < 2 ^ (width - 1)

instance (width : Nat) (number : Int) : Decidable (FitsWidth width number) :=
  inferInstanceAs (Decidable (_ ∧ _))

namespace IntegerOperator

/-- The exact result, with quotients truncated toward zero. There is none for a zero divisor. -/
def exact (operator : IntegerOperator) (left right : Int) : Option Int :=
  match operator with
  | .add => some (left + right)
  | .subtract => some (left - right)
  | .multiply => some (left * right)
  | .divide => if right = 0 then none else some (left.tdiv right)

theorem exact_eq_none_iff {operator : IntegerOperator} {left right : Int} :
    operator.exact left right = none ↔ operator = .divide ∧ right = 0 := by
  cases operator <;> simp [exact]

variable {width : Nat} (left right : BitVec width)

/-- The signs of a sum and its operands tell whether it is the exact one. -/
theorem sum_overflows_iff :
    (~~~(left ^^^ right) &&& (left ^^^ (left + right))).msb = true ↔
      ¬ FitsWidth width (left.toInt + right.toInt) := by
  by_cases empty : width = 0
  · subst empty
    simp [FitsWidth, BitVec.eq_nil left, BitVec.eq_nil right]
  have signs : (~~~(left ^^^ right) &&& (left ^^^ (left + right))).msb =
      left.saddOverflow right := by
    have positive : 0 < width := Nat.pos_of_ne_zero empty
    rw [BitVec.saddOverflow_eq, BitVec.msb_and, BitVec.msb_not, BitVec.msb_xor, BitVec.msb_xor,
      decide_eq_true positive]
    cases left.msb <;> cases right.msb <;> cases (left + right).msb <;> rfl
  rw [signs]
  simp only [BitVec.saddOverflow, FitsWidth, Bool.or_eq_true, decide_eq_true_eq]
  omega

theorem difference_overflows_iff :
    ((left ^^^ right) &&& (left ^^^ (left - right))).msb = true ↔
      ¬ FitsWidth width (left.toInt - right.toInt) := by
  have signs : ((left ^^^ right) &&& (left ^^^ (left - right))).msb = left.ssubOverflow right := by
    rw [BitVec.ssubOverflow_eq, BitVec.msb_and, BitVec.msb_xor, BitVec.msb_xor]
    cases left.msb <;> cases right.msb <;> cases (left - right).msb <;> rfl
  rw [signs]
  simp only [BitVec.ssubOverflow, FitsWidth, Bool.or_eq_true, decide_eq_true_eq]
  omega

theorem smulOverflow_iff :
    left.smulOverflow right = true ↔ ¬ FitsWidth width (left.toInt * right.toInt) := by
  simp only [BitVec.smulOverflow, FitsWidth, Bool.or_eq_true, decide_eq_true_eq]
  omega

/-- The only quotient that leaves a signed range is that of the least number by minus one. -/
theorem tdiv_leaves_iff {bound left right : Int} (low : -bound ≤ left) (high : left < bound) :
    ¬ (-bound ≤ left.tdiv right ∧ left.tdiv right < bound) ↔ left = -bound ∧ right = -1 := by
  -- A quotient is no larger than its dividend, so that it can only be the bound itself.
  have size := Int.natAbs_tdiv_le_natAbs left right
  constructor
  · intro leaves
    have quotient : left.tdiv right = bound := by omega
    have least : left = -bound := by omega
    have whole : left.natAbs / right.natAbs = left.natAbs := by
      have magnitude : (left.tdiv right).natAbs = left.natAbs / right.natAbs :=
        Int.natAbs_tdiv left right
      omega
    have unit : right.natAbs = 1 := (Nat.div_eq_self.mp whole).resolve_left (by omega)
    rcases Int.natAbs_eq_iff.mp unit with one | minusOne
    · rw [show right = 1 from one, Int.tdiv_one] at quotient
      omega
    · exact ⟨least, minusOne⟩
  · rintro ⟨rfl, rfl⟩
    have quotient : (-bound).tdiv (-1) = bound := by simp
    omega

theorem sdivOverflow_iff (positive : 0 < width) :
    left.sdivOverflow right = true ↔ ¬ FitsWidth width (left.toInt.tdiv right.toInt) := by
  have leaves : ¬ (-2 ^ (width - 1) ≤ left.toInt.tdiv right.toInt ∧
      left.toInt.tdiv right.toInt < 2 ^ (width - 1)) ↔
        left.toInt = -2 ^ (width - 1) ∧ right.toInt = -1 :=
    tdiv_leaves_iff left.le_toInt left.toInt_lt
  have minusOne : (BitVec.allOnes width).toInt = -1 := by
    rw [BitVec.toInt_allOnes, if_pos positive]
  rw [FitsWidth, leaves, BitVec.sdivOverflow_eq, ← BitVec.toInt_intMin_of_pos positive, ← minusOne,
    BitVec.toInt_inj, BitVec.toInt_inj]
  simp [positive]

theorem sdiv_eq_ofInt : left.sdiv right = BitVec.ofInt width (left.toInt.tdiv right.toInt) := by
  apply BitVec.eq_of_toInt_eq
  rw [BitVec.toInt_sdiv, BitVec.toInt_ofInt]

theorem toInt_eq_zero_iff : right.toInt = 0 ↔ right = 0 := by
  rw [← BitVec.toInt_zero (w := width), BitVec.toInt_inj]
  rfl

theorem apply_eq (positive : 0 < width) (operator : IntegerOperator) :
    operator.apply left right =
      match operator.exact left.toInt right.toInt with
      | none => .error .divideByZero
      | some number =>
        if FitsWidth width number then .ok (BitVec.ofInt width number) else .error .overflow := by
  cases operator with
  | add =>
    have sum : BitVec.ofInt width (left.toInt + right.toInt) = left + right := by
      simp [BitVec.ofInt_add]
    simp only [apply, exact, sum_overflows_iff, sum, ite_not]
  | subtract =>
    have difference : BitVec.ofInt width (left.toInt - right.toInt) = left - right := by
      simp [Int.sub_eq_add_neg, BitVec.ofInt_add, BitVec.ofInt_neg, BitVec.sub_eq_add_neg]
    simp only [apply, exact, difference_overflows_iff, difference, ite_not]
  | multiply =>
    have product : BitVec.ofInt width (left.toInt * right.toInt) = left * right := by
      simp [BitVec.ofInt_mul]
    simp only [apply, exact, smulOverflow_iff, product, ite_not]
  | divide =>
    simp only [apply, exact, ← toInt_eq_zero_iff]
    split
    · rfl
    · simp only [sdivOverflow_iff _ _ positive, sdiv_eq_ofInt, ite_not]

end IntegerOperator

/-! ## Operands and results in registers -/

namespace Extent

def width : Extent → Nat
  | .rightHalf => 32
  | .word => 64

def signed (extent : Extent) (word : Word) : Int :=
  match extent with
  | .rightHalf => Word.rightSigned word
  | .word => word.toInt

/-- The contents of a register have been changed to hold a number. A number in the right half
leaves the left half. -/
structure Receives (extent : Extent) (old : Word) (number : Int) (new : Word) : Prop where
  number : extent.signed new = number
  leftHalf : extent = .rightHalf → new.extractLsb' 32 32 = old.extractLsb' 32 32

def place (extent : Extent) (old : Word) (number : Int) : Word :=
  match extent with
  | .rightHalf => Word.withRightHalf old (BitVec.ofInt 32 number)
  | .word => BitVec.ofInt 64 number

theorem receives_place {extent : Extent} {number : Int} (fits : FitsWidth extent.width number)
    (old : Word) : extent.Receives old number (extent.place old number) := by
  cases extent with
  | word => exact ⟨BitVec.toInt_ofInt_eq_self (by decide) fits.1 fits.2, nofun⟩
  | rightHalf =>
    have right : Word.rightHalf (Word.withRightHalf old (BitVec.ofInt 32 number)) =
        BitVec.ofInt 32 number := BitVec.setWidth_append_eq_right
    refine ⟨?_, fun _ => BitVec.extractLsb'_append_eq_left⟩
    unfold signed place Word.rightSigned
    rw [right]
    exact BitVec.toInt_ofInt_eq_self (by decide) fits.1 fits.2

theorem signed_number (extent : Extent) (number : RegisterNumber) :
    extent.signed (number.setWidth 64) = number.toNat := by
  have small := number.isLt
  cases extent with
  | word =>
    rw [signed, BitVec.toInt_eq_toNat_of_lt] <;> rw [BitVec.toNat_setWidth] <;> omega
  | rightHalf =>
    rw [signed, Word.rightSigned, Word.rightHalf, BitVec.setWidth_setWidth_of_le _ (by decide),
      BitVec.toInt_eq_toNat_of_lt] <;> rw [BitVec.toNat_setWidth] <;> omega

theorem signed_displacement (extent : Extent) (displacement : Parcel) :
    extent.signed (displacement.signExtend 64) = displacement.toInt := by
  cases extent with
  | word => exact BitVec.toInt_signExtend_of_le (by decide)
  | rightHalf =>
    -- The right half of an extended displacement is the displacement, extended less far.
    have right : Word.rightHalf (displacement.signExtend 64) = displacement.signExtend 32 := by
      apply BitVec.eq_of_getLsbD_eq
      intro bit inside
      simp [Word.rightHalf, BitVec.getLsbD_signExtend]
      grind
    rw [signed, Word.rightSigned, right]
    exact BitVec.toInt_signExtend_of_le (by decide)

end Extent

theorem IntegerOperator.result_eq (operator : IntegerOperator) (extent : Extent)
    (left right old : Word) :
    operator.result extent left right old =
      match operator.exact (extent.signed left) (extent.signed right) with
      | none => .error .divideByZero
      | some number =>
        if FitsWidth extent.width number then .ok (extent.place old number)
        else .error .overflow := by
  cases extent with
  | word => exact apply_eq left right (by decide) operator
  | rightHalf =>
    have right_signed (word : Word) :
        Extent.rightHalf.signed word = (Word.rightHalf word).toInt := rfl
    rw [right_signed, right_signed, result, apply_eq _ _ (by decide)]
    cases operator.exact (Word.rightHalf left).toInt (Word.rightHalf right).toInt with
    | none => rfl
    | some number =>
      change Except.map _ (if FitsWidth 32 number then _ else _) = if FitsWidth 32 number then _ else _
      split <;> rfl

/-! ## Instructions -/

namespace Processor

/-- The operands of integer arithmetic as numbers. The number j counts from zero to fifteen. -/
def integers (processor : Processor) (instruction : Instruction) (extent : Extent) :
    ArithmeticSource → Int × Int
  | .register => (extent.signed (processor.wordRegister instruction.k),
      extent.signed (processor.wordRegister instruction.j))
  | .number => (extent.signed (processor.wordRegister instruction.k), instruction.j.toNat)
  | .displacement => (extent.signed (processor.wordRegister instruction.j), instruction.signedQ)

theorem integers_eq (processor : Processor) (instruction : Instruction) (extent : Extent)
    (source : ArithmeticSource) :
    processor.integers instruction extent source =
      (extent.signed (processor.integerOperands instruction source).1,
        extent.signed (processor.integerOperands instruction source).2) := by
  cases source with
  | register => rfl
  | number => simp [integers, integerOperands, Extent.signed_number]
  | displacement =>
    simp [integers, integerOperands, Extent.signed_displacement, Instruction.signedQ]

theorem integerResult_eq (processor : Processor) (instruction : Instruction)
    (operator : IntegerOperator) (extent : Extent) (source : ArithmeticSource) :
    processor.integerResult instruction operator extent source =
      match operator.exact (processor.integers instruction extent source).1
        (processor.integers instruction extent source).2 with
      | none => .error .divideByZero
      | some number =>
        if FitsWidth extent.width number then
          .ok (extent.place (processor.wordRegister instruction.k) number)
        else .error .overflow := by
  rw [processor.integers_eq]
  exact operator.result_eq extent _ _ _

end Processor

/-- What a step leaves that carries out integer arithmetic: a condition if there is no exact result
or no room for it, and otherwise the result in Xk. -/
inductive IntegerStep (before : Processor) (instruction : Instruction) (operator : IntegerOperator)
    (extent : Extent) (left right : Int) (after : Processor) : Prop where
  | divideByZero (divides : operator = .divide) (zero : right = 0)
      (advances : (before.withCondition (.user .divideFault)).Advances instruction after)
  | overflow (number : Int) (exact : operator.exact left right = some number)
      (wide : ¬ FitsWidth extent.width number)
      (advances : (before.withCondition (.user .arithmeticOverflow)).Advances instruction after)
  | received (number : Int) (exact : operator.exact left right = some number)
      (fits : FitsWidth extent.width number) (new : Word)
      (receives : extent.Receives (before.wordRegister instruction.k) number new)
      (advances : (before.withWordRegister instruction.k new).Advances instruction after)

theorem IntegerStep.of_result {before after : Processor} {instruction : Instruction}
    {operator : IntegerOperator} {extent : Extent} {source : ArithmeticSource}
    (advances : (before.received instruction.k
      ((before.integerResult instruction operator extent source).mapError
        ArithmeticFault.condition)).Advances instruction after) :
    IntegerStep before instruction operator extent
      (before.integers instruction extent source).1 (before.integers instruction extent source).2
      after := by
  rw [before.integerResult_eq] at advances
  cases exact : operator.exact (before.integers instruction extent source).1
    (before.integers instruction extent source).2 with
  | none =>
    obtain ⟨divides, zero⟩ := IntegerOperator.exact_eq_none_iff.mp exact
    rw [exact] at advances
    exact .divideByZero divides zero advances
  | some number =>
    rw [exact] at advances
    dsimp only at advances
    split at advances
    next fits => exact .received number exact fits _ (Extent.receives_place fits _) advances
    next wide => exact .overflow number exact wide advances

namespace Routine

variable {μ : Type} [Bus μ] {processor ready running : Processor} {memory middle : μ}
  {instruction : Instruction} {operator : IntegerOperator} {extent : Extent}
  {source : ArithmeticSource}

/-- Whatever the registers hold, a step that comes to an integer instruction completes it with the
exact result, or records why there is none. -/
theorem integers_computed
    (assigned : Operation.ofOpcode instruction.opcode =
      some (.compute (.integer operator extent source)))
    (comes : processor.ComesTo memory ready instruction running middle) :
    ∃ after, (step.run processor).perform memory = ((.executed, after), middle) ∧
      IntegerStep ready instruction operator extent
        (ready.integers instruction extent source).1 (ready.integers instruction extent source).2
        after := by
  have result : (Execution.execute instruction).Settles running ()
      (running.receiving instruction.k
        ((running.integerResult instruction operator extent source).mapError
          ArithmeticFault.condition)) :=
    Execution.execute_settles assigned rfl
  obtain ⟨after, performed, advances⟩ := comes.perform_receiving result
  refine ⟨after, performed, ?_⟩
  -- The fetch has left all word registers as they were.
  have same : running.integerResult instruction operator extent source =
      ready.integerResult instruction operator extent source := by
    obtain ⟨_, _, rfl⟩ := comes.runs.begun
    cases source <;> rfl
  rw [same] at advances
  exact .of_result advances

example : (List.range 256).filterMap (fun opcode =>
      match Operation.ofOpcode (BitVec.ofNat 8 opcode) with
      | some (.compute (.integer operator extent source)) =>
        some (Computation.integer operator extent source).mnemonic
      | _ => none) =
    ["INCX", "DECX", "ADDR", "SUBR", "MULR", "DIVR", "ADDX", "SUBX", "MULX", "DIVX", "INCR",
      "DECR", "ADDRQ", "ADDXQ", "MULRQ", "MULXQ"] := by
  decide +kernel

/-- The least word is in X1 and minus one in X2. -/
def dividingJob : Processor :=
  (smallJob.withWordRegister 1 0x8000000000000000).withWordRegister 2 Word.allOnes

def dividingMemory : CyclicMemory :=
  ⟨4096, ((WordStore.empty.set 0 0x6ABB000000000000).set 512 0x8000000000000010).set 1024
    0x2721000000000000⟩

def dividingInstruction : Instruction := .decode .jk 0x2721 0

def dividingReady : Processor :=
  { dividingJob with freeRunning := dividingJob.freeRunning + 1, pending := .proceed }

def divisionFetched : (Except Condition Instruction × Processor) × CyclicMemory :=
  Execution.fetchInstruction.ending dividingJob.fetching dividingMemory

theorem dividingJob_overflows :
    Operation.ofOpcode dividingInstruction.opcode =
        some (.compute (.integer .divide .word .register)) ∧
      dividingJob.ComesTo dividingMemory dividingReady dividingInstruction
        (divisionFetched.1.2.withInstruction dividingInstruction) divisionFetched.2 ∧
      ∃ after, (step.run dividingJob).perform dividingMemory =
          ((.executed, after), divisionFetched.2) ∧
        ((dividingReady.withCondition (.user .arithmeticOverflow)).Advances dividingInstruction
          after) := by
  have assigned : Operation.ofOpcode dividingInstruction.opcode =
      some (.compute (.integer .divide .word .register)) := by decide
  have comes : dividingJob.ComesTo dividingMemory dividingReady dividingInstruction
      (divisionFetched.1.2.withInstruction dividingInstruction) divisionFetched.2 :=
    .of_fetched ⟨rfl, rfl, by decide⟩ (by decide +kernel)
  refine ⟨assigned, comes, ?_⟩
  obtain ⟨after, performed, computes⟩ := integers_computed assigned comes
  refine ⟨after, performed, ?_⟩
  cases computes with
  | divideByZero _ zero _ => exact absurd zero (by decide)
  | overflow _ _ _ advances => exact advances
  | received number exact fits _ _ _ =>
    cases exact
    exact absurd fits (by decide)

end Routine

end Mainframe
