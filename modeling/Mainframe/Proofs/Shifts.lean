import Mainframe.Instruction.Mnemonic
import Mainframe.Proofs.BitFields
import Mathlib.Algebra.Order.Floor.Semifield
import Mathlib.Data.Rat.Floor

/-! Shifts by a signed count as arithmetic. A logical shift multiplies or divides the unsigned
number by a power of two, an arithmetic one divides the signed number, and a circular one adds the
count to the place of every bit. That holds of every count, however far it goes past the word. -/

set_option autoImplicit false

namespace Mainframe

namespace Word

/-- A shift of the unsigned number. To the left it multiplies as far as the width goes, and to the
right it divides and rounds down. -/
structure ShiftsLogically {width : Nat} (count : Int) (old new : BitVec width) : Prop where
  left : 0 ≤ count → new.toNat = old.toNat * 2 ^ count.natAbs % 2 ^ width
  right : count < 0 → new.toNat = ⌊(old.toNat : ℚ) / 2 ^ count.natAbs⌋₊

/-- A shift that differs from the logical one to the right, where it divides the signed number and
rounds down. -/
structure ShiftsArithmetically (count : Int) (old new : Word) : Prop where
  left : 0 ≤ count → new = shiftLogical old count
  right : count < 0 → new.toInt = ⌊(old.toInt : ℚ) / 2 ^ count.natAbs⌋

/-- Every bit, counted from the right end, has moved on by the count around the word. -/
def ShiftsAround (count : Int) (old new : Word) : Prop :=
  ∀ bit : Nat, bit < 64 → new.getLsbD ((bit + count) % 64).toNat = old.getLsbD bit

variable (word : Word) (count : Int)

/-! ## Logical shifts -/

theorem shiftsLogically_ite {width : Nat} (old : BitVec width) :
    ShiftsLogically count old
      (if 0 ≤ count then old <<< count.natAbs else old >>> count.natAbs) where
  left leftward := by
    rw [if_pos leftward, BitVec.toNat_shiftLeft, Nat.shiftLeft_eq]
  right rightward := by
    rw [if_neg (by omega), BitVec.toNat_ushiftRight, Nat.shiftRight_eq_div_pow]
    exact_mod_cast (Nat.floor_div_eq_div (K := ℚ) old.toNat (2 ^ count.natAbs)).symm

theorem shiftLogical_eq :
    shiftLogical word count =
      if 0 ≤ count then word <<< count.natAbs else word >>> count.natAbs := by
  unfold shiftLogical
  split
  next long =>
    rw [BitVec.shiftLeft_eq_zero long, BitVec.ushiftRight_eq_zero long, ite_self]
    rfl
  next => rfl

/-- The right half is shifted within a whole word, as if it were a word of its own. -/
theorem shiftRightHalf_eq :
    shiftRightHalf word count =
      if 0 ≤ count then rightHalf word <<< count.natAbs else rightHalf word >>> count.natAbs := by
  unfold shiftRightHalf
  split
  next short =>
    rw [shiftLogical_eq, rightHalf]
    apply BitVec.eq_of_getLsbD_eq
    intro bit inside
    -- From the left only zeros come in, since the half has been widened with them.
    split
    · simp only [BitVec.getLsbD_setWidth, BitVec.getLsbD_shiftLeft]
      grind
    · simp only [BitVec.getLsbD_setWidth, BitVec.getLsbD_ushiftRight]
      grind
  next long =>
    rw [BitVec.shiftLeft_eq_zero (by omega), BitVec.ushiftRight_eq_zero (by omega), ite_self]
    rfl

theorem shiftsLogically_shiftLogical : ShiftsLogically count word (shiftLogical word count) := by
  rw [shiftLogical_eq]
  exact shiftsLogically_ite count word

theorem shiftsLogically_shiftRightHalf :
    ShiftsLogically count (rightHalf word) (shiftRightHalf word count) := by
  rw [shiftRightHalf_eq]
  exact shiftsLogically_ite count (rightHalf word)

/-! ## Arithmetic shifts -/

theorem sshiftRight_min (places : Nat) :
    word.sshiftRight (min places 63) = word.sshiftRight places := by
  apply BitVec.eq_of_getLsbD_eq
  intro bit inside
  rw [BitVec.getLsbD_sshiftRight, BitVec.getLsbD_sshiftRight]
  grind [BitVec.msb_eq_getLsbD_last]

theorem shiftsArithmetically_shiftArithmetic :
    ShiftsArithmetically count word (shiftArithmetic word count) where
  left leftward := by
    rw [shiftArithmetic, if_pos leftward]
  right rightward := by
    rw [shiftArithmetic, if_neg (by omega), sshiftRight_min, BitVec.toInt_sshiftRight,
      Int.shiftRight_eq_div_pow]
    exact_mod_cast (Rat.floor_intCast_div_natCast word.toInt (2 ^ count.natAbs)).symm

/-! ## Circular shifts -/

/-- A turn to the right is what is left of a whole turn to the left. -/
theorem shiftCircular_eq : shiftCircular word count = word.rotateLeft (count % 64).toNat := by
  unfold shiftCircular
  split
  next leftward => congr 1; omega
  next rightward =>
    apply BitVec.eq_of_getLsbD_eq
    intro bit inside
    rw [BitVec.getLsbD_rotateRight, BitVec.getLsbD_rotateLeft, Nat.mod_mod]
    have turn : (count % 64).toNat % 64 = (64 - count.natAbs % 64) % 64 := by omega
    rw [turn, decide_eq_true inside]
    grind

theorem getLsbD_shiftCircular {bit : Nat} (inside : bit < 64) :
    (shiftCircular word count).getLsbD bit = word.getLsbD ((bit - count) % 64).toNat := by
  rw [shiftCircular_eq, BitVec.getLsbD_rotateLeft_of_le (by omega)]
  -- A place below the count has a bit that left the word at the other end.
  by_cases entered : bit < (count % 64).toNat
  · rw [decide_eq_true entered, cond_true]
    congr 1
    omega
  · rw [decide_eq_false entered, cond_false, decide_eq_true inside, Bool.true_and]
    congr 1
    omega

theorem shiftsAround_shiftCircular : ShiftsAround count word (shiftCircular word count) := by
  intro bit inside
  rw [getLsbD_shiftCircular _ _ (by omega)]
  congr 1
  omega

theorem shiftCircular_shiftCircular (first second : Int) :
    shiftCircular (shiftCircular word first) second = shiftCircular word (first + second) := by
  apply BitVec.eq_of_getLsbD_eq
  intro bit inside
  rw [getLsbD_shiftCircular _ _ inside, getLsbD_shiftCircular _ _ (by omega),
    getLsbD_shiftCircular _ _ inside]
  congr 1
  omega

theorem shiftCircular_congr {first second : Int} (same : first % 64 = second % 64) :
    shiftCircular word first = shiftCircular word second := by
  rw [shiftCircular_eq, shiftCircular_eq, same]

theorem shiftCircular_zero : shiftCircular word 0 = word := by
  apply BitVec.eq_of_getLsbD_eq
  intro bit inside
  rw [getLsbD_shiftCircular _ _ inside]
  congr 1
  omega

/-- Circular shifts add up as their counts do, and opposite ones cancel. A count may be kept within
thirty-two bits, whatever is lost of it there. -/
structure CircularLaw (word : Word) : Prop where
  moved : ∀ count, ShiftsAround count word (shiftCircular word count)
  composed : ∀ first second,
    shiftCircular (shiftCircular word first) second = shiftCircular word (first + second)
  restored : ∀ count, shiftCircular (shiftCircular word count) (-count) = word
  wrapped : ∀ count : Int, shiftCircular word (count.bmod (2 ^ 32)) = shiftCircular word count

theorem circularLaw : CircularLaw word where
  moved := shiftsAround_shiftCircular word
  composed := shiftCircular_shiftCircular word
  restored count := by
    rw [shiftCircular_shiftCircular, Int.add_right_neg, shiftCircular_zero]
  wrapped count := by
    -- What is lost of the count is a number of whole turns.
    apply shiftCircular_congr
    have same : count.bmod (2 ^ 32) % (2 ^ 32 : Nat) = count % (2 ^ 32 : Nat) := Int.bmod_emod
    omega

/-- The least count of thirty-two bits has no negative among them. -/
example : shiftLogical allOnes (-2 ^ 31) = 0 ∧ shiftArithmetic allOnes (-2 ^ 31) = allOnes ∧
    shiftCircular 1 (-2 ^ 31) = 1 := by
  decide

end Word

/-! ## Instructions -/

namespace ShiftKind

def Shifts (kind : ShiftKind) (count : Int) (source destination new : Word) : Prop :=
  match kind with
  | .circular => Word.ShiftsAround count source new
  | .word => Word.ShiftsArithmetically count source new
  | .rightHalf =>
    Word.ShiftsLogically count (Word.rightHalf source) (Word.rightHalf new) ∧
      new.extractLsb' 32 32 = destination.extractLsb' 32 32

theorem shifts_apply (kind : ShiftKind) (count : Int) (source destination : Word) :
    kind.Shifts count source destination (kind.apply destination source count) := by
  cases kind with
  | circular => exact Word.shiftsAround_shiftCircular source count
  | word => exact Word.shiftsArithmetically_shiftArithmetic source count
  | rightHalf =>
    have right : Word.rightHalf (Word.withRightHalf destination
        (Word.shiftRightHalf source count)) = Word.shiftRightHalf source count :=
      BitVec.setWidth_append_eq_right
    refine ⟨?_, BitVec.extractLsb'_append_eq_left⟩
    rw [apply, right]
    exact Word.shiftsLogically_shiftRightHalf source count

end ShiftKind

namespace Routine

variable {μ : Type} [Bus μ]

/-- Shifts agree with integer arithmetic for every count. A step that comes to a shift completes it
by the signed number in the last eight bits of the index plus D. -/
theorem shifts_computed :
    (∀ word count, Word.ShiftsLogically count word (Word.shiftLogical word count)) ∧
    (∀ word count, Word.ShiftsArithmetically count word (Word.shiftArithmetic word count)) ∧
    (∀ word, Word.CircularLaw word) ∧
    ∀ (processor ready running : Processor) (memory middle : μ) (instruction : Instruction)
      (kind : ShiftKind),
      Operation.ofOpcode instruction.opcode = some (.compute (.shift kind)) →
      processor.ComesTo memory ready instruction running middle →
      ∃ after new, (step.run processor).perform memory = ((.executed, after), middle) ∧
        kind.Shifts ((ready.indexPlusD instruction).bmod 256)
          (ready.wordRegister instruction.j) (ready.wordRegister instruction.k) new ∧
        (ready.withWordRegister instruction.k new).Advances instruction after := by
  refine ⟨Word.shiftsLogically_shiftLogical, Word.shiftsArithmetically_shiftArithmetic,
    Word.circularLaw, ?_⟩
  intro processor ready running memory middle instruction kind assigned comes
  -- The fetch has left the registers, and with them the count.
  obtain ⟨after, performed, advances⟩ : ∃ after, _ ∧ (ready.withWordRegister instruction.k
      (kind.apply (ready.wordRegister instruction.k) (ready.wordRegister instruction.j)
        (ready.shiftCount instruction))).Advances instruction after :=
    comes.perform_word assigned fun _ _ => rfl
  refine ⟨after, _, performed, ?_, advances⟩
  have count : ready.shiftCount instruction = (ready.indexPlusD instruction).bmod 256 :=
    BitVec.toInt_ofInt _
  rw [← count]
  exact kind.shifts_apply _ _ _

example : (List.range 256).filterMap (fun opcode =>
      match Operation.ofOpcode (BitVec.ofNat 8 opcode) with
      | some (.compute (.shift kind)) => some (Computation.shift kind).mnemonic
      | _ => none) = ["SHFC", "SHFX", "SHFR"] := by
  decide +kernel

/-- The leading bit of the right half of X1 goes to the last place of X2. The count, minus 31, is
formed from minus one in X3 and a D of more than eight bits. -/
def shiftJob : Processor :=
  let source := smallJob.withWordRegister 1 0x1234567880000000
  (source.withWordRegister 2 0xABCDEF0055555555).withWordRegister 3 0xFFFFFFFF

def shiftMemory : CyclicMemory :=
  ⟨4096, ((WordStore.empty.set 0 0x6ABB000000000000).set 512 0x8000000000000010).set 1024
    0xAA123FE200000000⟩

def shiftInstruction : Instruction := .decode .jkiD 0xAA12 0x3FE2

theorem shiftJob_shifts :
    Operation.ofOpcode shiftInstruction.opcode = some (.compute (.shift .rightHalf)) ∧
      shiftJob.ComesTo shiftMemory (resumedFrom shiftJob) shiftInstruction
        ((fetchedFrom shiftJob shiftMemory).1.2.withInstruction shiftInstruction)
        (fetchedFrom shiftJob shiftMemory).2 ∧
      ((resumedFrom shiftJob).indexPlusD shiftInstruction).bmod 256 = -31 ∧
      ∃ after new, (step.run shiftJob).perform shiftMemory =
          ((.executed, after), (fetchedFrom shiftJob shiftMemory).2) ∧
        (Word.rightHalf new).toNat = 1 ∧ new.extractLsb' 32 32 = 0xABCDEF00 ∧
        ((resumedFrom shiftJob).withWordRegister 2 new).Advances shiftInstruction after := by
  have assigned : Operation.ofOpcode shiftInstruction.opcode =
      some (.compute (.shift .rightHalf)) := by decide
  have comes : shiftJob.ComesTo shiftMemory (resumedFrom shiftJob) shiftInstruction _ _ :=
    .of_fetched ⟨rfl, rfl, by decide⟩ (by decide +kernel)
  have count : ((resumedFrom shiftJob).indexPlusD shiftInstruction).bmod 256 = -31 := by decide
  have number : (Word.rightHalf ((resumedFrom shiftJob).wordRegister shiftInstruction.j)).toNat =
      2 ^ 31 := by decide
  obtain ⟨after, new, performed, ⟨shifted, kept⟩, advances⟩ :=
    shifts_computed.2.2.2 shiftJob _ _ shiftMemory _ shiftInstruction .rightHalf assigned comes
  have last := shifted.right (by rw [count]; decide)
  rw [count, number] at last
  refine ⟨assigned, comes, count, after, new, performed, ?_, kept, advances⟩
  rw [last]
  norm_num

end Routine

end Mainframe
