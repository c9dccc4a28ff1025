import Mainframe.Proofs.ExchangeOutcomes
import Mainframe.Proofs.PageSearch
import Mainframe.Proofs.Signals

/-! State registers as cells of their own. A register that is written holds what it has room for, no
other one changes, and the geometry of pages follows from the two registers that describe it. Where
a write decides which actions conditions call for, what is pending meets the recorded ones. -/

set_option autoImplicit false

namespace Mainframe

open ExchangePackage

namespace StateRegister

/-- The bits of a register that can be set. -/
def definedBits : StateRegister → Word
  | .userMask | .userConditions | .monitorMask | .monitorConditions => 0xFFFF
  | .processTimer | .systemTimer | .pageTableAddress | .monitorPackage | .jobPackage => 0xFFFFFFFF
  | .pageTableLength | .processorIdentifier => 0xFF
  | .pageSizeMask => 0x7F
  | .virtualMachine => 0xF
  | .trapPointer => 0x0000FFFFFFFFFFFF
  | .segmentTable => 0x00000FFFFFFFFFFF
  | .flags => 0xC000
  | .trapControl => 0xE000
  | .baseConstant | .debugList | .keypointCode => BitVec.allOnes 64

theorem ofNumber_eq_some_iff {number : Byte} {register : StateRegister} :
    ofNumber number = some register ↔ number = register.number := by
  constructor
  · intro found
    have matching := List.find?_some found
    exact (beq_iff_eq.mp matching).symm
  · rintro rfl
    exact ofNumber_number register

end StateRegister

/-! ## Page geometry -/

structure PageGeometry where
  shift : Nat
  offsetMask : HalfWord
  entries : Nat
  deriving DecidableEq

/-- A page has 512 bytes under a mask of seven bits, and twice as many for each bit that is clear.
The table has 512 entries, and 512 more for each unit of its length. -/
def PageGeometry.ofRegisters (mask length : Word) : PageGeometry :=
  let shift := 16 - (List.range 7).countP mask.getLsbD
  { shift, offsetMask := BitVec.ofNat 32 (2 ^ shift - 1), entries := 512 * (length.toNat + 1) }

def TranslationUnit.geometry (unit : TranslationUnit) : PageGeometry :=
  ⟨unit.pageShift, unit.offsetMask, unit.pageTableEntries⟩

theorem TranslationUnit.pageShift_eq (unit : TranslationUnit) :
    unit.pageShift = 16 - (List.range 7).countP unit.pageSizeMask.getLsbD := by
  have seven := List.length_eq_countP_add_countP (l := List.range 7) unit.pageSizeMask.getLsbD
  simp only [List.length_range, Bool.not_eq_true, Bool.decide_eq_false] at seven
  unfold pageShift
  omega

namespace Processor

variable {before : Processor} {register other : StateRegister} {word : Word}

/-- The geometry is nowhere kept. It is computed from the two registers wherever addresses are split,
and so cannot fall behind them. -/
theorem geometry_eq (processor : Processor) :
    processor.translation.geometry = .ofRegisters (processor.stateRegister .pageSizeMask)
      (processor.stateRegister .pageTableLength) := by
  let unit := processor.translation
  have mask : ∀ bit ∈ List.range 7, (unit.pageSizeMask.getLsbD bit = true ↔
      (unit.pageSizeMask.setWidth 64).getLsbD bit = true) := by
    intro bit inside
    have small := List.mem_range.mp inside
    rw [BitVec.getLsbD_setWidth, decide_eq_true (by omega : bit < 64), Bool.true_and]
  have shift : unit.pageShift =
      16 - (List.range 7).countP (unit.pageSizeMask.setWidth 64).getLsbD := by
    rw [unit.pageShift_eq, List.countP_congr mask]
  have offsets : unit.offsetMask = BitVec.ofNat 32 (2 ^ unit.pageShift - 1) := by
    rw [TranslationUnit.offsetMask, TranslationUnit.pageSize_eq]
  have entries : unit.pageTableEntries =
      512 * ((unit.pageTableLength.setWidth 64).toNat + 1) := by
    have length := unit.pageTableLength.isLt
    rw [TranslationUnit.pageTableEntries_eq, BitVec.toNat_setWidth, Nat.mod_eq_of_lt (by omega),
      Nat.mul_comm]
  change PageGeometry.mk _ _ _ = PageGeometry.mk _ _ _
  rw [PageGeometry.mk.injEq]
  exact ⟨shift, shift ▸ offsets, entries⟩

/-! ## One register -/

theorem stateRegister_withStateRegister (processor : Processor) (register : StateRegister)
    (word : Word) :
    (processor.withStateRegister register word).stateRegister register =
      word &&& register.definedBits := by
  cases register
  case flags =>
    change (Flags.ofBits (word.setWidth 16)).bits.setWidth 64 = word &&& 0xC000
    rw [bits_ofBits_flags, BitVec.setWidth_and, setWidth_setWidth_eq_and, BitVec.and_assoc]
    rfl
  case trapControl =>
    change (TrapControl.ofBits (word.setWidth 16)).bits.setWidth 64 = word &&& 0xE000
    rw [bits_ofBits_trapControl, BitVec.setWidth_and, setWidth_setWidth_eq_and, BitVec.and_assoc]
    rfl
  case segmentTable => exact segments_ofWords word
  case virtualMachine =>
    have twice : ((word.setWidth 4).setWidth 8).setWidth 64 = (word.setWidth 4).setWidth 64 := by
      apply BitVec.eq_of_toNat_eq
      have small := (word.setWidth 4).isLt
      simp only [BitVec.toNat_setWidth] at small ⊢
      omega
    exact twice.trans (setWidth_setWidth_eq_and word 4)
  case trapPointer => exact setWidth_setWidth_eq_and word 48
  case baseConstant | debugList | keypointCode => exact BitVec.and_allOnes.symm
  all_goals exact setWidth_setWidth_eq_and word _

theorem stateRegister_withStateRegister_of_ne (processor : Processor) (word : Word)
    (differs : other ≠ register) :
    (processor.withStateRegister register word).stateRegister other =
      processor.stateRegister other := by
  cases register <;> cases other <;> first | exact absurd rfl differs | rfl

/-! ## A write -/

def numberedRegister (processor : Processor) (number : Byte) : Option Word :=
  (StateRegister.ofNumber number).map processor.stateRegister

/-- What the write of a register leaves. -/
structure Assigns (before : Processor) (register : StateRegister) (word : Word)
    (after : Processor) : Prop where
  contents : after.numberedRegister register.number = some (word &&& register.definedBits)
  others : ∀ number, number ≠ register.number →
    after.numberedRegister number = before.numberedRegister number
  p : after.p = before.p
  a : after.a = before.a
  x : after.x = before.x
  pending : before.pending ≤ after.pending
  geometry : after.translation.geometry = .ofRegisters (after.stateRegister .pageSizeMask)
    (after.stateRegister .pageTableLength)
  meets : register ∈ [.userConditions, .monitorConditions, .userMask, .monitorMask, .trapControl] →
    ∀ condition, after.holds condition = true → after.actionOf condition ≤ after.pending

theorem assigns_withStateRegister (before : Processor) (register : StateRegister) (word : Word)
    {pending : Action} (rises : before.pending ≤ pending)
    (meets : register.governsActions = true → ∀ condition,
      (before.withStateRegister register word).holds condition = true →
        (before.withStateRegister register word).actionOf condition ≤ pending) :
    before.Assigns register word { before.withStateRegister register word with pending } := by
  let written := before.withStateRegister register word
  have reads (other : StateRegister) :
      ({ written with pending } : Processor).stateRegister other = written.stateRegister other := by
    cases other <;> rfl
  have governs : register ∈ [.userConditions, .monitorConditions, .userMask, .monitorMask,
      .trapControl] → register.governsActions = true := by
    cases register <;> decide
  exact {
    contents := by
      rw [numberedRegister, StateRegister.ofNumber_number, Option.map_some, reads,
        stateRegister_withStateRegister]
    others := fun number differs => by
      refine Option.map_congr fun other found => ?_
      have distinct : other ≠ register := by
        rintro rfl
        exact differs (StateRegister.ofNumber_eq_some_iff.mp found)
      exact (reads other).trans (stateRegister_withStateRegister_of_ne before word distinct)
    p := by cases register <;> rfl
    a := by cases register <;> rfl
    x := by cases register <;> rfl
    pending := rises
    geometry := geometry_eq _
    meets := fun governing condition held => by
      cases condition <;> exact meets (governs governing) _ held }

end Processor

namespace Routine

variable {μ : Type} [Bus μ]

/-- State registers are independent of each other: whatever the state before, a write leaves what
assigning to the one register leaves. -/
theorem state_registers_independent (before : Processor) (memory : μ) (register : StateRegister)
    (word : Word) :
    ∃ after, ((setStateRegister register word).run before).perform memory = (((), after), memory) ∧
      before.Assigns register word after := by
  let written := before.withStateRegister register word
  have started : before.pending = written.pending := by cases register <;> rfl
  refine ⟨_, (Execution.setStateRegister_reports before register word).perform_eq memory, ?_⟩
  split
  case isTrue governs =>
    -- Conditions that are recorded already are raised again, so only the pending action can differ.
    obtain ⟨kept, raised⟩ := (written.pending_foldl_raise written.conditions).1
    change _ ≤ written.rescanned.pending at kept
    change ∀ condition ∈ _, _ ≤ written.rescanned.pending at raised
    change before.Assigns register word written.rescanned
    rw [written.rescanned_eq_reported] at kept raised ⊢
    rw [← started] at kept
    exact before.assigns_withStateRegister register word kept
      fun _ condition held => raised condition (List.mem_filter.mpr ⟨condition.mem_all, held⟩)
  case isFalse ungoverned =>
    exact before.assigns_withStateRegister register word (started ▸ Nat.le_refl _)
      fun governs => absurd governs ungoverned

example :
    let overflowed := { smallJob with
      userMask := 0, userConditions := 0x0040, trapControl := ⟨true, false, false⟩ }
    (((setStateRegister .userMask 0xFFFF).run overflowed).perform smallMemory).1.2.pending =
      .trap := by
  decide +kernel

end Routine

end Mainframe
