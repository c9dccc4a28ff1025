import Mainframe.Proofs.PreciseFaults

/-! Memory protection. Whatever the instruction at hand, the words that a step writes are marks of
use in page table entries, or lie in pages that the program may write. -/

set_option autoImplicit false

namespace Mainframe

variable {μ : Type} [Bus μ]

/-- In the course of a history the address was translated with success for writing: it is a
proper address in a valid segment, which lets its ring and the current key write. -/
structure Processor.MayWrite (processor : Processor) (history : List (Moment μ))
    (place : VirtualAddress) (descriptor : SegmentDescriptor) (lookup : PageLookup) : Prop where
  translated : ∃ modes, modes.write = true ∧
    processor.Translated history place modes descriptor lookup
  byteNumber : place.byteNumber.toNat < 2 ^ 31
  segment : place.segment.toNat ≤ processor.translation.segmentLimit.toNat
  valid : descriptor.valid = true
  ringFrom : 1 ≤ place.ring.toNat
  ringTo : place.ring.toNat ≤ descriptor.r1.toNat
  permits : descriptor.write.permits (descriptor.keyMatches processor.key) = true

/-- The frames of the pages that are translated in a history begin at multiples of the page
size. -/
def Processor.FramesAligned (processor : Processor) (history : List (Moment μ)) : Prop :=
  ∀ place modes descriptor lookup, processor.Translated history place modes descriptor lookup →
    processor.translation.FrameAligned lookup

theorem Processor.Translated.mayWrite {processor : Processor} {history : List (Moment μ)}
    {place : VirtualAddress} {modes : AccessModes} {descriptor : SegmentDescriptor}
    {lookup : PageLookup} (translated : processor.Translated history place modes descriptor lookup)
    (writing : modes.write = true) : processor.MayWrite history place descriptor lookup := by
  obtain ⟨moment, _, _, translates⟩ := translated.1
  have granted := translates.granted
  simp only [SegmentDescriptor.grants, SegmentDescriptor.canWrite, writing, Bool.not_true,
    Bool.false_or, Bool.and_eq_true, decide_eq_true_eq] at granted
  have found := translates.segment
  rw [TranslationUnit.descriptorAt_eq] at found
  exact {
    translated := ⟨modes, writing, translated⟩
    byteNumber := translates.byteNumber
    segment := by
      split at found
      · cases found
      · next within => exact Nat.le_of_not_lt within
    valid := translates.valid
    ringFrom := by
      have positive := translates.ring
      bv_omega
    ringTo := granted.2.1
    permits := granted.2.2 }

namespace Routine

variable {processor : Processor}

theorem step_writes (dispatches : processor.Dispatches) (memory : μ)
    (aligned : processor.FramesAligned ((step.run processor).history memory))
    {earlier later : List (Moment μ)} {moment : Moment μ}
    (split : (step.run processor).history memory = earlier ++ moment :: later)
    {address : Address} {word : Word} (writes : moment.Writes address word) :
    processor.MarksEntry moment.memory later address word ∨
      ∃ place descriptor lookup, processor.MayWrite earlier place descriptor lookup ∧
        processor.translation.InFrame lookup address := by
  rcases confines_step dispatches memory earlier moment later split address word writes with
    marks | ⟨place, modes, descriptor, lookup, translated, writing, inside⟩
  · exact .inl marks
  · refine .inr ⟨place, descriptor, lookup, translated.mayWrite writing, inside ?_⟩
    refine aligned place modes descriptor lookup (translated.mono fun before member => ?_)
    rw [split]
    exact List.mem_append_left _ member

/-! Frames of pages of 512 bytes cannot be misaligned. -/

theorem frameAligned_of_smallest {unit : TranslationUnit} (smallest : unit.pageSizeMask = 0x7F)
    (lookup : PageLookup) : unit.FrameAligned lookup := by
  have shift : unit.pageShift = 9 := by
    unfold TranslationUnit.pageShift
    rw [smallest]
    rfl
  unfold TranslationUnit.FrameAligned TranslationUnit.pageSize PageEntry.frameAddress
  rw [shift, BitVec.toNat_shiftLeft, BitVec.toNat_setWidth, Nat.shiftLeft_eq]
  omega

def storingMemory : CyclicMemory :=
  { smallMemory with store := smallMemory.store.set 1024 0x8300000000000000 }

theorem step_writes_word :
    smallJob.Dispatches ∧ smallJob.FramesAligned ((step.run smallJob).history storingMemory) ∧
      ∃ earlier moment later,
        (step.run smallJob).history storingMemory = earlier ++ moment :: later ∧
        moment.Writes 0x2100 0 ∧
        (smallJob.MarksEntry moment.memory later 0x2100 0 ∨
          ∃ place descriptor lookup, smallJob.MayWrite earlier place descriptor lookup ∧
            smallJob.translation.InFrame lookup 0x2100) := by
  have aligned : smallJob.FramesAligned ((step.run smallJob).history storingMemory) :=
    fun _ _ _ lookup _ => frameAligned_of_smallest rfl lookup
  obtain ⟨kept, last⟩ : ∃ kept, ((step.run smallJob).history storingMemory).drop 13 =
      [⟨kept, .write 0x2100 0⟩] := ⟨_, rfl⟩
  have split := (List.take_append_drop 13 ((step.run smallJob).history storingMemory)).symm
  rw [last] at split
  exact ⟨smallJob_dispatches, aligned, _, _, _, split, .inl rfl,
    step_writes smallJob_dispatches storingMemory aligned split (.inl rfl)⟩

end Routine

end Mainframe
