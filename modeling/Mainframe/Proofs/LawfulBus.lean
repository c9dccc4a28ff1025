import Mainframe.Memory.Cyclic
import Mainframe.Memory.Real
import Mainframe.Proofs.Lookup

/-! Memories on which a write shows only where the word that it selects is read. On them the marks
of use that translations leave in page table entries change nothing else, whatever the tables
share with each other. -/

set_option autoImplicit false

namespace Mainframe

/-- What is read after a write is what was read before, or the word written, at an address that
had the same contents as the one written to. A change of a word is a read and a write. -/
class LawfulBus (μ : Type) [Bus μ] : Prop where
  readWord_writeWord (memory : μ) (address other : Address) (word : Word) :
    Bus.readWord (Bus.writeWord memory address word) other = Bus.readWord memory other ∨
      Bus.readWord (Bus.writeWord memory address word) other = word ∧
        Bus.readWord memory other = Bus.readWord memory address
  modifyWord_eq (memory : μ) (address : Address) (change : Word → Word) :
    Bus.modifyWord memory address change =
      (Bus.readWord memory address,
        Bus.writeWord memory address (change (Bus.readWord memory address)))

instance : LawfulBus RealMemory where
  readWord_writeWord memory address other word := by
    change (memory.save address word).load other = memory.load other ∨
      (memory.save address word).load other = word ∧ memory.load other = memory.load address
    rw [RealMemory.load_save]
    split
    · next same => exact .inr ⟨rfl, by simp only [RealMemory.load, same.1]⟩
    · exact .inl rfl
  modifyWord_eq memory address change := memory.update_eq address change

instance : LawfulBus CyclicMemory where
  readWord_writeWord memory address other word := by
    rw [CyclicMemory.readWord_writeWord]
    split
    · next same => exact .inr ⟨rfl, congrArg memory.store.get same.symm⟩
    · exact .inl rfl
  modifyWord_eq _ _ _ := rfl

variable {μ : Type}

/-- The second memory is the first with marks of use added to some words. -/
inductive OnlyMarks [Bus μ] (memory : μ) : μ → Prop where
  | refl : OnlyMarks memory memory
  | mark {kept : μ} (address : Address) (modes : AccessModes) : OnlyMarks memory kept →
      OnlyMarks memory
        (Bus.writeWord kept address (Bus.readWord kept address ||| PageEntry.marks modes))

namespace OnlyMarks

variable [Bus μ] {first second third : μ}

theorem trans (before : OnlyMarks first second) (after : OnlyMarks second third) :
    OnlyMarks first third := by
  induction after with
  | refl => exact before
  | mark address modes _ ih => exact .mark address modes ih

theorem mark_page {memory : μ} {unit : TranslationUnit} {key : Byte} {address : VirtualAddress}
    {modes : AccessModes} {descriptor : SegmentDescriptor} {lookup : PageLookup}
    (translates : unit.Translates key memory address modes descriptor lookup)
    (access : AccessModes) : OnlyMarks memory ((lookup.mark access).perform memory).2 := by
  obtain ⟨-, same, -, -⟩ := unit.pageAt_some translates.page
  unfold PageLookup.mark
  split
  · rw [same, PageEntry.toWord_touched]
    exact .mark lookup.entryAddress access .refl
  · exact .refl

theorem or_marks (modes : AccessModes) :
    PageEntry.marks modes ||| PageEntry.marks .forUpdate = PageEntry.marks .forUpdate := by
  cases writing : modes.write <;> simp only [PageEntry.marks, writing] <;> decide

theorem readWord_or [LawfulBus μ] (marks : OnlyMarks first second) (address : Address) :
    Bus.readWord second address ||| PageEntry.marks .forUpdate =
      Bus.readWord first address ||| PageEntry.marks .forUpdate := by
  -- An update leaves every mark that there is, and covers whatever was marked before.
  induction marks with
  | refl => rfl
  | @mark kept place modes _ ih =>
    rcases LawfulBus.readWord_writeWord kept place address
      (Bus.readWord kept place ||| PageEntry.marks modes) with same | ⟨written, same⟩
    · rw [same, ih]
    · rw [written, ← same, BitVec.or_assoc, or_marks, ih]

end OnlyMarks

/-- In a descriptor the places of the marks hold the read protection. -/
theorem SegmentDescriptor.ofWord_or_marks (word : Word) :
    ofWord (word ||| PageEntry.marks .forUpdate) = { ofWord word with read := .binding } := by
  have marks : PageEntry.marks .forUpdate = 0x3000000000000000 := rfl
  have saturated : ∀ bits : BitVec 2, Protection.ofBits (bits ||| 3) = .binding := by decide
  simpa [ofWord, BitVec.extractLsb'_or, marks] using saturated _

theorem TranslationUnit.descriptorAt_marks [Bus μ] [LawfulBus μ] (unit : TranslationUnit)
    {first second : μ} (marks : OnlyMarks first second) {segment : Nat}
    {descriptor : SegmentDescriptor}
    (found : unit.descriptorAt second segment = some descriptor) :
    ∃ read, unit.descriptorAt first segment = some { descriptor with read } := by
  rw [descriptorAt_eq] at found ⊢
  split at found
  · cases found
  next within =>
  cases found
  rw [if_neg within]
  have same := congrArg SegmentDescriptor.ofWord
    (marks.readWord_or (unit.segmentEntryAddress segment))
  rw [SegmentDescriptor.ofWord_or_marks, SegmentDescriptor.ofWord_or_marks] at same
  refine ⟨_, congrArg some (SegmentDescriptor.ext ?_ rfl ?_ ?_ ?_ ?_ ?_ ?_)⟩
  · exact (congrArg SegmentDescriptor.execute same).symm
  · exact (congrArg SegmentDescriptor.write same).symm
  · exact (congrArg SegmentDescriptor.valid same).symm
  · exact (congrArg SegmentDescriptor.r1 same).symm
  · exact (congrArg SegmentDescriptor.r2 same).symm
  · exact (congrArg SegmentDescriptor.asid same).symm
  · exact (congrArg SegmentDescriptor.lock same).symm

end Mainframe
