import Mainframe.Proofs.MemoryDifferences

/-! Translations that are repeated. An access that has succeeded with an entry succeeds with it
again, and so does one that asks for fewer modes, whatever marks have been left in the meantime.
Marks in a segment descriptor take no right away, so this holds where the tables overlap as well. -/

set_option autoImplicit false

namespace Mainframe

variable {μ : Type}

/-! ## Marks take no right away -/

/-- In the descriptor of a segment, marks make of the read protection one that lets everything
through. -/
theorem SegmentDescriptor.ofWord_or_marks_eq (word : Word) (modes : AccessModes) :
    ∃ read : Protection, (∀ lock key, read.Admits lock key) ∧
      ofWord (word ||| PageEntry.marks modes) = { ofWord word with read } := by
  cases writing : modes.write with
  | false =>
    have marks : PageEntry.marks modes = 0x2000000000000000 := by
      rw [PageEntry.marks, writing]
      rfl
    have saturated : ∀ bits : BitVec 2, Protection.ofBits (bits ||| 2) = .unlocked ∨
        Protection.ofBits (bits ||| 2) = .binding := by decide
    refine ⟨.ofBits (word.extractLsb' 60 2 ||| 2), fun lock key => ?_, ?_⟩
    · rcases saturated (word.extractLsb' 60 2) with same | same
      · exact .inl same
      · exact .inr (.inl same)
    · rw [marks]
      simp [ofWord, BitVec.extractLsb'_or]
  | true =>
    have marks : PageEntry.marks modes = PageEntry.marks .forUpdate := by
      rw [PageEntry.marks, writing]
      rfl
    rw [marks, ofWord_or_marks]
    exact ⟨.binding, fun _ _ => .inr (.inl rfl), rfl⟩

theorem SegmentDescriptor.Allows.fewer {descriptor : SegmentDescriptor} {modes fewer : AccessModes}
    {ring : Ring} {key : Byte} (allows : descriptor.Allows modes ring key)
    (execute : fewer.execute = true → modes.execute = true)
    (read : fewer.read = true → modes.read = true)
    (write : fewer.write = true → modes.write = true) : descriptor.Allows fewer ring key :=
  ⟨fun asked => allows.execute (execute asked), fun asked => allows.read (read asked),
    fun asked => allows.write (write asked)⟩

namespace TranslationUnit

section

variable [Bus μ] [SlottedBus μ] [ForgetfulBus μ] (unit : TranslationUnit) (memory : μ)
  (index other : PageIndex) (modes access : AccessModes)

theorem descriptorOf_marked (address : VirtualAddress) :
    ∃ read : Protection,
      (∀ lock key, (unit.descriptorOf memory address).read.Admits lock key →
        read.Admits lock key) ∧
      unit.descriptorOf (unit.marked memory index modes) address =
        { unit.descriptorOf memory address with read } := by
  unfold descriptorOf
  rw [readWord_marked]
  split
  · obtain ⟨read, admits, same⟩ := SegmentDescriptor.ofWord_or_marks_eq
      (Bus.readWord memory (unit.segmentEntryAddress address.segment.toNat)) modes
    exact ⟨read, fun lock key _ => admits lock key, same⟩
  · exact ⟨_, fun _ _ => id, rfl⟩

theorem entryAt_marked : ∃ used modified, unit.entryAt (unit.marked memory index modes) other =
    { unit.entryAt memory other with used, modified } := by
  unfold entryAt
  rw [readWord_marked]
  split
  · rw [PageEntry.ofWord_marked]
    exact ⟨_, _, rfl⟩
  · exact ⟨_, _, rfl⟩

theorem finds_marked (asid : BitVec 16) (page : HalfWord) (place : PageIndex) :
    unit.Finds unit.probedPlace (unit.marked memory index modes) asid page place ↔
      unit.Finds unit.probedPlace memory asid page place := by
  have continues (other : PageIndex) :
      (unit.entryAt (unit.marked memory index modes) other).continues =
        (unit.entryAt memory other).continues := by
    obtain ⟨_, _, same⟩ := unit.entryAt_marked memory index other modes
    rw [same]
  have carries (other : PageIndex) (identifier : BitVec 38) :
      (unit.entryAt (unit.marked memory index modes) other).Carries identifier ↔
        (unit.entryAt memory other).Carries identifier := by
    obtain ⟨_, _, same⟩ := unit.entryAt_marked memory index other modes
    rw [same]
    rfl
  unfold Finds
  simp only [continues, carries]

theorem marked_again (joined : AccessModes)
    (both : PageEntry.marks modes ||| PageEntry.marks access = PageEntry.marks joined) :
    unit.marked (unit.marked memory index modes) index access =
      unit.marked memory index joined := by
  rw [marked_marked unit memory index index modes access rfl, both, marked_eq]

end

end TranslationUnit

/-! ## Accesses -/

namespace Access

/-- The access succeeds with the page table entry at a place, and leads to a real address. -/
structure Succeeds [Bus μ] (access : Access) (unit : TranslationUnit) (memory : μ)
    (index : PageIndex) (real : Address) : Prop where
  below : access.address.byteNumber.toNat < 2 ^ 31
  named : ¬ unit.LacksSegment memory access.address
  allowed : (unit.descriptorOf memory access.address).Allows access.modes access.address.ring
    access.key
  found : unit.Finds unit.probedPlace memory (unit.descriptorOf memory access.address).asid
    (unit.pageOf access.address.byteNumber) index
  real : real = (unit.entryAt memory index).frameAddress |||
    BitVec.ofNat 64 (access.address.byteNumber.toNat % unit.pageSize)

section

variable [Bus μ] {access : Access} {unit : TranslationUnit} {memory : μ} {index other : PageIndex}
  {real place : Address}

theorem exists_succeeds (completes : access.outcome unit memory = .ok real) :
    ∃ index, access.Succeeds unit memory index real := by
  obtain ⟨below, named, allowed, index, found, same⟩ := outcome_eq_ok_iff.mp completes
  exact ⟨index, below, named, allowed, found, same⟩

namespace Succeeds

theorem outcome_eq (succeeds : access.Succeeds unit memory index real) :
    access.outcome unit memory = .ok real :=
  outcome_eq_ok_iff.mpr ⟨succeeds.below, succeeds.named, succeeds.allowed, index, succeeds.found,
    succeeds.real⟩

theorem leave_eq (succeeds : access.Succeeds unit memory index real) (start : μ) :
    access.leave unit memory start = unit.marked start index access.modes := by
  unfold leave place
  rw [succeeds.outcome_eq]
  dsimp only
  rw [TranslationUnit.entryOf_eq_some_iff.mpr ⟨succeeds.found, rfl⟩]
  rfl

theorem unique {modes more : AccessModes} {key lock : Byte} {address : VirtualAddress}
    (first : (⟨address, modes, key⟩ : Access).Succeeds unit memory index real)
    (second : (⟨address, more, lock⟩ : Access).Succeeds unit memory other place) :
    other = index ∧ place = real := by
  obtain rfl : index = other := first.found.unique second.found
  exact ⟨rfl, second.real.trans first.real.symm⟩

theorem fewer {modes fewer : AccessModes} {key : Byte} {address : VirtualAddress}
    (succeeds : (⟨address, modes, key⟩ : Access).Succeeds unit memory index real)
    (execute : fewer.execute = true → modes.execute = true)
    (read : fewer.read = true → modes.read = true)
    (write : fewer.write = true → modes.write = true) :
    (⟨address, fewer, key⟩ : Access).Succeeds unit memory index real :=
  ⟨succeeds.below, succeeds.named, succeeds.allowed.fewer execute read write, succeeds.found,
    succeeds.real⟩

theorem marked [SlottedBus μ] [ForgetfulBus μ] (succeeds : access.Succeeds unit memory index real)
    (other : PageIndex) (modes : AccessModes) :
    access.Succeeds unit (unit.marked memory other modes) index real := by
  obtain ⟨below, named, allowed, found, same⟩ := succeeds
  obtain ⟨read, admits, segment⟩ := unit.descriptorOf_marked memory other modes access.address
  obtain ⟨_, _, entry⟩ := unit.entryAt_marked memory other index modes
  refine ⟨below, ?_, ?_, ?_, ?_⟩
  · unfold TranslationUnit.LacksSegment at named ⊢
    rwa [segment]
  · rw [segment]
    exact ⟨allowed.execute,
      fun asked => ⟨(allowed.read asked).1, admits _ _ (allowed.read asked).2⟩, allowed.write⟩
  · rw [unit.finds_marked, segment]
    exact found
  · rw [same, entry]
    rfl

theorem of_shares {left : TranslationUnit} (shares : unit.SharesTables left)
    (succeeds : access.Succeeds unit memory index real) :
    access.Succeeds left memory index real := by
  obtain ⟨_, _, rfl⟩ := shares
  exact ⟨succeeds.below, succeeds.named, succeeds.allowed, succeeds.found, succeeds.real⟩

end Succeeds

end

end Access

end Mainframe
