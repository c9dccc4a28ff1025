import Mainframe.Proofs.PageTable

/-! Entries of the segment and page tables as words. Nothing that an entry says is lost when it is
read from a word or laid out in one, apart from what the formats have no room for, and a segment that
is entered in its table is found there beside all others. -/

set_option autoImplicit false

namespace Mainframe

theorem Word.ofBool_getLsbD (word : Word) (bit : Nat) :
    BitVec.ofBool (word.getLsbD bit) = word.extractLsb' bit 1 := by
  apply BitVec.eq_of_getLsbD_eq
  intro place inside
  obtain rfl : place = 0 := by omega
  simp

namespace SegmentDescriptor

/-- Bits 0 to 23, 30, 31 and 56 of a segment table entry, counted from the right end. -/
def undefinedBits : Word := 0x01000000C0FFFFFF

/-- What a segment table entry keeps of a descriptor: four bits of each ring and six of the lock. -/
def narrowed (descriptor : SegmentDescriptor) : SegmentDescriptor :=
  { descriptor with
    r1 := (descriptor.r1.setWidth 4).setWidth 8
    r2 := (descriptor.r2.setWidth 4).setWidth 8
    lock := (descriptor.lock.setWidth 6).setWidth 8 }

theorem toWord_ofWord (word : Word) : (ofWord word).toWord = word &&& ~~~ undefinedBits := by
  have joined (high low : Nat) {width more : Nat} (meets : high = low + width) :
      word.extractLsb' high more ++ word.extractLsb' low width =
        word.extractLsb' low (more + width) :=
    BitVec.extractLsb'_append_extractLsb'_eq_extractLsb' meets
  have whole : word.extractLsb' 62 2 ++ word.extractLsb' 60 2 ++ word.extractLsb' 58 2 ++
      word.extractLsb' 57 1 ++ word.extractLsb' 56 1 ++ word.extractLsb' 52 4 ++
      word.extractLsb' 48 4 ++ word.extractLsb' 32 16 ++ word.extractLsb' 30 2 ++
      word.extractLsb' 24 6 ++ word.extractLsb' 0 24 = word := by
    rw [joined 62 60 rfl, joined 60 58 rfl, joined 58 57 rfl, joined 57 56 rfl, joined 56 52 rfl,
      joined 52 48 rfl, joined 48 32 rfl, joined 32 30 rfl, joined 30 24 rfl, joined 24 0 rfl]
    exact BitVec.extractLsb'_eq_self
  have defined : ~~~ undefinedBits = BitVec.allOnes 2 ++ BitVec.allOnes 2 ++ BitVec.allOnes 2 ++
      BitVec.allOnes 1 ++ 0#1 ++ BitVec.allOnes 4 ++ BitVec.allOnes 4 ++ BitVec.allOnes 16 ++
      0#2 ++ BitVec.allOnes 6 ++ 0#24 := by decide
  have kept {width : Nat} (more : Nat) (field : BitVec width) (fits : width ≤ more) :
      (field.setWidth more).setWidth width = field := by
    rw [BitVec.setWidth_setWidth_of_le _ fits, BitVec.setWidth_eq]
  conv_rhs => rw [← whole, defined]
  change _ = (_ &&& _ : BitVec (2 + 2 + 2 + 1 + 1 + 4 + 4 + 16 + 2 + 6 + 24))
  simp only [BitVec.and_append, BitVec.and_allOnes, BitVec.and_zero]
  unfold ofWord toWord
  rw [ExecutePrivilege.bits_ofBits, Protection.bits_ofBits, Protection.bits_ofBits,
    Word.ofBool_getLsbD, kept 8 _ (by decide), kept 8 _ (by decide), kept 8 _ (by decide)]
  rfl

theorem ofWord_toWord (descriptor : SegmentDescriptor) :
    ofWord descriptor.toWord = descriptor.narrowed := by
  have valid : descriptor.toWord.getLsbD 57 = descriptor.valid := by
    simp only [toWord, BitVec.getLsbD_append]
    cases descriptor.valid <;> rfl
  have fields : descriptor.toWord.extractLsb' 62 2 = descriptor.execute.bits ∧
      descriptor.toWord.extractLsb' 60 2 = descriptor.read.bits ∧
      descriptor.toWord.extractLsb' 58 2 = descriptor.write.bits ∧
      descriptor.toWord.extractLsb' 52 4 = descriptor.r1.setWidth 4 ∧
      descriptor.toWord.extractLsb' 48 4 = descriptor.r2.setWidth 4 ∧
      descriptor.toWord.extractLsb' 32 16 = descriptor.asid ∧
      descriptor.toWord.extractLsb' 24 6 = descriptor.lock.setWidth 6 := by
    simp (disch := decide) only [toWord, BitVec.extractLsb'_append_eq_of_le, Nat.reduceSub,
      BitVec.extractLsb'_append_eq_right, BitVec.extractLsb'_eq_self, and_self]
  obtain ⟨execute, read, write, r1, r2, asid, lock⟩ := fields
  unfold ofWord narrowed
  rw [execute, read, write, valid, r1, r2, asid, lock, ExecutePrivilege.ofBits_bits,
    Protection.ofBits_bits, Protection.ofBits_bits]

end SegmentDescriptor

/-- What a page table entry keeps: 38 bits of the identifier and 22 of the frame. -/
def PageEntry.narrowed (entry : PageEntry) : PageEntry :=
  { entry with
    identifier := (entry.identifier.setWidth 38).setWidth 64
    frame := (entry.frame.setWidth 22).setWidth 32 }

namespace TranslationUnit

variable {μ : Type} [Bus μ]

theorem perform_installSegment (unit : TranslationUnit) (memory : μ) (segment : Nat)
    (descriptor : SegmentDescriptor) :
    (unit.installSegment segment descriptor).perform memory =
      if unit.segmentLimit.toNat < segment then (false, memory)
      else (true, Bus.writeWord memory (unit.segmentEntryAddress segment) descriptor.toWord) := by
  unfold installSegment
  split <;> rfl

variable [SlottedBus μ] (unit : TranslationUnit)

/-- The entries of the segment table are words that exist and differ from each other. -/
structure HasSegmentTable (memory : μ) : Prop where
  exist : ∀ segment, segment ≤ unit.segmentLimit.toNat →
    SlottedBus.slot memory (unit.segmentEntryAddress segment) ≠ none
  distinct : ∀ segment other, segment ≤ unit.segmentLimit.toNat →
    other ≤ unit.segmentLimit.toNat →
    SlottedBus.slot memory (unit.segmentEntryAddress segment) =
      SlottedBus.slot memory (unit.segmentEntryAddress other) → segment = other

variable {unit} {memory : μ}

theorem HasSegmentTable.descriptorAt_writeWord (table : unit.HasSegmentTable memory)
    {segment : Nat} (within : segment ≤ unit.segmentLimit.toNat) (word : Word) (other : Nat) :
    unit.descriptorAt (Bus.writeWord memory (unit.segmentEntryAddress segment) word) other =
      if other = segment then some (.ofWord word) else unit.descriptorAt memory other := by
  rw [descriptorAt_eq, descriptorAt_eq, SlottedBus.readWord_writeWord]
  by_cases same : other = segment
  · subst same
    rw [if_neg (Nat.not_lt.mpr within), if_pos ⟨rfl, table.exist other within⟩, if_pos rfl]
  · rw [if_neg same]
    split
    · rfl
    · next again =>
      rw [if_neg fun slots => same
        (table.distinct other segment (Nat.not_lt.mp again) within slots.1)]

/-- A segment is entered if the table reaches that far. Then it is found there, every other segment
is found as before, and no other word of memory changes. -/
structure EntersSegment (unit : TranslationUnit) (memory : μ) (segment : Nat)
    (descriptor : SegmentDescriptor) (entered : Bool) (kept : μ) : Prop where
  within : entered = true ↔ segment ≤ unit.segmentLimit.toNat
  found : entered = true → unit.descriptorAt kept segment = some descriptor.narrowed
  others : ∀ other, other ≠ segment →
    unit.descriptorAt kept other = unit.descriptorAt memory other
  words : ∀ address, SlottedBus.slot memory address ≠
      SlottedBus.slot memory (unit.segmentEntryAddress segment) →
    Bus.readWord kept address = Bus.readWord memory address
  refused : entered = false → kept = memory

theorem HasSegmentTable.installSegment (table : unit.HasSegmentTable memory) (segment : Nat)
    (descriptor : SegmentDescriptor) :
    let ended := (unit.installSegment segment descriptor).perform memory
    unit.EntersSegment memory segment descriptor ended.1 ended.2 := by
  rw [perform_installSegment]
  split
  · next beyond =>
    exact ⟨by simpa using beyond, nofun, fun _ _ => rfl, fun _ _ => rfl, fun _ => rfl⟩
  · next reached =>
    have within := Nat.not_lt.mp reached
    have written := table.descriptorAt_writeWord within descriptor.toWord
    refine ⟨by simpa using within, fun _ => ?_, fun other differs => ?_, fun address apart => ?_,
      nofun⟩
    · rw [written, if_pos rfl, descriptor.ofWord_toWord]
    · rw [written, if_neg differs]
    · rw [SlottedBus.readWord_writeWord, if_neg fun slots => apart slots.1]

/-- Words and entries stand for each other in both tables, but for bits that mean nothing and for
what the words have no room for. Segments can be entered and looked up on their own. -/
theorem entries_kept :
    (∀ word, (PageEntry.ofWord word).toWord = word) ∧
    (∀ entry : PageEntry, .ofWord entry.toWord = entry.narrowed) ∧
    (∀ word, (SegmentDescriptor.ofWord word).toWord =
      word &&& ~~~ SegmentDescriptor.undefinedBits) ∧
    (∀ descriptor : SegmentDescriptor, .ofWord descriptor.toWord = descriptor.narrowed) ∧
    ∀ (unit : TranslationUnit) (memory : μ), unit.HasSegmentTable memory →
      ∀ segment descriptor,
        let ended := (unit.installSegment segment descriptor).perform memory
        unit.EntersSegment memory segment descriptor ended.1 ended.2 :=
  ⟨PageEntry.toWord_ofWord, PageEntry.ofWord_toWord, SegmentDescriptor.toWord_ofWord,
    SegmentDescriptor.ofWord_toWord, fun _ _ table => table.installSegment⟩

/-! A table of four segments that ends with memory. Its address is not that of a word. -/

def lastSegments : TranslationUnit := { initial with segmentTable := 0x13, segmentLimit := 3 }

def lastSegmentsMemory : RealMemory := ⟨6, false, WordStore.empty.set 4 0x6ABB000000000000⟩

def wideDescriptor : SegmentDescriptor where
  execute := .localPrivileged
  read := .keyLock
  write := .unlocked
  valid := true
  r1 := 0x1B
  r2 := 0xFC
  asid := 0x8001
  lock := 0x7F

theorem wideDescriptor_entered :
    let ended := (lastSegments.installSegment 3 wideDescriptor).perform lastSegmentsMemory
    lastSegments.HasSegmentTable lastSegmentsMemory ∧ ended.1 = true ∧
      lastSegments.descriptorAt ended.2 3 =
        some { wideDescriptor with r1 := 0x0B, r2 := 0x0C, lock := 0x3F } ∧
      lastSegments.descriptorAt ended.2 2 = some (.ofWord 0x6ABB000000000000) := by
  intro ended
  have apart : ∀ segment ≤ 3, ∀ other ≤ 3,
      SlottedBus.slot lastSegmentsMemory (lastSegments.segmentEntryAddress segment) =
        SlottedBus.slot lastSegmentsMemory (lastSegments.segmentEntryAddress other) →
      segment = other := by decide +kernel
  have table : lastSegments.HasSegmentTable lastSegmentsMemory :=
    ⟨by decide +kernel, fun segment other within again => apart segment within other again⟩
  have enters : lastSegments.EntersSegment lastSegmentsMemory 3 wideDescriptor ended.1 ended.2 :=
    entries_kept.2.2.2.2 lastSegments lastSegmentsMemory table 3 wideDescriptor
  have entered : ended.1 = true := enters.within.mpr (by decide)
  refine ⟨table, entered, enters.found entered, ?_⟩
  rw [enters.others 2 (by decide)]
  decide +kernel

end TranslationUnit

end Mainframe
