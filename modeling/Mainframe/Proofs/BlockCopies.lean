import Mainframe.Proofs.BlockRetries
import Mainframe.Proofs.Computations
import Mainframe.Proofs.MemoryProtection
import Mainframe.Proofs.VirtualBytes

/-! Blocks that are moved and translated. Everything is read before the first byte is stored, so the
destination holds what the source held before the instruction, wherever the two overlap. -/

set_option autoImplicit false

namespace Mainframe

variable {μ : Type}

/-! ## Lengths -/

def Processor.firstLength (processor : Processor) : Nat :=
  min 256 ((processor.wordRegister 0).toNat % 512)

def Processor.secondLength (processor : Processor) : Nat :=
  min 256 ((processor.wordRegister 1).toNat % 512)

theorem blockLength_eq (word : Word) : blockLength word = min 256 (word.toNat % 512) := by
  rw [blockLength, BitVec.toNat_setWidth, Nat.min_comm]

theorem Execution.sourceLength_eq (processor : Processor) :
    sourceLength processor = processor.firstLength := blockLength_eq _

theorem Execution.destinationLength_eq (processor : Processor) :
    destinationLength processor = processor.secondLength := blockLength_eq _

theorem padded_of_le {length : Nat} {bytes : List Byte} (short : bytes.length ≤ length) :
    padded length bytes = bytes ++ List.replicate (length - bytes.length) space := by
  rw [padded, List.take_of_length_le short]

theorem length_padded (length : Nat) (bytes : List Byte) : (padded length bytes).length = length := by
  simp [padded]
  omega

/-! ## Operands -/

section

variable [Bus μ] (processor : Processor) (memory : μ) (instruction : Instruction)

def Processor.copiedLength : Nat := min processor.firstLength processor.secondLength

/-- The source is copied from aligned frames outside the tables. The destination is in aligned
frames too, in bytes that exist, differ from each other, and lie outside the tables. The two may
have bytes in common. -/
structure CopyOperands [SlottedBus μ] : Prop where
  source : processor.translation.SecludesBlock memory processor.copiedLength
    (processor.addressRegister instruction.j)
  sourceFramed : processor.translation.Framed memory processor.copiedLength
    (processor.addressRegister instruction.j)
  destination : processor.translation.SetsBlockApart memory processor.secondLength
    (processor.addressRegister instruction.k)
  destinationFramed : processor.translation.Framed memory processor.secondLength
    (processor.addressRegister instruction.k)

structure TableOperand [SlottedBus μ] : Prop where
  secluded : processor.translation.SecludesBlock memory 256 (processor.tableOperand instruction)
  framed : processor.translation.Framed memory 256 (processor.tableOperand instruction)

end

section

variable [Bus μ] [SlottedBus μ]

/-- A block has been copied. The destination holds the bytes of the source as they were before the
instruction, and spaces after them where there are fewer, each of them changed. Nothing else in
memory is different, but for marks of use in entries of the page table. -/
structure CopiesBlock (before : Processor) (memory : μ) (instruction : Instruction)
    (change : Byte → Byte) (after : Processor) (kept : μ) : Prop where
  copied : ∃ source places,
    before.translation.bytesAt memory before.copiedLength
      (before.addressRegister instruction.j) = some source ∧
    before.translation.placesIn memory (List.replicate before.secondLength 1)
      (before.addressRegister instruction.k) = some places ∧
    Stored (before.translation.entrySlots memory) memory places
      ((source ++ List.replicate (before.secondLength - before.copiedLength) space).map change)
      kept ∧
    before.translation.bytesAt kept before.secondLength (before.addressRegister instruction.k) =
      some ((source ++
        List.replicate (before.secondLength - before.copiedLength) space).map change)
  registers : (∀ number, after.addressRegister number = before.addressRegister number) ∧
    ∀ number, after.wordRegister number = before.wordRegister number
  advances : before.Advances instruction after

end

namespace Execution

section

variable [Bus μ] {processor : Processor} {memory : μ} {instruction : Instruction}

theorem execute_block {operation : BlockOperation}
    (assigned : Operation.ofOpcode instruction.opcode = some (.block operation)) :
    execute instruction = block operation instruction := by
  unfold execute
  rw [assigned]
  rfl

theorem ending_readVirtual_zero (processor : Processor) (memory : μ) (address : VirtualAddress) :
    (readVirtual address 0).ending processor memory = ((.ok [], processor), memory) := by
  rw [readVirtual, ending, course_get, TranslationUnit.pieces_zero]
  rfl

theorem ending_writeVirtual_nil (processor : Processor) (memory : μ) (address : VirtualAddress) :
    (writeVirtual address []).ending processor memory = ((.ok (), processor), memory) := by
  rw [writeVirtual, ending, course_get, List.length_nil, TranslationUnit.pieces_zero]
  rfl

theorem ending_moveBytes_zero (empty : processor.secondLength = 0) :
    (moveBytes instruction).ending processor memory = ((.ok (), processor), memory) := by
  rw [moveBytes, copyBlock, ending, course_get]
  dsimp only
  rw [destinationLength_eq, empty, Nat.min_zero]
  change (readVirtual _ 0 >>= _).ending processor memory = _
  rw [ending_bind, ending_readVirtual_zero]
  exact ending_writeVirtual_nil _ _ _

variable [SlottedBus μ] {kept : μ} {left : Processor} {places : List Address}

theorem copyBlock_ok {change : Byte → Byte}
    (source : processor.translation.SecludesBlock memory processor.copiedLength
      (processor.addressRegister instruction.j))
    (mapped : processor.translation.placesIn memory
      (processor.translation.pieces (processor.addressRegister instruction.k).byteNumber
        processor.secondLength) (processor.addressRegister instruction.k) = some places)
    (apart : Apart (processor.translation.tableSlots memory) memory places)
    (ended : (copyBlock change instruction).ending processor memory = ((.ok (), left), kept)) :
    left = processor ∧ ∃ bytes,
      processor.translation.blockAt memory processor.copiedLength
        (processor.addressRegister instruction.j) = some bytes ∧
      Stored (processor.translation.entrySlots memory) memory places
        ((bytes ++ List.replicate (processor.secondLength - processor.copiedLength) space).map
          change) kept := by
  rw [copyBlock, ending, course_get] at ended
  dsimp only at ended
  rw [sourceLength_eq, destinationLength_eq] at ended
  change (readVirtual _ processor.copiedLength >>= _).ending processor memory = _ at ended
  obtain ⟨bytes, between, holds, keeps, writing⟩ := readVirtual_then source ended
  have length := TranslationUnit.length_blockAt holds
  have short : bytes.length ≤ processor.secondLength := length ▸ Nat.min_le_right _ _
  rw [← processor.translation.placesIn_stored keeps.inTables] at mapped
  obtain ⟨rfl, stored⟩ :=
    writeVirtual_exact ((List.length_map _).trans (length_padded _ bytes)) mapped
      (keeps.inTables.apart apart) writing
  rw [padded_of_le short, length] at stored
  exact ⟨rfl, bytes, holds, keeps.stored apart stored⟩

/-- The table is read before the source. -/
theorem translateBytes_ok
    (table : processor.translation.SecludesBlock memory 256 (processor.tableOperand instruction))
    (source : processor.translation.SecludesBlock memory processor.copiedLength
      (processor.addressRegister instruction.j))
    (mapped : processor.translation.placesIn memory
      (processor.translation.pieces (processor.addressRegister instruction.k).byteNumber
        processor.secondLength) (processor.addressRegister instruction.k) = some places)
    (apart : Apart (processor.translation.tableSlots memory) memory places)
    (ended : (translateBytes instruction).ending processor memory = ((.ok (), left), kept)) :
    left = processor ∧ ∃ entries bytes,
      processor.translation.blockAt memory 256 (processor.tableOperand instruction) =
        some entries ∧
      processor.translation.blockAt memory processor.copiedLength
        (processor.addressRegister instruction.j) = some bytes ∧
      Stored (processor.translation.entrySlots memory) memory places
        ((bytes ++ List.replicate (processor.secondLength - processor.copiedLength) space).map
          (tableEntry entries)) kept := by
  rw [translateBytes, readTable, bind_assoc, ending, course_get] at ended
  obtain ⟨entries, between, found, keeps, copying⟩ := readVirtual_then table ended
  -- The table has left marks only, so the source and the destination are where they were.
  rw [← processor.translation.placesIn_stored keeps.inTables] at mapped
  obtain ⟨rfl, bytes, holds, stored⟩ :=
    copyBlock_ok (keeps.secludesBlock source) mapped (keeps.inTables.apart apart) copying
  rw [keeps.blockAt_eq source] at holds
  exact ⟨rfl, entries, bytes, found, holds, keeps.stored apart stored⟩

end

end Execution

/-! ## Steps -/

section

variable [Bus μ] {before running : Processor} {memory middle : μ} {instruction : Instruction}

theorem Runs.advances (runs : Runs before memory instruction running middle) :
    before.Advances instruction (running.commit true) := by
  obtain ⟨_, _, rfl⟩ := runs.begun
  exact ⟨_, _, _, _, _, _, _, _, rfl⟩

theorem Processor.Advances.registers {settled after : Processor}
    (advances : settled.Advances instruction after) :
    (∀ number, after.addressRegister number = settled.addressRegister number) ∧
      ∀ number, after.wordRegister number = settled.wordRegister number := by
  obtain ⟨_, _, _, _, _, _, _, _, rfl⟩ := advances
  exact ⟨fun _ => rfl, fun _ => rfl⟩

variable [SlottedBus μ] {after : Processor} {kept : μ} {change : Byte → Byte}

theorem CopyOperands.copies (operands : CopyOperands before memory instruction)
    (runs : Runs before memory instruction running middle) {places : List Address}
    {source : List Byte}
    (mapped : before.translation.placesIn memory (before.translation.pieces
      (before.addressRegister instruction.k).byteNumber before.secondLength)
      (before.addressRegister instruction.k) = some places)
    (apart : Apart (before.translation.tableSlots memory) memory places)
    (holds : before.translation.blockAt memory before.copiedLength
      (before.addressRegister instruction.j) = some source)
    (stored : Stored (running.translation.entrySlots middle) middle places
      ((source ++ List.replicate (before.secondLength - before.copiedLength) space).map change)
      kept) :
    CopiesBlock before memory instruction change (running.commit true) kept := by
  have stored := runs.stored apart stored
  refine ⟨⟨source, places, ?_, ?_, stored, ?_⟩, runs.advances.registers, runs.advances⟩
  · rw [← TranslationUnit.blockAt_eq_bytesAt operands.sourceFramed, holds]
  · rw [← TranslationUnit.placesIn_block operands.destinationFramed, mapped]
  · exact (stored.widen (fun _ => before.translation.tableSlots_of_entrySlots)
      apart.outside).bytesAt_eq mapped operands.destinationFramed

theorem CarriesOut.moves (carries : CarriesOut before memory instruction after kept)
    (assigned : Operation.ofOpcode instruction.opcode = some (.block .move))
    (operands : CopyOperands before memory instruction) :
    CopiesBlock before memory instruction id after kept := by
  obtain ⟨running, middle, left, runs, ending, rfl⟩ := carries
  obtain ⟨places, mapped, apart⟩ := operands.destination
  rw [Execution.execute_block assigned, Execution.block, Execution.moveBytes] at ending
  have source := runs.secludesBlock operands.source
  have same := runs.blockAt_eq operands.source
  have placed := runs.placesIn_eq.trans mapped
  have outside := runs.apart apart
  obtain ⟨_, _, rfl⟩ := runs.begun
  obtain ⟨rfl, bytes, holds, stored⟩ := Execution.copyBlock_ok source placed outside ending
  exact operands.copies runs mapped apart (same.symm.trans holds) stored

theorem CarriesOut.translates (carries : CarriesOut before memory instruction after kept)
    (assigned : Operation.ofOpcode instruction.opcode = some (.block .translate))
    (operands : CopyOperands before memory instruction)
    (table : TableOperand before memory instruction) :
    ∃ entries, before.translation.bytesAt memory 256 (before.tableOperand instruction) =
        some entries ∧
      CopiesBlock before memory instruction (tableEntry entries) after kept := by
  obtain ⟨running, middle, left, runs, ending, rfl⟩ := carries
  obtain ⟨places, mapped, apart⟩ := operands.destination
  rw [Execution.execute_block assigned, Execution.block] at ending
  have entries := runs.secludesBlock table.secluded
  have sameEntries := runs.blockAt_eq table.secluded
  have source := runs.secludesBlock operands.source
  have same := runs.blockAt_eq operands.source
  have placed := runs.placesIn_eq.trans mapped
  have outside := runs.apart apart
  obtain ⟨_, _, rfl⟩ := runs.begun
  obtain ⟨rfl, found, bytes, listed, holds, stored⟩ :=
    Execution.translateBytes_ok entries source placed outside ending
  refine ⟨found, ?_, operands.copies runs mapped apart (same.symm.trans holds) stored⟩
  rw [← TranslationUnit.blockAt_eq_bytesAt table.framed]
  exact sameEntries.symm.trans listed

/-- Moves and translations copy the source as it was, wherever it overlaps the destination, and
spaces after it. To move nothing takes no memory. -/
theorem blocks_copied :
    (∀ after (kept : μ), CarriesOut before memory instruction after kept →
      CopyOperands before memory instruction →
        (instruction.opcode = 0xF9 → CopiesBlock before memory instruction id after kept) ∧
        (instruction.opcode = 0xEB → TableOperand before memory instruction →
          ∃ entries, before.translation.bytesAt memory 256 (before.tableOperand instruction) =
              some entries ∧
            CopiesBlock before memory instruction (tableEntry entries) after kept)) ∧
      (instruction.opcode = 0xF9 → before.secondLength = 0 →
        ∀ running (middle : μ), Runs before memory instruction running middle →
          ∃ after, CarriesOut before memory instruction after middle ∧
            before.Advances instruction after) := by
  refine ⟨fun after kept carries operands => ⟨fun opcode => ?moves, fun opcode table => ?translates⟩,
    fun opcode empty running middle runs => ?nothing⟩
  case moves => exact carries.moves (by rw [opcode]; rfl) operands
  case translates => exact carries.translates (by rw [opcode]; rfl) operands table
  case nothing =>
    have assigned : Operation.ofOpcode instruction.opcode = some (.block .move) := by
      rw [opcode]
      rfl
    have empty : running.secondLength = 0 := by
      obtain ⟨_, _, rfl⟩ := runs.begun
      exact empty
    refine ⟨running.commit true, ⟨running, middle, running, runs, ?_, rfl⟩, runs.advances⟩
    rw [Execution.execute_block assigned]
    exact Execution.ending_moveBytes_zero empty

end

/-! A job that moves eight bytes across the end of a page, to two bytes further on, and one that
translates two bytes to where its source begins. -/

namespace Routine

theorem smallJob_apart (store : WordStore) {places : List Address}
    (above : places.all (fun place => (SlottedBus.slot (⟨4096, store⟩ : CyclicMemory) place).any
      (1024 ≤ ·)) = true)
    (ascending : (places.map (TranslationUnit.cellNumber (⟨4096, store⟩ : CyclicMemory))).IsChain
      (· < ·)) :
    Apart (smallJob.translation.tableSlots (⟨4096, store⟩ : CyclicMemory))
      (⟨4096, store⟩ : CyclicMemory) places := by
  have tables : (∀ segment ≤ smallJob.translation.segmentLimit.toNat,
      (SlottedBus.slot smallMemory (smallJob.translation.segmentEntryAddress segment)).any
        (· < 1024) = true) ∧
      ∀ index < smallJob.translation.pageTableEntries,
        (SlottedBus.slot smallMemory (smallJob.translation.pageEntryAddress
          (BitVec.ofNat 32 index))).any (· < 1024) = true := by decide +kernel
  exact TranslationUnit.apart_of_above 1024 tables.1 tables.2 above ascending

theorem smallJob_setsBlockApart {store : WordStore} {count : Nat} {address : VirtualAddress}
    (places : List Address)
    (mapped : smallJob.translation.placesIn (⟨4096, store⟩ : CyclicMemory)
      (smallJob.translation.pieces address.byteNumber count) address = some places)
    (above : places.all (fun place => (SlottedBus.slot (⟨4096, store⟩ : CyclicMemory) place).any
      (1024 ≤ ·)) = true)
    (ascending : (places.map (TranslationUnit.cellNumber (⟨4096, store⟩ : CyclicMemory))).IsChain
      (· < ·)) :
    smallJob.translation.SetsBlockApart (⟨4096, store⟩ : CyclicMemory) count address :=
  ⟨places, mapped, smallJob_apart store above ascending⟩

end Routine

def copyingJob (source target : HalfWord) (first second : Word) : Processor :=
  ((movingJob source target).withWordRegister 0 first).withWordRegister 1 second

def translating : Instruction := .decode .jkiD 0xEB12 0x3000

def translatingMemory : CyclicMemory :=
  ⟨4096, movingMemory.store.set 1024 0xEB12300000000000⟩

/-- The table begins before the end of a page. In it a space is changed to 0x11. -/
def translatingJob : Processor := (copyingJob 0x1F9 0x1F8 2 4).withAddressRegister 3 ⟨11, 0, 0x1D8⟩

/-- The last four bytes of the first block that is moved are spaces, and those of the second are
changed to what the table has for a space. To move no byte, neither block needs to be mapped. -/
theorem jobs_copied :
    let before := copyingJob 0x1FC 0x1FE 8 12
    let moved := (Routine.stepNative.run before).perform movingMemory
    let translated := (Routine.stepNative.run translatingJob).perform translatingMemory
    (CopiesBlock before movingMemory moving id moved.1.2 moved.2 ∧
        before.translation.bytesAt moved.2 12 ⟨11, 0, 0x1FE⟩ =
          some [0x55, 0x66, 0x77, 0x88, 0x99, 0xAA, 0xBB, 0xCC, 0x20, 0x20, 0x20, 0x20]) ∧
      ((∃ entries, before.translation.bytesAt translatingMemory 256 ⟨11, 0, 0x1D8⟩ =
          some entries ∧
            CopiesBlock translatingJob translatingMemory translating (tableEntry entries)
              translated.1.2 translated.2) ∧
        before.translation.bytesAt translated.2 4 ⟨11, 0, 0x1F8⟩ =
          some [0x33, 0x00, 0x11, 0x11]) ∧
      ∃ after kept, CarriesOut (copyingJob 0x7FFFFFFF 0x80000000 8 0) movingMemory moving after
        kept := by
  have moves : CarriesOut (copyingJob 0x1FC 0x1FE 8 12) movingMemory moving _ _ :=
    .of_completed (by decide +kernel) (by decide +kernel)
  have translates : CarriesOut translatingJob translatingMemory translating _ _ :=
    .of_completed (by decide +kernel) (by decide +kernel)
  have framed (memory : CyclicMemory) (count : Nat) (address : VirtualAddress) :
      Routine.smallJob.translation.Framed memory count address :=
    fun _ _ lookup _ => Routine.frameAligned_of_smallest rfl lookup
  have operands : CopyOperands (copyingJob 0x1FC 0x1FE 8 12) movingMemory moving := {
    source := (Routine.smallJob_setsBlockApart (run 4 0x21FC ++ run 4 0x4000)
      (by decide +kernel) (by decide +kernel) (by decide +kernel)).secludes
    sourceFramed := framed _ _ _
    destination := Routine.smallJob_setsBlockApart (run 2 0x21FE ++ run 10 0x4000)
      (by decide +kernel) (by decide +kernel) (by decide +kernel)
    destinationFramed := framed _ _ _ }
  have others : CopyOperands translatingJob translatingMemory translating := {
    source := (Routine.smallJob_setsBlockApart (run 2 0x21F9)
      (by decide +kernel) (by decide +kernel) (by decide +kernel)).secludes
    sourceFramed := framed _ _ _
    destination := Routine.smallJob_setsBlockApart (run 4 0x21F8)
      (by decide +kernel) (by decide +kernel) (by decide +kernel)
    destinationFramed := framed _ _ _ }
  have table : TableOperand translatingJob translatingMemory translating := {
    secluded := (Routine.smallJob_setsBlockApart (run 40 0x21D8 ++ run 216 0x4000)
      (by decide +kernel) (by decide +kernel) (by decide +kernel)).secludes
    framed := framed _ _ _ }
  obtain ⟨after, carries, -⟩ := blocks_copied.2 rfl (by decide +kernel) _ _
    (show Runs (copyingJob 0x7FFFFFFF 0x80000000 8 0) movingMemory moving _ _ from
      ⟨_, Prod.ext (Prod.ext (by decide +kernel) rfl) rfl, rfl⟩)
  exact ⟨⟨(blocks_copied.1 _ _ moves operands).1 rfl, by decide +kernel⟩,
    ⟨(blocks_copied.1 _ _ translates others).2 rfl table, by decide +kernel⟩, after, _, carries⟩

end Mainframe
