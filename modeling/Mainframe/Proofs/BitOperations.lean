import Mainframe.Proofs.Editing
import Mainframe.Proofs.RepeatedTranslations
import Mainframe.Proofs.VirtualBits

/-! The operations on a single bit, one translation after another. A bit is loaded and stored with
the byte that holds it, and set with the word. Where the byte is outside the page table, to set a
bit comes to the same as to load it and to store one. -/

set_option autoImplicit false

namespace Mainframe

variable {α μ : Type}

/-! ## Bits of bytes and of words -/

theorem Word.getLsbD_byteAt (word : Word) (index : Nat) {place : Nat} (inside : place < 8) :
    (word.byteAt index).getLsbD place = word.getLsbD (Word.byteShift index + place) := by
  rw [byteAt, byteFrom, BitVec.getLsbD_extractLsb', decide_eq_true inside, Bool.true_and]

namespace BitOperand

variable (operand : BitOperand)

theorem mask_eq : operand.mask = BitVec.twoPow 64 (7 - operand.place.val) := by
  have shifted : ∀ place : Fin 8,
      (0x80 : Word) >>> place.val = BitVec.twoPow 64 (7 - place.val) := by decide
  exact shifted operand.place

theorem select_eq (byte : Byte) :
    operand.select (byte.setWidth 64) = if byteBit byte operand.place then 1 else 0 := by
  have bit : ((byte.setWidth 64 : Word) >>> (7 - operand.place.val)).getLsbD 0 =
      byteBit byte operand.place := by
    rw [BitVec.getLsbD_ushiftRight, BitVec.getLsbD_setWidth]
    simp [byteBit]
    omega
  unfold select
  rw [show (1 : Word) = 1#64 from rfl, BitVec.and_one_eq_setWidth_ofBool_getLsbD, bit]
  cases byteBit byte operand.place <;> rfl

theorem replace_eq (byte : Byte) (bit : Bool) :
    (operand.replace (byte.setWidth 64) bit).setWidth 8 = withByteBit byte operand.place bit := by
  have mask : operand.mask.setWidth 8 = BitVec.twoPow 8 (7 - operand.place.val) := by
    rw [mask_eq]
    have narrowed : ∀ place : Fin 8, (BitVec.twoPow 64 (7 - place.val)).setWidth 8 =
        BitVec.twoPow 8 (7 - place.val) := by decide
    exact narrowed operand.place
  unfold replace withByteBit
  cases bit with
  | false => simp [mask, BitVec.setWidth_and]
  | true => simp [mask, BitVec.setWidth_or]

end BitOperand

theorem Word.withByteAt_withByteBit (word : Word) {index : Nat} (inside : index < 8)
    (place : Fin 8) :
    word.withByteAt index (withByteBit (word.byteAt index) place true) =
      word ||| selector (8 * index + place.val) := by
  have shift : byteShift index = 8 * (7 - index) := by
    rw [byteShift, Nat.mod_eq_of_lt inside]
  apply BitVec.eq_of_getLsbD_eq
  intro bit _
  simp only [withByteAt, withByteBit, selector_eq, if_true, BitVec.getLsbD_or, BitVec.getLsbD_and,
    BitVec.getLsbD_not, BitVec.getLsbD_shiftLeft, BitVec.getLsbD_setWidth, BitVec.getLsbD_twoPow,
    BitVec.getLsbD_allOnes, shift]
  by_cases within : 8 * (7 - index) ≤ bit ∧ bit < 8 * (7 - index) + 8
  · obtain ⟨low, rfl⟩ := Nat.exists_eq_add_of_le within.1
    have small : low < 8 := by omega
    have number : 63 - (8 * index + place.val) = 8 * (7 - index) + (7 - place.val) := by omega
    rw [Nat.add_sub_cancel_left, getLsbD_byteAt _ _ small, shift, number]
    grind
  · grind

theorem Word.hasBit_byteAt (word : Word) {index : Nat} (inside : index < 8) (place : Fin 8) :
    word.HasBit (8 * index + place.val) ↔ byteBit (word.byteAt index) place = true := by
  rw [hasBit_iff, byteBit, getLsbD_byteAt _ _ (by omega), byteShift]
  have : 63 - (8 * index + place.val) = 8 * (7 - index % 8) + (7 - place.val) := by omega
  rw [this]

def withBitAt [Bus μ] (memory : μ) (real : Address) (place : Fin 8) (bit : Bool) : μ :=
  ((Activity.writeByte real (withByteBit (byteAt memory real) place bit)).perform memory).2

/-- Bits are numbered through the whole word from the left, as they are in each of its bytes. -/
theorem writeWord_selector [Bus μ] [SlottedBus μ] [ForgetfulBus μ] (memory : μ) (real : Address)
    (place : Fin 8) :
    Bus.writeWord memory (real >>> 3 <<< 3) (Bus.readWord memory (real >>> 3 <<< 3) |||
        Word.selector (8 * (real.toNat % 8) + place.val)) =
      withBitAt memory real place true := by
  have slot := Execution.slot_wordStart memory real
  rw [withBitAt, perform_writeByte, byteAt, Activity.byteIndex,
    Word.withByteAt_withByteBit _ (Nat.mod_lt _ (by decide)), SlottedBus.readWord_congr memory slot,
    ForgetfulBus.writeWord_congr memory _ slot]

/-! ## Single bytes -/

theorem TranslationUnit.pieces_one (unit : TranslationUnit) (byteNumber : HalfWord) :
    unit.pieces byteNumber 1 = [1] := by
  have positive := unit.pageRemaining_pos byteNumber
  unfold pieces
  rw [Nat.min_eq_left positive]
  simp

namespace Execution

section

variable [Bus μ] [SlottedBus μ] {processor left : Processor} {memory last : μ}
  {address : VirtualAddress} {modes : AccessModes} {index : PageIndex} {real : Address}

theorem ending_translate_of_succeeds
    (succeeds : (processor.access modes address).Succeeds processor.translation memory index real)
    (fetching : modes.execute = false) :
    (translate address modes).ending processor memory =
      ((.ok real, processor), processor.translation.marked memory index modes) := by
  rw [ending_translate fetching .refl, succeeds.outcome_eq]
  dsimp only
  rw [succeeds.leave_eq]
  rfl

theorem ending_translate_then
    (succeeds : (processor.access modes address).Succeeds processor.translation memory index real)
    (fetching : modes.execute = false) (continuation : Address → Execution α) :
    (translate address modes >>= continuation).ending processor memory =
      (continuation real).ending processor (processor.translation.marked memory index modes) := by
  rw [ending_bind, ending_translate_of_succeeds succeeds fetching]

omit [SlottedBus μ] in
theorem ending_readByte_then (continuation : Byte → Execution α) :
    ((liftM (Activity.readByte real) : Execution Byte) >>= continuation).ending processor memory =
      (continuation (byteAt memory real)).ending processor memory := by
  rw [ending_bind, ending_liftM]
  rfl

theorem translate_then {continuation : Address → Execution α} {result : α}
    (fetching : modes.execute = false)
    (ended : (translate address modes >>= continuation).ending processor memory =
      ((.ok result, left), last)) :
    ∃ index real,
      (processor.access modes address).Succeeds processor.translation memory index real ∧
      (continuation real).ending processor (processor.translation.marked memory index modes) =
        ((.ok result, left), last) := by
  rw [ending_bind] at ended
  cases found : (processor.access modes address).outcome processor.translation memory with
  | error fault =>
    rw [ending_translate fetching .refl, found] at ended
    cases ended
  | ok real =>
    obtain ⟨index, succeeds⟩ := Access.exists_succeeds found
    rw [ending_translate_of_succeeds succeeds fetching] at ended
    exact ⟨index, real, succeeds, ended⟩

theorem ending_loadBytes_one (continuation : Word → Execution α) :
    (loadBytes address 1 >>= continuation).ending processor memory =
      (translate address .forRead >>= fun real =>
        (liftM (Activity.readByte real) : Execution Byte) >>= fun byte =>
          continuation (byte.setWidth 64)).ending processor memory := by
  have single : (readVirtual address 1).ending processor memory =
      (readPieces [1] address).ending processor memory := by
    rw [readVirtual, ending, course_get, TranslationUnit.pieces_one]
    rfl
  rw [loadBytes_one, bind_assoc, ending_bind, single, readPieces, ending_bind, ending_bind]
  rcases (translate address .forRead).ending processor memory with ⟨⟨condition | real, left⟩, kept⟩
  · rfl
  · dsimp only
    rw [ending_bind, ending_liftM, ending_bind, ending_liftM, Activity.perform_readBytes,
      (Activity.readBytes_reads _ _).perform_memory]
    change (continuation (Word.ofBytes [byteAt kept real])).ending left kept = _
    rw [Word.ofBytes_singleton]
    rfl

theorem ending_storeBytes_one [ForgetfulBus μ] (word : Word) :
    (storeBytes address 1 word).ending processor memory =
      (translate address .forWrite >>= fun real =>
        (liftM (Activity.writeByte real (word.setWidth 8)) : Execution Unit)).ending processor
          memory := by
  have single : (storeBytes address 1 word).ending processor memory =
      (writePieces [1] [word.setWidth 8] address).ending processor memory := by
    change (writeVirtual address [word.setWidth 8]).ending processor memory = _
    rw [writeVirtual, ending, course_get, List.length_singleton, TranslationUnit.pieces_one]
    rfl
  rw [single, writePieces, ending_bind, ending_bind]
  rcases (translate address .forWrite).ending processor memory with ⟨⟨condition | real, left⟩, kept⟩
  · rfl
  · dsimp only
    rw [ending_bind, ending_liftM, ending_liftM, List.take_of_length_le (Nat.le_refl 1),
      Activity.perform_writeBytes_eq]
    rfl

end

/-! ## Single bits -/

section

variable [Bus μ] [SlottedBus μ] {processor left : Processor} {memory kept : μ}
  {instruction : Instruction} {index : PageIndex} {real : Address}

theorem loadBit_opened :
    (loadBit instruction).ending processor memory =
      let operand := processor.bitOperand instruction instruction.signedQ
      (translate operand.byte .forRead >>= fun real =>
        (liftM (Activity.readByte real) : Execution Byte) >>= fun byte =>
          modify fun left => left.withWordRegister instruction.k
            (if byteBit byte operand.place then 1 else 0)).ending processor memory := by
  rw [loadBit, ending, course_get]
  change (loadBytes (processor.bitOperand instruction instruction.signedQ).byte 1 >>= _).ending
    processor memory = _
  rw [ending_loadBytes_one]
  simp only [BitOperand.select_eq]

theorem storeBit_opened :
    (storeBit instruction).ending processor memory =
      let operand := processor.bitOperand instruction instruction.signedQ
      (translate operand.byte .forRead >>= fun real =>
        (liftM (Activity.readByte real) : Execution Byte) >>= fun byte =>
          storeBytes operand.byte 1 (operand.replace (byte.setWidth 64)
            ((processor.wordRegister instruction.k).getLsbD 0))).ending processor memory := by
  rw [storeBit, ending, course_get]
  exact ending_loadBytes_one (α := Unit) _

theorem ending_loadBit
    (reads : (processor.access .forRead
      (processor.bitOperand instruction instruction.signedQ).byte).Succeeds processor.translation
        memory index real) :
    (loadBit instruction).ending processor memory =
      let marked := processor.translation.marked memory index .forRead
      let place := (processor.bitOperand instruction instruction.signedQ).place
      ((.ok (), processor.withWordRegister instruction.k
        (if byteBit (byteAt marked real) place then 1 else 0)), marked) := by
  rw [loadBit_opened, ending_translate_then reads rfl, ending_readByte_then]
  exact Activity.Reports.perform_eq (Settles.modified _) _

theorem succeeds_of_loadBit
    (ended : (loadBit instruction).ending processor memory = ((.ok (), left), kept)) :
    ∃ index real, (processor.access .forRead
      (processor.bitOperand instruction instruction.signedQ).byte).Succeeds processor.translation
        memory index real := by
  rw [loadBit_opened] at ended
  obtain ⟨index, real, reads, -⟩ := translate_then rfl ended
  exact ⟨index, real, reads⟩

theorem succeeds_of_lockBit
    (ended : (lockBit instruction).ending processor memory = ((.ok (), left), kept)) :
    ∃ index real, (processor.access .forUpdate
      (processor.bitOperand instruction 0).byte).Succeeds processor.translation memory index
        real := by
  rw [lockBit, ending, course_get] at ended
  change (translate (processor.bitOperand instruction 0).byte .forUpdate >>= _).ending processor
    memory = _ at ended
  obtain ⟨index, real, updates, -⟩ := translate_then rfl ended
  exact ⟨index, real, updates⟩

variable [ForgetfulBus μ]

theorem ending_storeBit
    (reads : (processor.access .forRead
      (processor.bitOperand instruction instruction.signedQ).byte).Succeeds processor.translation
        memory index real)
    (writes : (processor.access .forWrite
      (processor.bitOperand instruction instruction.signedQ).byte).Succeeds processor.translation
        (processor.translation.marked memory index .forRead) index real) :
    (storeBit instruction).ending processor memory =
      let marked := processor.translation.marked memory index .forRead
      let place := (processor.bitOperand instruction instruction.signedQ).place
      let bit := (processor.wordRegister instruction.k).getLsbD 0
      ((.ok (), processor), ((Activity.writeByte real
        (withByteBit (byteAt marked real) place bit)).perform
          (processor.translation.marked marked index .forWrite)).2) := by
  rw [storeBit_opened, ending_translate_then reads rfl, ending_readByte_then,
    ending_storeBytes_one, ending_translate_then writes rfl, BitOperand.replace_eq, ending_liftM]

theorem succeeds_of_storeBit
    (ended : (storeBit instruction).ending processor memory = ((.ok (), left), kept)) :
    ∃ index real, (processor.access .forRead
        (processor.bitOperand instruction instruction.signedQ).byte).Succeeds processor.translation
          memory index real ∧
      (processor.access .forWrite
        (processor.bitOperand instruction instruction.signedQ).byte).Succeeds processor.translation
          (processor.translation.marked memory index .forRead) index real := by
  rw [storeBit_opened] at ended
  obtain ⟨index, real, reads, ended⟩ := translate_then rfl ended
  rw [ending_readByte_then, ending_storeBytes_one] at ended
  obtain ⟨other, place, writes, -⟩ := translate_then rfl ended
  obtain ⟨rfl, rfl⟩ := (reads.marked index .forRead).unique writes
  exact ⟨_, _, reads, writes⟩

theorem ending_lockBit_byte [LawfulBus μ]
    (updates : (processor.access .forUpdate
      (processor.bitOperand instruction 0).byte).Succeeds processor.translation memory index real) :
    (lockBit instruction).ending processor memory =
      let marked := processor.translation.marked memory index .forUpdate
      let place := (processor.bitOperand instruction 0).place
      ((.ok (), processor.withWordRegister instruction.k
        (if byteBit (byteAt marked real) place then 1 else 0)),
          withBitAt marked real place true) := by
  have inside : real.toNat % 8 < 8 := Nat.mod_lt _ (by decide)
  rw [ending_lockBit (ending_translate_of_succeeds updates rfl)
    ⟨8 * (real.toNat % 8) + (processor.bitOperand instruction 0).place.val, by omega⟩ rfl]
  dsimp only
  rw [Lock.apply, writeWord_selector, Lock.report,
    SlottedBus.readWord_congr _ (slot_wordStart _ real)]
  simp only [Word.hasBit_byteAt _ inside]
  rfl

end

end Execution

/-! ## Setting a bit is loading and storing it -/

/-- Where one processor is to set a bit, another has a bit operand of its own, with the same
rights. -/
structure Processor.SharesBit (running : Processor) (lock : Instruction) (other : Processor)
    (instruction : Instruction) : Prop where
  tables : running.translation.SharesTables other.translation
  key : other.key = running.key
  operand : other.bitOperand instruction instruction.signedQ = running.bitOperand lock 0

section

variable [Bus μ] {running other left : Processor} {lock instruction : Instruction} {memory kept : μ}
  {index : PageIndex} {real : Address}

theorem Processor.SharesBit.succeeds (shares : running.SharesBit lock other instruction)
    {modes : AccessModes}
    (succeeds : (running.access modes (running.bitOperand lock 0).byte).Succeeds
      running.translation memory index real) :
    (other.access modes (other.bitOperand instruction instruction.signedQ).byte).Succeeds
      other.translation memory index real := by
  rw [shares.operand, Processor.access, shares.key]
  exact succeeds.of_shares shares.tables

theorem TranslationUnit.SharesTables.marked_eq {unit other : TranslationUnit}
    (shares : unit.SharesTables other) (memory : μ) (index : PageIndex) (modes : AccessModes) :
    other.marked memory index modes = unit.marked memory index modes := by
  obtain ⟨_, _, rfl⟩ := shares
  rfl

theorem Access.Succeeds.placeAt_eq {access : Access} {unit : TranslationUnit}
    (succeeds : access.Succeeds unit memory index real) :
    unit.placeAt memory access.address = some real := by
  have proper : access.address.byteNumber.msb = false := by
    simpa [BitVec.msb_eq_decide] using succeeds.below
  have within : ¬ unit.segmentLimit.toNat < access.address.segment.toNat :=
    fun beyond => succeeds.named (.inr (.inl beyond))
  have entry := TranslationUnit.entryOf_eq_some_iff.mpr ⟨succeeds.found, rfl⟩
  rw [TranslationUnit.placeAt_eq_realAt proper, TranslationUnit.realAt,
    TranslationUnit.descriptorAt_eq, if_neg within, Option.bind_some, TranslationUnit.pageAt_eq,
    TranslationUnit.setWidth_offset, succeeds.real]
  change ((unit.entryOf memory (unit.descriptorOf memory access.address).asid _).map _).map _ = _
  rw [entry]
  rfl

variable [SlottedBus μ]

def TranslationUnit.SparesByte (unit : TranslationUnit) (memory : μ) (address : VirtualAddress) :
    Prop :=
  ∀ real, unit.placeAt memory address = some real →
    ¬ unit.entrySlots memory (SlottedBus.slot memory real)

theorem Access.Succeeds.entrySlots {access : Access} {unit : TranslationUnit}
    (succeeds : access.Succeeds unit memory index real) :
    unit.entrySlots memory (SlottedBus.slot memory (unit.pageEntryAddress index)) := by
  obtain ⟨probe, -, -, -, rfl⟩ := succeeds.found
  exact ⟨_, rfl⟩

theorem Access.Succeeds.apart {access : Access} {unit : TranslationUnit}
    (succeeds : access.Succeeds unit memory index real)
    (spares : unit.SparesByte memory access.address) :
    SlottedBus.slot memory real ≠ SlottedBus.slot memory (unit.pageEntryAddress index) := by
  intro same
  refine spares real succeeds.placeAt_eq ?_
  rw [same]
  exact succeeds.entrySlots

variable [ForgetfulBus μ]

theorem byteAt_marked {unit : TranslationUnit} (modes : AccessModes)
    (apart : SlottedBus.slot memory real ≠ SlottedBus.slot memory (unit.pageEntryAddress index)) :
    byteAt (unit.marked memory index modes) real = byteAt memory real := by
  rw [byteAt, TranslationUnit.readWord_marked, if_neg apart, byteAt]

theorem Access.Succeeds.keeps {access : Access} {unit : TranslationUnit}
    (succeeds : access.Succeeds unit memory index real) (modes : AccessModes) :
    Keeps (unit.entrySlots memory) memory (unit.marked memory index modes) := by
  rw [TranslationUnit.marked_eq]
  exact .mark succeeds.entrySlots modes

/-- An instruction that sets a bit reports and leaves what a load of the bit, and after it a store
of one in its place, report and leave. -/
theorem Execution.lockBit_splits [LawfulBus μ]
    (spares : running.translation.SparesByte memory (running.bitOperand lock 0).byte)
    (ended : (lockBit lock).ending running memory = ((.ok (), left), kept)) :
    ∃ word read, left = running.withWordRegister lock.k word ∧
      (∀ reading load, running.SharesBit lock reading load →
        (loadBit load).ending reading memory =
          ((.ok (), reading.withWordRegister load.k word), read)) ∧
      ∀ setting store, running.SharesBit lock setting store →
        (setting.wordRegister store.k).getLsbD 0 = true →
          (storeBit store).ending setting read = ((.ok (), setting), kept) := by
  obtain ⟨index, real, updates⟩ := succeeds_of_lockBit ended
  cases (ending_lockBit_byte updates).symm.trans ended
  have apart := updates.apart spares
  have reads : (running.access .forRead (running.bitOperand lock 0).byte).Succeeds
      running.translation memory index real := updates.fewer nofun (fun _ => rfl) nofun
  refine ⟨_, running.translation.marked memory index .forRead, rfl,
    fun reading load shares => ?_, fun setting store shares bit => ?_⟩
  · rw [ending_loadBit (shares.succeeds reads), shares.operand, shares.tables.marked_eq]
    dsimp only
    rw [byteAt_marked _ apart, byteAt_marked _ apart]
  · have again := reads.marked index .forRead
    have writes : (running.access .forWrite (running.bitOperand lock 0).byte).Succeeds
        running.translation _ index real :=
      ((updates.marked index .forRead).marked index .forRead).fewer nofun nofun fun _ => rfl
    rw [← shares.tables.marked_eq _ index .forRead] at writes
    rw [ending_storeBit (shares.succeeds again) (shares.succeeds writes), bit, shares.operand]
    dsimp only
    -- The mark of the load is made only once, and with that of the store it is that of an update.
    rw [shares.tables.marked_eq, shares.tables.marked_eq,
      running.translation.marked_again memory index .forRead .forRead .forRead rfl,
      running.translation.marked_again memory index .forRead .forWrite .forUpdate rfl,
      byteAt_marked _ apart, withBitAt, byteAt_marked _ apart]

end

end Mainframe
