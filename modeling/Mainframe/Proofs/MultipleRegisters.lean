import Mainframe.Proofs.BlockCopies

/-! Ranges of registers that are stored and loaded. Their words lie one after another, those of the
address registers first. What the registers were when they were stored is what they are when they
have been loaded again, whatever they have held in between. -/

set_option autoImplicit false

namespace Mainframe

variable {μ : Type}

/-! ## Ranges -/

namespace RegisterRanges

theorem ofWord_congr {word other : Word} (same : word.setWidth 16 = other.setWidth 16) :
    ofWord word = ofWord other := by
  have digit (start : Nat) (inside : start + 4 ≤ 16) :
      word.extractLsb' start 4 = other.extractLsb' start 4 := by
    rw [← BitVec.extractLsb'_setWidth_of_le inside, same, BitVec.extractLsb'_setWidth_of_le inside]
  unfold ofWord
  rw [digit 12 (by decide), digit 8 (by decide), digit 4 (by decide), digit 0 (by decide)]

theorem length_contents (ranges : RegisterRanges) (processor : Processor) :
    (ranges.contents processor).length = ranges.size := by
  simp [contents, size]

end RegisterRanges

namespace Processor

variable (processor : Processor)

theorem restoreAddresses_append (floor : Nat) {numbers : List RegisterNumber} {words : List Word}
    (length : numbers.length = words.length) (rest : List Word) :
    processor.restoreAddresses floor numbers (words ++ rest) =
      processor.restoreAddresses floor numbers words := by
  -- A zip stops where the shorter list does.
  have pairs : (numbers ++ []).zip (words ++ rest) = numbers.zip words ++ [].zip rest :=
    List.zip_append length
  rw [List.append_nil, List.zip_nil_left, List.append_nil] at pairs
  unfold restoreAddresses
  rw [pairs]

theorem restore_eq (ranges : RegisterRanges) (words : List Word) :
    ∃ a x, ranges.restore processor words = { processor with a, x } := by
  obtain ⟨a, addresses⟩ := processor.restoreAddresses_eq processor.currentAddress.ring.toNat
    ranges.addresses words
  unfold RegisterRanges.restore
  rw [addresses]
  obtain ⟨x, same⟩ := Processor.restoreWords_eq { processor with a } ranges.words
    (words.drop ranges.addresses.length)
  exact ⟨a, x, same⟩

theorem registers_restore (ranges : RegisterRanges) (stored : Processor) (number : RegisterNumber) :
    let restored := ranges.restore processor (ranges.contents stored)
    restored.addressRegister number =
        (if number ∈ ranges.addresses then
          (stored.addressRegister number).ringAtLeast processor.currentAddress.ring.toNat
        else processor.addressRegister number) ∧
      restored.wordRegister number =
        if number ∈ ranges.words then stored.wordRegister number
        else processor.wordRegister number := by
  have addresses : (ranges.addresses.map fun number =>
      (stored.addressRegister number).toWord).map VirtualAddress.ofWord =
        ranges.addresses.map stored.addressRegister := by
    rw [List.map_map]
    exact List.map_congr_left fun number _ => VirtualAddress.ofWord_toWord _
  have length : ranges.addresses.length = (ranges.addresses.map fun number =>
    (stored.addressRegister number).toWord).length := (List.length_map _).symm
  intro restored
  unfold restored RegisterRanges.restore RegisterRanges.contents
  rw [restoreAddresses_append _ _ length, List.drop_left' length.symm]
  constructor
  · rw [addressRegister_restoreWords, addressRegister_restoreAddresses _ _ addresses]
  · rw [wordRegister_restoreWords, wordRegister_restoreAddresses]

end Processor

namespace Execution

variable [Bus μ] [SlottedBus μ] {processor after : Processor} {memory kept : μ}
  {instruction : Instruction}

theorem execute_storage {operation : Storage}
    (assigned : Operation.ofOpcode instruction.opcode = some (.storage operation)) :
    execute instruction = storage operation instruction := by
  unfold execute
  rw [assigned]
  rfl

theorem loadWords_eq {known words : List Word} {address : VirtualAddress} {left : Processor}
    (stored : processor.translation.wordsAt memory known.length address = some known)
    (secluded : processor.translation.Secludes memory known.length address)
    (ended : (loadWords known.length address).ending processor memory =
      ((.ok words, left), kept)) : words = known := by
  refine List.ext_getElem (length_loadWords ended) fun index inside there => ?_
  exact loadWords_known stored secluded ended (List.getElem?_eq_getElem inside)
    (List.getElem?_eq_getElem there)

theorem storeMultiple_ok {places : List Address}
    (mapped : processor.translation.areaPlaces memory
      (RegisterRanges.ofWord (processor.wordRegister instruction.k)).size
      (processor.displacedOperand instruction) = some places)
    (apart : Apart (processor.translation.tableSlots memory) memory places)
    (ended : (storeMultiple instruction).ending processor memory = ((.ok (), after), kept)) :
    after = processor ∧ Stored (processor.translation.entrySlots memory) memory places
      (((RegisterRanges.ofWord (processor.wordRegister instruction.k)).contents
        processor).flatMap Word.toBytes) kept := by
  rw [storeMultiple, ending, course_get] at ended
  obtain ⟨top, last, storing, settled⟩ := (storeWords_stores _ _ _ _).of_bind_ok ended
  cases settled
  rw [← RegisterRanges.length_contents _ processor] at mapped
  exact ⟨rfl, storeWords_exact mapped apart storing⟩

theorem loadMultiple_ok {ranges : RegisterRanges} {stored : Processor}
    (named : RegisterRanges.ofWord (processor.wordRegister instruction.k) = ranges)
    (holds : processor.translation.wordsAt memory ranges.size
      (processor.displacedOperand instruction) = some (ranges.contents stored))
    (secluded : processor.translation.Secludes memory ranges.size
      (processor.displacedOperand instruction))
    (ended : (loadMultiple instruction).ending processor memory = ((.ok (), after), kept)) :
    after = ranges.restore processor (ranges.contents stored) := by
  rw [loadMultiple, ending, course_get, named] at ended
  -- No register changes before all words have been loaded.
  obtain ⟨words, last, loading, settled⟩ := (loadWords_inspects _ _ _ _).of_bind_ok ended
  rw [← ranges.length_contents stored] at holds secluded loading
  rw [loadWords_eq holds secluded loading] at settled
  cases settled
  rfl

end Execution

/-! ## Steps -/

def Processor.namedRanges (processor : Processor) (instruction : Instruction) : RegisterRanges :=
  .ofWord (processor.wordRegister instruction.k)

section

variable [Bus μ] [SlottedBus μ]

/-- The registers of both ranges have been stored, and nothing else has changed, but for marks of
use in entries of the page table. -/
structure StoresRanges (before : Processor) (memory : μ) (instruction : Instruction)
    (after : Processor) (kept : μ) : Prop where
  stored : ∃ places,
    before.translation.areaPlaces memory (before.namedRanges instruction).size
      (before.displacedOperand instruction) = some places ∧
    Stored (before.translation.entrySlots memory) memory places
      (((before.namedRanges instruction).contents before).flatMap Word.toBytes) kept
  words : before.translation.wordsAt kept (before.namedRanges instruction).size
    (before.displacedOperand instruction) = some ((before.namedRanges instruction).contents before)
  advances : before.Advances instruction after

/-- A load names the ranges that a store has named, and takes them from words that are still as they
were stored, outside the tables. The registers may have changed in any way, those that lead to the
ranges and to the words among them. -/
structure KeepsRanges (before : Processor) (store : Instruction) (kept : μ) (later : Processor)
    (load : Instruction) (present : μ) : Prop where
  descriptor : (later.wordRegister load.k).setWidth 16 =
    (before.wordRegister store.k).setWidth 16
  words : later.translation.wordsAt present (before.namedRanges store).size
      (later.displacedOperand load) =
    before.translation.wordsAt kept (before.namedRanges store).size (before.displacedOperand store)
  secluded : later.translation.Secludes present (before.namedRanges store).size
    (later.displacedOperand load)

end

/-- The ranges are as they were when they were stored, but with rings of at least that of the load.
No other register has changed. -/
structure LoadsRanges (before : Processor) (store : Instruction) (later : Processor)
    (load : Instruction) (loaded : Processor) : Prop where
  addresses : ∀ number, loaded.addressRegister number =
    if (before.wordRegister store.k).extractLsb' 12 4 ≤ number ∧
        number ≤ (before.wordRegister store.k).extractLsb' 8 4 then
      (before.addressRegister number).ringAtLeast later.p.ring.toNat
    else later.addressRegister number
  words : ∀ number, loaded.wordRegister number =
    if (before.wordRegister store.k).extractLsb' 4 4 ≤ number ∧
        number ≤ (before.wordRegister store.k).extractLsb' 0 4 then before.wordRegister number
    else later.wordRegister number
  advances : ∃ a x, ({ later with a, x } : Processor).Advances load loaded

section

variable [Bus μ] [SlottedBus μ] {before running after later loaded : Processor}
  {memory middle kept present final : μ} {instruction store load : Instruction}

theorem Runs.areaPlaces_eq {count : Nat} {address : VirtualAddress}
    (runs : Runs before memory instruction running middle) :
    running.translation.areaPlaces middle count address =
      before.translation.areaPlaces memory count address := by
  obtain ⟨left, alike, same⟩ := runs.alike
  rw [same, alike.areaPlaces_eq, before.translation.areaPlaces_stored runs.keeps.inTables]

theorem CarriesOut.storesRanges (carries : CarriesOut before memory instruction after kept)
    (assigned : Operation.ofOpcode instruction.opcode = some (.storage .storeMultiple))
    (apart : before.translation.SetsApart memory (before.namedRanges instruction).size
      (before.displacedOperand instruction)) :
    StoresRanges before memory instruction after kept := by
  obtain ⟨running, middle, left, runs, ending, rfl⟩ := carries
  obtain ⟨places, mapped, apart⟩ := apart
  rw [Execution.execute_storage assigned, Execution.storage] at ending
  have placed := runs.areaPlaces_eq.trans mapped
  have outside := runs.apart apart
  have advances := runs.advances
  obtain ⟨_, _, rfl⟩ := runs.begun
  obtain ⟨rfl, stored⟩ := Execution.storeMultiple_ok placed outside ending
  have stored := runs.stored apart stored
  refine ⟨⟨places, mapped, stored⟩, ?_, advances⟩
  have widened := stored.widen (fun _ => before.translation.tableSlots_of_entrySlots) apart.outside
  have length := RegisterRanges.length_contents (before.namedRanges instruction) before
  rw [← length] at mapped ⊢
  exact widened.wordsAt_eq mapped

omit [SlottedBus μ] in
theorem Runs.loadsRanges {store load : Instruction} {stored : Processor}
    (runs : Runs before memory load running middle) :
    LoadsRanges stored store before load (((stored.namedRanges store).restore running
      ((stored.namedRanges store).contents stored)).commit true) := by
  have registers := running.registers_restore (stored.namedRanges store) stored
  obtain ⟨a, x, restored⟩ := running.restore_eq (stored.namedRanges store)
    ((stored.namedRanges store).contents stored)
  obtain ⟨_, _, rfl⟩ := runs.begun
  refine ⟨fun number => ?_, fun number => ?_, a, x, ?_⟩
  · exact (registers number).1.trans (if_congr mem_registersBetween rfl rfl)
  · exact (registers number).2.trans (if_congr mem_registersBetween rfl rfl)
  · rw [restored]
    exact ⟨_, _, _, _, _, _, _, _, rfl⟩

/-- The ranges are read from Xk before any register is loaded. -/
theorem CarriesOut.loadsRanges (carries : CarriesOut later present load loaded final)
    (assigned : Operation.ofOpcode load.opcode = some (.storage .loadMultiple))
    (stores : StoresRanges before memory store after kept)
    (keeps : KeepsRanges before store kept later load present) :
    LoadsRanges before store later load loaded := by
  obtain ⟨running, middle, left, runs, ending, rfl⟩ := carries
  rw [Execution.execute_storage assigned, Execution.storage] at ending
  obtain ⟨holds, secluded⟩ := runs.wordsAt_eq keeps.secluded
  rw [keeps.words, stores.words] at holds
  have named : RegisterRanges.ofWord (running.wordRegister load.k) = before.namedRanges store := by
    obtain ⟨_, _, rfl⟩ := runs.begun
    exact RegisterRanges.ofWord_congr keeps.descriptor
  have operand : later.displacedOperand load = running.displacedOperand load := by
    obtain ⟨_, _, rfl⟩ := runs.begun
    rfl
  rw [operand] at holds secluded
  obtain rfl := Execution.loadMultiple_ok named holds secluded ending
  exact runs.loadsRanges

/-- Ranges that are stored are in memory one after the other, and come back when they are loaded,
with no register besides. -/
theorem ranges_restored (carries : CarriesOut before memory store after kept)
    (opcode : store.opcode = 0x81)
    (apart : before.translation.SetsApart memory (before.namedRanges store).size
      (before.displacedOperand store)) :
    StoresRanges before memory store after kept ∧
      ∀ later (present : μ) load loaded final, load.opcode = 0x80 →
        KeepsRanges before store kept later load present →
        CarriesOut later present load loaded final → LoadsRanges before store later load loaded := by
  have assigned : Operation.ofOpcode store.opcode = some (.storage .storeMultiple) := by
    rw [opcode]
    rfl
  have stores := carries.storesRanges assigned apart
  refine ⟨stores, fun later present load loaded final opcode keeps loads => ?_⟩
  have assigned : Operation.ofOpcode load.opcode = some (.storage .loadMultiple) := by
    rw [opcode]
    rfl
  exact loads.loadsRanges assigned stores keeps

end

/-! A job that stores A0 to A2 and X0 to X3. The first word lies in two pages, and the registers
that lead to the ranges are among them. Other registers lead to them when they are loaded. -/

def storingRanges : Instruction := .decode .jkQ 0x8112 0x0001

def loadingRanges : Instruction := .decode .jkQ 0x8045 0x0001

def storingMemory : CyclicMemory :=
  ⟨4096, movingMemory.store.set 1024 0x8112000180450001⟩

def storingJob : Processor :=
  { (movingJob 0x1F4 0).withAddressRegister 0 ⟨3, 7, 0x765⟩ with
    x := (Vector.replicate 16 6).set 2 0xFF00000000000203 }

def loadingJob : Processor :=
  { (storingJob.withAddressRegister 1 ⟨12, 5, 0x321⟩).withAddressRegister 4 ⟨11, 0, 0x1F4⟩ with
    p := ⟨11, 0, 4⟩
    x := (Vector.replicate 16 9).set 5 0x0203 }

/-- A0 has the ring of the job when it is loaded, not the lower one that it was stored with. -/
theorem job_restored :
    let stored := (Routine.stepNative.run storingJob).perform storingMemory
    let loaded := (Routine.stepNative.run loadingJob).perform stored.2
    StoresRanges storingJob storingMemory storingRanges stored.1.2 stored.2 ∧
      LoadsRanges storingJob storingRanges loadingJob loadingRanges loaded.1.2 ∧
      loaded.1.2.addressRegister 0 = ⟨11, 7, 0x765⟩ ∧
      loaded.1.2.wordRegister 2 = 0xFF00000000000203 ∧ loaded.1.2.wordRegister 4 = 9 := by
  have stores : CarriesOut storingJob storingMemory storingRanges _ _ :=
    .of_completed (by decide +kernel) (by decide +kernel)
  have loads : CarriesOut loadingJob
      ((Routine.stepNative.run storingJob).perform storingMemory).2 loadingRanges _ _ :=
    .of_completed (by decide +kernel) (by decide +kernel)
  have apart : storingJob.translation.SetsApart storingMemory
      (storingJob.namedRanges storingRanges).size (storingJob.displacedOperand storingRanges) :=
    ⟨run 4 0x21FC ++ run 52 0x4000, by decide +kernel,
      Routine.smallJob_apart _ (by decide +kernel) (by decide +kernel)⟩
  have still : storingJob.translation.SetsApart
      ((Routine.stepNative.run storingJob).perform storingMemory).2
      (storingJob.namedRanges storingRanges).size (storingJob.displacedOperand storingRanges) :=
    .of_above 1024 (show _ = some (run 4 0x21FC ++ run 52 0x4000) by decide +kernel)
      (by decide +kernel) (by decide +kernel) (by decide +kernel) (by decide +kernel)
  obtain ⟨stored, restores⟩ := ranges_restored stores rfl apart
  have keeps : KeepsRanges storingJob storingRanges
      ((Routine.stepNative.run storingJob).perform storingMemory).2 loadingJob loadingRanges
      ((Routine.stepNative.run storingJob).perform storingMemory).2 :=
    ⟨by decide +kernel, rfl, still.secludes⟩
  exact ⟨stored, restores _ _ _ _ _ rfl keeps loads, by decide +kernel, by decide +kernel,
    by decide +kernel⟩

end Mainframe
