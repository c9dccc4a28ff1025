import Mainframe.Proofs.BitOperations
import Mainframe.Proofs.MultipleRegisters

/-! Memory as an array of bits. Where every page has a frame of its own, an instruction that stores
a bit changes the array at one address, and one that loads a bit finds what was last stored there.
To set a bit with the memory locked is to load it and to store a one. -/

set_option autoImplicit false

namespace Mainframe

variable {μ : Type}

/-! ## Actions -/

inductive BitAction where
  | load
  | store (bit : Bool)
  | set
  deriving DecidableEq

namespace BitAction

def stored : BitAction → Option Bool
  | .load => none
  | .store bit => some bit
  | .set => some true

def reports : BitAction → Bool
  | .store _ => false
  | .load | .set => true

def report (action : BitAction) (found : Bool) (number : RegisterNumber)
    (processor : Processor) : Processor :=
  if action.reports then processor.withWordRegister number (if found then 1 else 0) else processor

/-- What the action makes of a memory, in the byte at a real address. -/
def leave [Bus μ] (action : BitAction) (memory : μ) (real : Address) (place : Fin 8) : μ :=
  match action.stored with
  | none => memory
  | some bit => withBitAt memory real place bit

end BitAction

namespace Processor

variable (processor : Processor) (instruction : Instruction)

/-- What the instruction does with a bit, if it is one that does anything with one. The bit that is
stored is the last one of Xk. -/
def bitAction : Option BitAction :=
  match Operation.ofOpcode instruction.opcode with
  | some (.storage .loadBit) => some .load
  | some (.storage .storeBit) => some (.store ((processor.wordRegister instruction.k).getLsbD 0))
  | some (.storage .lockBit) => some .set
  | _ => none

/-- An instruction that sets a bit has no displacement. -/
def actedOperand : BitOperand :=
  match Operation.ofOpcode instruction.opcode with
  | some (.storage .lockBit) => processor.bitOperand instruction 0
  | _ => processor.bitOperand instruction instruction.signedQ

def actedBit : BitAddress :=
  match Operation.ofOpcode instruction.opcode with
  | some (.storage .lockBit) => processor.bitAddress instruction 0
  | _ => processor.bitAddress instruction instruction.signedQ

theorem address_actedOperand :
    (processor.actedOperand instruction).address = processor.actedBit instruction := by
  unfold actedOperand actedBit
  split <;> exact processor.bitOperand_address instruction _

end Processor

namespace Execution

section

variable [Bus μ] [SlottedBus μ] [ForgetfulBus μ] [LawfulBus μ] {running left : Processor}
  {middle kept : μ} {instruction : Instruction} {action : BitAction}

theorem execute_bit (acts : running.bitAction instruction = some action)
    (spares : running.translation.SparesByte middle (running.actedOperand instruction).byte)
    (ended : (execute instruction).ending running middle = ((.ok (), left), kept)) :
    let place := (running.actedOperand instruction).place
    ∃ real marked,
      running.translation.placeAt middle (running.actedOperand instruction).byte = some real ∧
      Keeps (running.translation.entrySlots middle) middle marked ∧
      left = action.report (byteBit (byteAt middle real) place) instruction.k running ∧
      kept = action.leave marked real place := by
  unfold Processor.bitAction at acts
  unfold Processor.actedOperand at spares ⊢
  split at acts
  · next operation =>
    cases acts
    rw [execute_storage operation] at ended
    rw [operation] at spares ⊢
    obtain ⟨index, real, reads⟩ := succeeds_of_loadBit ended
    cases (ending_loadBit reads).symm.trans ended
    refine ⟨real, _, reads.placeAt_eq, reads.keeps .forRead, ?_, rfl⟩
    rw [byteAt_marked _ (reads.apart spares)]
    rfl
  · next operation =>
    cases acts
    rw [execute_storage operation] at ended
    rw [operation] at spares ⊢
    obtain ⟨index, real, reads, writes⟩ := succeeds_of_storeBit ended
    cases (ending_storeBit reads writes).symm.trans ended
    refine ⟨real, _, reads.placeAt_eq, (reads.keeps .forRead).then_marks (writes.keeps .forWrite),
      rfl, ?_⟩
    -- The byte that is stored was loaded before the mark of the store was made.
    have apart := reads.apart spares
    rw [← running.translation.slot_marked middle index .forRead,
      ← running.translation.slot_marked middle index .forRead] at apart
    unfold BitAction.leave BitAction.stored withBitAt
    rw [byteAt_marked .forWrite apart]
  · next operation =>
    cases acts
    rw [execute_storage operation] at ended
    rw [operation] at spares ⊢
    obtain ⟨index, real, updates⟩ := succeeds_of_lockBit ended
    cases (ending_lockBit_byte updates).symm.trans ended
    refine ⟨real, _, updates.placeAt_eq, updates.keeps .forUpdate, ?_, rfl⟩
    rw [byteAt_marked _ (updates.apart spares)]
    rfl
  · cases acts

end

end Execution

/-! ## Steps -/

section

variable [Bus μ] [SlottedBus μ]

/-- A bit has been stored where an action stores one, and nothing else has changed but for marks of
use in entries of the page table. -/
def BitAction.Leaves (action : BitAction) (unit : TranslationUnit) (memory : μ) (bit : BitAddress)
    (kept : μ) : Prop :=
  match action.stored with
  | none => Keeps (unit.entrySlots memory) memory kept
  | some value => ∃ real, unit.placeAt memory bit.byte = some real ∧
      Stored (unit.entrySlots memory) memory [real]
        [withByteBit (byteAt memory real) bit.place value] kept

structure BitAction.Performs (action : BitAction) (before : Processor) (memory : μ)
    (instruction : Instruction) (after : Processor) (kept : μ) : Prop where
  found : ∃ found, before.translation.bitAt memory (before.actedBit instruction) = some found ∧
    (action.report found instruction.k before).Advances instruction after
  leaves : action.Leaves before.translation memory (before.actedBit instruction) kept
  bits : ∀ other, before.translation.bitAt kept other =
    (if before.translation.systemBit memory other =
        before.translation.systemBit memory (before.actedBit instruction)
      then action.stored else none).or (before.translation.bitAt memory other)

variable {unit : TranslationUnit} {memory middle marked kept : μ} {bit : BitAddress}
  {real : Address} {action : BitAction}

theorem TranslationUnit.OwnFrames.apart_singleton (own : unit.OwnFrames memory)
    {address : VirtualAddress} (placed : unit.placeAt memory address = some real) :
    Apart (unit.tableSlots memory) memory [real] where
  exist place member := by
    rw [List.mem_singleton.mp member]
    exact own.exist placed
  outside place member := by
    rw [List.mem_singleton.mp member]
    exact own.outside placed
  distinct := List.nodup_singleton _

namespace BitAction.Leaves

/-- What is left outside the page table is as if the marks had been made after it. -/
theorem of_marked (keeps : Keeps (unit.entrySlots memory) memory marked)
    (own : unit.OwnFrames memory) (placed : unit.placeAt memory bit.byte = some real) :
    action.Leaves unit memory bit (action.leave marked real bit.place) := by
  unfold Leaves leave
  cases action.stored with
  | none => exact keeps
  | some value =>
    have apart := (own.apart_singleton placed).narrow fun _ => unit.tableSlots_of_entrySlots
    have byte : byteAt marked real = byteAt memory real :=
      keeps.byteAt_eq (apart.outside real List.mem_cons_self)
    refine ⟨real, placed, keeps.then_stored apart ?_⟩
    rw [← byte]
    exact .writeByte (apart.of_slots keeps.slots) _

theorem stored (leaves : action.Leaves unit memory bit kept) (own : unit.OwnFrames memory) :
    ∃ places bytes, Stored (unit.tableSlots memory) memory places bytes kept := by
  unfold Leaves at leaves
  split at leaves
  · exact ⟨[], [], leaves.inTables⟩
  · obtain ⟨real, placed, stored⟩ := leaves
    exact ⟨_, _, stored.widen (fun _ => unit.tableSlots_of_entrySlots)
      (own.apart_singleton placed).outside⟩

theorem bitAt_eq (leaves : action.Leaves unit memory bit kept) (own : unit.OwnFrames memory)
    (other : BitAddress) :
    unit.bitAt kept other =
      (if unit.systemBit memory other = unit.systemBit memory bit then action.stored
        else none).or (unit.bitAt memory other) := by
  unfold Leaves at leaves
  split at leaves
  · next none =>
    rw [none, ite_self, Option.none_or, own.bitAt_keeps leaves.inTables]
  · next value some =>
    obtain ⟨real, placed, stored⟩ := leaves
    rw [some]
    exact own.bitAt_stored placed (stored.widen (fun _ => unit.tableSlots_of_entrySlots)
      (own.apart_singleton placed).outside) other

end BitAction.Leaves

variable {before running after : Processor} {instruction : Instruction}

omit [SlottedBus μ] in
theorem Runs.sharesTables (runs : Runs before memory instruction running middle) :
    before.translation.SharesTables running.translation := by
  obtain ⟨_, _, rfl⟩ := runs.begun
  exact ⟨_, _, rfl⟩

omit [SlottedBus μ] in
theorem Runs.acted_eq (runs : Runs before memory instruction running middle) :
    running.actedOperand instruction = before.actedOperand instruction ∧
      running.bitAction instruction = before.bitAction instruction := by
  obtain ⟨_, _, rfl⟩ := runs.begun
  exact ⟨rfl, rfl⟩

omit [SlottedBus μ] in
theorem Runs.reports (runs : Runs before memory instruction running middle) (action : BitAction)
    (found : Bool) :
    (action.report found instruction.k before).Advances instruction
      ((action.report found instruction.k running).commit true) := by
  obtain ⟨_, _, rfl⟩ := runs.begun
  cases action <;> exact ⟨_, _, _, _, _, _, _, _, rfl⟩

/-- A step that completes an instruction on a bit has done with the bit what it is to do, and
nothing else. -/
theorem CarriesOut.performs [ForgetfulBus μ] [LawfulBus μ]
    (carries : CarriesOut before memory instruction after kept)
    (acts : before.bitAction instruction = some action)
    (own : before.translation.OwnFrames memory) :
    action.Performs before memory instruction after kept := by
  obtain ⟨running, middle, left, runs, ending, rfl⟩ := carries
  obtain ⟨operand, same⟩ := runs.acted_eq
  have shares := runs.sharesTables
  have frames := shares.ownFrames (own.of_stored runs.keeps.inTables)
  -- The byte is in a frame, and no frame holds a table.
  have spares : running.translation.SparesByte middle (running.actedOperand instruction).byte :=
    fun real placed within => frames.outside placed (.inr within)
  obtain ⟨real, marked, placed, keeps, rfl, rfl⟩ :=
    Execution.execute_bit (same.trans acts) spares ending
  have byte : (before.actedBit instruction).byte =
      (before.actedOperand instruction).byte.withRing 0 := by
    rw [← Processor.address_actedOperand, BitOperand.byte_address]
  have place : (before.actedOperand instruction).place = (before.actedBit instruction).place := by
    rw [← Processor.address_actedOperand, BitOperand.place_address]
  -- Fetching has marked pages at most, so the place is the same before the step.
  have placed :
      before.translation.placeAt memory (before.actedBit instruction).byte = some real := by
    rw [shares.placeAt_eq, TranslationUnit.placeAt_stored runs.keeps.inTables, operand] at placed
    rw [byte]
    exact placed
  rw [operand, place]
  have leaves : action.Leaves before.translation memory (before.actedBit instruction)
      (action.leave marked real (before.actedBit instruction).place) :=
    .of_marked (runs.then_keeps keeps) own placed
  refine ⟨⟨_, ?_, runs.reports action _⟩, leaves, leaves.bitAt_eq own⟩
  rw [TranslationUnit.bitAt, placed, runs.keeps.inTables.byteAt_eq (own.outside placed)]
  rfl

end

/-! ## Runs -/

structure BitTurn where
  before : Processor
  instruction : Instruction
  action : BitAction
  after : Processor

namespace BitTurn

def bit (turn : BitTurn) : BitAddress := turn.before.actedBit turn.instruction

def reported (turn : BitTurn) : Word := turn.after.wordRegister turn.instruction.k

section

variable (names : BitAddress → SystemBit)

def stores (turn : BitTurn) (bit : BitAddress) : Option Bool :=
  if names bit = names turn.bit then turn.action.stored else none

def lastStored : List BitTurn → BitAddress → Option Bool
  | [], _ => none
  | turn :: rest, bit => (lastStored rest bit).or (turn.stores names bit)

variable {names} {turn : BitTurn} {earlier later turns : List BitTurn} {bit : BitAddress}

theorem lastStored_append :
    lastStored names (earlier ++ later) bit =
      (lastStored names later bit).or (lastStored names earlier bit) := by
  induction earlier with
  | nil => rw [List.nil_append, lastStored, Option.or_none]
  | cons turn rest ih => rw [List.cons_append, lastStored, ih, lastStored, Option.or_assoc]

theorem lastStored_eq_none (others : ∀ turn ∈ turns, turn.stores names bit = none) :
    lastStored names turns bit = none := by
  induction turns with
  | nil => rfl
  | cons turn rest ih =>
    obtain ⟨here, there⟩ := List.forall_mem_cons.mp others
    rw [lastStored, ih there, here]
    rfl

theorem lastStored_of_stores {value : Bool} (stores : turn.stores names bit = some value)
    (others : ∀ other ∈ later, other.stores names bit = none) :
    lastStored names (earlier ++ turn :: later) bit = some value := by
  rw [lastStored_append, lastStored, lastStored_eq_none others, stores]
  rfl

end

end BitTurn

section

variable [Bus μ] [SlottedBus μ]

/-- Processors that share the tables of a unit take turns with instructions on bits. In between they
may leave marks in entries of the page table. -/
inductive BitRun (unit : TranslationUnit) : μ → List BitTurn → μ → Prop where
  | done (memory : μ) : BitRun unit memory [] memory
  | marks {memory kept last : μ} {turns : List BitTurn}
    (keeps : Keeps (unit.entrySlots memory) memory kept) (run : BitRun unit kept turns last) :
    BitRun unit memory turns last
  | next {memory kept last : μ} {turn : BitTurn} {rest : List BitTurn}
    (shares : unit.SharesTables turn.before.translation)
    (acts : turn.before.bitAction turn.instruction = some turn.action)
    (carries : CarriesOut turn.before memory turn.instruction turn.after kept)
    (run : BitRun unit kept rest last) : BitRun unit memory (turn :: rest) last

variable {unit other : TranslationUnit} {memory kept last : μ} {bit : BitAddress}
  {action : BitAction} {turn : BitTurn} {turns earlier later : List BitTurn}

theorem BitAction.Leaves.of_shares (shares : unit.SharesTables other)
    (leaves : action.Leaves other memory bit kept) : action.Leaves unit memory bit kept := by
  unfold BitAction.Leaves at leaves ⊢
  rwa [shares.entrySlots_eq, shares.placeAt_eq] at leaves

/-- What a run makes of the array of bits. The frames stay, and so does what the addresses stand
for. -/
theorem BitRun.bitAt_last [ForgetfulBus μ] [LawfulBus μ] (run : BitRun unit memory turns last)
    (own : unit.OwnFrames memory) :
    unit.OwnFrames last ∧ unit.systemBit last = unit.systemBit memory ∧
      ∀ bit, unit.bitAt last bit =
        (BitTurn.lastStored (unit.systemBit memory) turns bit).or (unit.bitAt memory bit) := by
  induction run with
  | done memory => exact ⟨own, rfl, fun _ => rfl⟩
  | marks keeps run ih =>
    obtain ⟨frames, names, bits⟩ := ih (own.of_stored keeps.inTables)
    rw [TranslationUnit.systemBit_stored keeps.inTables] at names bits
    rw [own.bitAt_keeps keeps.inTables] at bits
    exact ⟨frames, names, bits⟩
  | next shares acts carries run ih =>
    have leaves := (carries.performs acts (shares.ownFrames own)).leaves.of_shares shares
    obtain ⟨_, _, stored⟩ := leaves.stored own
    obtain ⟨frames, names, bits⟩ := ih (own.of_stored stored)
    rw [TranslationUnit.systemBit_stored stored] at names bits
    refine ⟨frames, names, fun bit => ?_⟩
    rw [bits, leaves.bitAt_eq own, BitTurn.lastStored, Option.or_assoc]
    rfl

theorem BitRun.split (run : BitRun unit memory (earlier ++ turn :: later) last) :
    ∃ middle kept, BitRun unit memory earlier middle ∧
      unit.SharesTables turn.before.translation ∧
      turn.before.bitAction turn.instruction = some turn.action ∧
      CarriesOut turn.before middle turn.instruction turn.after kept := by
  generalize same : earlier ++ turn :: later = turns at run
  induction run generalizing earlier with
  | done memory => simp at same
  | marks keeps run ih =>
    obtain ⟨middle, kept, before, rest⟩ := ih same
    exact ⟨middle, kept, .marks keeps before, rest⟩
  | next shares acts carries run ih =>
    cases earlier with
    | nil =>
      obtain ⟨rfl, rfl⟩ := List.cons.inj same
      exact ⟨_, _, .done _, shares, acts, carries⟩
    | cons first rest =>
      obtain ⟨rfl, tail⟩ := List.cons.inj same
      obtain ⟨middle, kept, before, rest⟩ := ih tail
      exact ⟨middle, kept, .next shares acts carries before, rest⟩

theorem BitRun.reported [ForgetfulBus μ] [LawfulBus μ]
    (run : BitRun unit memory (earlier ++ turn :: later) last) (own : unit.OwnFrames memory)
    (reports : turn.action.reports = true) :
    ∃ found, (BitTurn.lastStored (unit.systemBit memory) earlier turn.bit).or
        (unit.bitAt memory turn.bit) = some found ∧
      turn.reported = if found then 1 else 0 := by
  obtain ⟨middle, kept, before, shares, acts, carries⟩ := run.split
  obtain ⟨frames, -, bits⟩ := before.bitAt_last own
  obtain ⟨found, there, advances⟩ := (carries.performs acts (shares.ownFrames frames)).found
  refine ⟨found, ?_, ?_⟩
  · rw [← bits, ← shares.bitAt_eq]
    exact there
  · unfold BitTurn.reported
    rw [advances.registers.2, BitAction.report, if_pos reports,
      Processor.wordRegister_withWordRegister, if_pos rfl]

/-- What a run of instructions on bits comes to. -/
structure TranslationUnit.RemembersBits (unit : TranslationUnit) (memory : μ) (turns : List BitTurn)
    (last : μ) : Prop where
  last : ∀ bit, unit.bitAt last bit =
    (BitTurn.lastStored (unit.systemBit memory) turns bit).or (unit.bitAt memory bit)
  stored : ∀ earlier store between load later value,
    turns = earlier ++ store :: between ++ load :: later →
      store.stores (unit.systemBit memory) load.bit = some value →
      (∀ other ∈ between, other.stores (unit.systemBit memory) load.bit = none) →
      load.action.reports = true → load.reported = if value then 1 else 0
  untouched : ∀ earlier load later, turns = earlier ++ load :: later →
    (∀ other ∈ earlier, other.stores (unit.systemBit memory) load.bit = none) →
      load.action.reports = true →
      ∃ found, unit.bitAt memory load.bit = some found ∧ load.reported = if found then 1 else 0

theorem BitRun.remembers [ForgetfulBus μ] [LawfulBus μ] (run : BitRun unit memory turns last)
    (own : unit.OwnFrames memory) : unit.RemembersBits memory turns last where
  last := (run.bitAt_last own).2.2
  stored := by
    rintro earlier store between load later value rfl stores others reports
    obtain ⟨found, same, reported⟩ := run.reported own reports
    rw [BitTurn.lastStored_of_stores stores others] at same
    cases same
    exact reported
  untouched := by
    rintro earlier load later rfl others reports
    obtain ⟨found, same, reported⟩ := run.reported own reports
    rw [BitTurn.lastStored_eq_none others] at same
    exact ⟨found, same, reported⟩

/-! ## Bits in frames of their own -/

/-- What instructions on bits do. Each of them does its action with its bit, and nothing else. The
bits that are found are those last stored. An instruction that sets a bit reports and leaves what a
load of the bit, and after it a store of a one there, report and leave. -/
structure TranslationUnit.HoldsBits (unit : TranslationUnit) (memory : μ) : Prop where
  performs : ∀ before instruction action after (kept : μ),
    unit.SharesTables before.translation → before.bitAction instruction = some action →
      CarriesOut before memory instruction after kept →
        action.Performs before memory instruction after kept
  remembers : ∀ turns (last : μ), BitRun unit memory turns last →
    unit.RemembersBits memory turns last
  splits : ∀ before lock running left (middle kept : μ), unit.SharesTables before.translation →
    Operation.ofOpcode lock.opcode = some (.storage .lockBit) →
      Runs before memory lock running middle →
        (Execution.execute lock).ending running middle = ((.ok (), left), kept) →
          ∃ word read, left = running.withWordRegister lock.k word ∧
            (∀ reading load, Operation.ofOpcode load.opcode = some (.storage .loadBit) →
              running.SharesBit lock reading load →
                (Execution.execute load).ending reading middle =
                  ((.ok (), reading.withWordRegister load.k word), read)) ∧
            ∀ setting store, Operation.ofOpcode store.opcode = some (.storage .storeBit) →
              running.SharesBit lock setting store →
                (setting.wordRegister store.k).getLsbD 0 = true →
                  (Execution.execute store).ending setting read = ((.ok (), setting), kept)

/-- Where every page has a frame of its own, memory is an array of bits. -/
theorem TranslationUnit.OwnFrames.holdsBits [ForgetfulBus μ] [LawfulBus μ]
    (own : unit.OwnFrames memory) : unit.HoldsBits memory where
  performs before instruction action after kept shares acts carries :=
    carries.performs acts (shares.ownFrames own)
  remembers turns last run := run.remembers own
  splits before lock running left middle kept shares operation runs ended := by
    have frames :=
      runs.sharesTables.ownFrames ((shares.ownFrames own).of_stored runs.keeps.inTables)
    have spares : running.translation.SparesByte middle (running.bitOperand lock 0).byte :=
      fun real placed within => frames.outside placed (.inr within)
    rw [Execution.execute_storage operation] at ended
    obtain ⟨word, read, reports, loads, stores⟩ := Execution.lockBit_splits spares ended
    refine ⟨word, read, reports, fun reading load loading shares => ?_,
      fun setting store storing shares bit => ?_⟩
    · rw [Execution.execute_storage loading]
      exact loads reading load shares
    · rw [Execution.execute_storage storing]
      exact stores setting store shares bit

end

/-! A job that stores a one in the third bit before its second page, sets it, and loads it. The
pages have frames that do not follow one another. -/

def bitMemory : CyclicMemory :=
  ⟨4096, (scatteredMemory.store.set 1024 0x8912000014138824).set 1025 0x0001000000000000⟩

def bitJob : Processor :=
  (((Routine.smallJob.withAddressRegister 1 ⟨11, 0, 0x200⟩).withAddressRegister 2
    ⟨11, 0, 0x1FF⟩).withWordRegister 0 0xFFFFFFFD).withWordRegister 2 1

theorem bitJob_entries {index : PageIndex} (within : bitJob.translation.InTable index)
    (valid : (bitJob.translation.entryAt bitMemory index).valid = true) :
    (bitJob.translation.entryAt bitMemory index).identifier = 0 ∧
        (bitJob.translation.entryAt bitMemory index).frameAddress = 0x2000 ∨
      (bitJob.translation.entryAt bitMemory index).identifier = 1 ∧
        (bitJob.translation.entryAt bitMemory index).frameAddress = 0x4000 := by
  have entries : ∀ index < 512,
      let entry := bitJob.translation.entryAt bitMemory (BitVec.ofNat 32 index)
      entry.valid = true → entry.identifier = 0 ∧ entry.frameAddress = 0x2000 ∨
        entry.identifier = 1 ∧ entry.frameAddress = 0x4000 := by decide +kernel
  have found := entries index.toNat within
  rw [BitVec.ofNat_toNat, BitVec.setWidth_eq] at found
  exact found valid

theorem bitJob_ownFrames : bitJob.translation.OwnFrames bitMemory := by
  have size : bitJob.translation.pageSize = 512 := rfl
  -- The two frames lie above all tables and below the size of the memory, where addresses select
  -- slots of their own.
  have bounds (real : Address) (framed : bitJob.translation.Frames bitMemory real) :
      0x2000 ≤ real.toNat ∧ real.toNat < 0x8000 := by
    obtain ⟨index, within, valid, above, below⟩ := framed
    rw [size] at below
    rcases bitJob_entries within valid with ⟨-, frame⟩ | ⟨-, frame⟩
    · rw [frame] at above below
      exact ⟨above, Nat.lt_trans below (by decide)⟩
    · rw [frame] at above below
      exact ⟨Nat.le_trans (by decide) above, Nat.lt_trans below (by decide)⟩
  have slots (real : Address) (framed : bitJob.translation.Frames bitMemory real) :
      SlottedBus.slot bitMemory real = some (wordIndex real) ∧ 1024 ≤ wordIndex real := by
    obtain ⟨above, below⟩ := bounds real framed
    rw [wordIndex_eq]
    refine ⟨congrArg some ?_, by omega⟩
    change wordIndex real % 4096 = _
    rw [wordIndex_eq]
    omega
  refine .of_entries (fun index within valid => ?_)
    (fun index other within inside valid holds same => ?_) (fun real framed => ?_)
    (fun real place framed again same => ?_)
  · rw [size]
    rcases bitJob_entries within valid with ⟨-, frame⟩ | ⟨-, frame⟩ <;> rw [frame] <;> decide
  · rcases bitJob_entries within valid with ⟨here, frame⟩ | ⟨here, frame⟩ <;>
      rcases bitJob_entries inside holds with ⟨there, place⟩ | ⟨there, place⟩ <;>
        rw [frame, place] at same
    · rw [here, there]
    · exact absurd same (by decide)
    · exact absurd same (by decide)
    · rw [here, there]
  · obtain ⟨slot, high⟩ := slots real framed
    rw [slot]
    refine ⟨nofun, fun tables => ?_⟩
    have low := TranslationUnit.holds_of_tableSlots bitJob.translation
      (fun slot => slot.any (· < 1024) = true) (by decide +kernel) (by decide +kernel) tables
    simp only [Option.any_some, decide_eq_true_eq] at low
    omega
  · rw [(slots real framed).1, (slots place again).1] at same
    exact Option.some.inj same

def bitSteps : Nat → Processor × CyclicMemory
  | 0 => (bitJob, bitMemory)
  | count + 1 =>
    let ended := (Routine.stepNative.run (bitSteps count).1).perform (bitSteps count).2
    (ended.1.2, ended.2)

def bitTurn (count : Nat) (instruction : Instruction) (action : BitAction) : BitTurn :=
  ⟨(bitSteps count).1, instruction, action, (bitSteps (count + 1)).1⟩

theorem bitTurn_next (count : Nat) (instruction : Instruction) (action : BitAction)
    {rest : List BitTurn} {last : CyclicMemory}
    (checks :
      let before := (bitSteps count).1
      let fetch := Execution.fetchInstruction.ending before.beginInstruction (bitSteps count).2
      before.translation = { bitJob.translation with
        untranslatable := before.translation.untranslatable
        executePrivilege := before.translation.executePrivilege } ∧
      before.bitAction instruction = some action ∧ fetch.1.1 = .ok instruction ∧
      ((Execution.execute instruction).ending (fetch.1.2.withInstruction instruction)
        fetch.2).1.1 = .ok ())
    (run : BitRun bitJob.translation (bitSteps (count + 1)).2 rest last) :
    BitRun bitJob.translation (bitSteps count).2 (bitTurn count instruction action :: rest)
      last := by
  obtain ⟨tables, acts, fetched, completed⟩ := checks
  exact .next ⟨_, _, tables⟩ acts (.of_completed fetched completed) run

def bitTurns : List BitTurn :=
  [bitTurn 0 (.decode .jkQ 0x8912 0) (.store true), bitTurn 1 (.decode .jk 0x1413 0) .set,
    bitTurn 2 (.decode .jkQ 0x8824 0x0001) .load]

/-- The bit is in the page before the one that the base of the store is in. What is loaded, through
another base and with a displacement, is what was stored. -/
theorem bitJob_bits :
    bitJob.translation.OwnFrames bitMemory ∧ bitJob.translation.HoldsBits bitMemory ∧
      BitRun bitJob.translation bitMemory bitTurns (bitSteps 3).2 ∧
      bitTurns.map BitTurn.bit = List.replicate 3 ⟨0, 0xFFD⟩ ∧
      bitJob.translation.bitAt bitMemory ⟨0, 0xFFD⟩ = some false ∧
      bitTurns.map BitTurn.reported = [1, 1, 1] := by
  have holds := bitJob_ownFrames.holdsBits
  have run : BitRun bitJob.translation bitMemory bitTurns (bitSteps 3).2 :=
    bitTurn_next 0 (.decode .jkQ 0x8912 0) (.store true) (by decide +kernel)
      (bitTurn_next 1 (.decode .jk 0x1413 0) .set (by decide +kernel)
        (bitTurn_next 2 (.decode .jkQ 0x8824 0x0001) .load (by decide +kernel) (.done _)))
  exact ⟨bitJob_ownFrames, holds, run, by decide +kernel, by decide +kernel, by decide +kernel⟩

end Mainframe
