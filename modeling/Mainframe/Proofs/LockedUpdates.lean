import Mainframe.Proofs.BytewiseAccess
import Mainframe.Proofs.Isolation

/-! Locked updates of one word. Whatever processors take turns with instructions that set a bit of
the word or swap it, the word goes through these operations one after another, and each of them
reports the word that the one before it has left. -/

set_option autoImplicit false

namespace Mainframe

variable {μ : Type}

/-! ## Words outside the page table -/

namespace TranslationUnit

variable [Bus μ] [SlottedBus μ] (unit : TranslationUnit)

/-- The second memory is the first with some entries of the page table written anew. -/
def MarksTable (memory kept : μ) : Prop :=
  ∃ places, (∀ place ∈ places, unit.InTable place) ∧ unit.Rewrites memory places kept

/-- No entry of the page table is in the word at an address. -/
def SparesWord (memory : μ) (address : Address) : Prop :=
  ∀ place, unit.InTable place →
    SlottedBus.slot memory address ≠ SlottedBus.slot memory (unit.pageEntryAddress place)

variable {unit} {memory kept last : μ} {address : Address}

namespace MarksTable

theorem refl : unit.MarksTable memory memory := ⟨[], by simp, .refl⟩

theorem trans (first : unit.MarksTable memory kept) (second : unit.MarksTable kept last) :
    unit.MarksTable memory last := by
  obtain ⟨places, inside, rewrites⟩ := first
  obtain ⟨more, within, again⟩ := second
  refine ⟨places ++ more, fun place member => ?_, rewrites.trans again⟩
  exact (List.mem_append.mp member).elim (inside place) (within place)

variable (marks : unit.MarksTable memory kept)

include marks

theorem slot_eq (address : Address) :
    SlottedBus.slot kept address = SlottedBus.slot memory address := by
  obtain ⟨_, -, rewrites⟩ := marks
  exact rewrites.slots address

theorem readWord_eq (spares : unit.SparesWord memory address) :
    Bus.readWord kept address = Bus.readWord memory address := by
  obtain ⟨_, inside, rewrites⟩ := marks
  exact rewrites.others address fun place member => spares place (inside place member)

end MarksTable

theorem MarksTable.sparesWord (marks : unit.MarksTable memory kept)
    (spares : unit.SparesWord kept address) : unit.SparesWord memory address := by
  intro place within
  rw [← marks.slot_eq, ← marks.slot_eq]
  exact spares place within

theorem marksTable_leave (access : Access) (memory : μ) :
    unit.MarksTable memory (access.leave unit memory memory) := by
  unfold Access.leave
  cases placed : access.place unit memory with
  | none => exact .refl
  | some index =>
    refine ⟨[index], ?_, unit.rewrites_marked memory index access.modes⟩
    simpa using (Access.place_spec placed).2.inTable

end TranslationUnit

theorem Processor.Resembles.marksTable [Bus μ] [SlottedBus μ] {processor left : Processor}
    {memory kept : μ} (alike : processor.Resembles left)
    (marks : left.translation.MarksTable memory kept) :
    processor.translation.MarksTable memory kept := by
  obtain ⟨_, _, rfl⟩ := alike
  obtain ⟨places, inside, rewrites⟩ := marks
  exact ⟨places, inside, rewrites.slots, rewrites.others⟩

namespace Execution

variable [Bus μ] [SlottedBus μ] {processor : Processor} {memory : μ}

theorem translate_marks (address : VirtualAddress) (modes : AccessModes) :
    processor.translation.MarksTable memory
      ((translate address modes).ending processor memory).2 := by
  have own : processor.translation.SharesTables processor.translation := ⟨_, _, rfl⟩
  have alike : processor.translation.SearchesAlike memory memory := .refl
  obtain ⟨left, -, ends⟩ := ending_translate_resembling own alike modes address
  rw [ends]
  exact TranslationUnit.marksTable_leave _ memory

theorem fetchInstruction_marks :
    fetchInstruction.Orderly processor memory fun _ left kept =>
      processor.Resembles left ∧ processor.translation.MarksTable memory kept := by
  refine fetchInstruction_leaves
    (fun processor memory kept => processor.translation.MarksTable memory kept)
    (fun {processor _ memory _ address _} ending => ?_)
    fun alike first second => first.trans (alike.marksTable second)
  have marks : processor.translation.MarksTable memory
      ((translate address .forExecute).ending processor memory).2 := translate_marks _ _
  rwa [ending] at marks

end Execution

theorem Runs.readWord_eq [Bus μ] [SlottedBus μ] {before running : Processor} {memory middle : μ}
    {instruction : Instruction} {address : Address}
    (runs : Runs before memory instruction running middle)
    (spares : running.translation.SparesWord middle address) :
    Bus.readWord middle address = Bus.readWord memory address := by
  obtain ⟨fetched, fetching, rfl⟩ := runs
  have fetch : Execution.fetchInstruction.Orderly before.beginInstruction memory _ :=
    Execution.fetchInstruction_marks
  obtain ⟨⟨_, _, rfl⟩, marks⟩ := fetch.completed fetching
  have spares : before.translation.SparesWord middle address := fun place within =>
    spares place within
  exact marks.readWord_eq (marks.sparesWord spares)

/-! ## Locked instructions -/

/-- The bit with a number is set, where the first bit of a word has number zero. -/
def Word.HasBit (word : Word) (bit : Nat) : Prop := word &&& Word.selector bit ≠ 0

instance (word : Word) (bit : Nat) : Decidable (word.HasBit bit) :=
  inferInstanceAs (Decidable (_ ≠ _))

theorem Word.selector_eq (bit : Nat) : Word.selector bit = BitVec.twoPow 64 (63 - bit) := by
  apply BitVec.eq_of_toNat_eq
  rw [Word.selector, BitVec.toNat_ofNat, Nat.one_shiftLeft, BitVec.toNat_twoPow]

theorem Word.hasBit_iff (word : Word) (bit : Nat) :
    word.HasBit bit ↔ word.getLsbD (63 - bit) = true := by
  unfold HasBit
  rw [selector_eq, BitVec.and_twoPow]
  cases word.getLsbD (63 - bit) with
  | false => simp
  | true =>
    simp only [if_true, iff_true]
    intro none
    have value := congrArg BitVec.toNat none
    rw [BitVec.toNat_twoPow_of_lt (by omega)] at value
    exact absurd value (Nat.two_pow_pos _).ne'

theorem Word.hasBit_or_selector (word : Word) (bit other : Fin 64) :
    (word ||| Word.selector other).HasBit bit ↔ word.HasBit bit ∨ other = bit := by
  rw [hasBit_iff, hasBit_iff, BitVec.getLsbD_or, selector_eq, BitVec.getLsbD_twoPow]
  simp only [Bool.or_eq_true, Bool.and_eq_true, decide_eq_true_eq, Fin.ext_iff]
  exact or_congr Iff.rfl (by omega)

inductive Lock where
  | set (bit : Fin 64)
  | swap (expected replacement : Word)
  deriving DecidableEq

namespace Lock

def apply (lock : Lock) (word : Word) : Word :=
  match lock with
  | .set bit => word ||| Word.selector bit
  | .swap expected replacement => if word = expected then replacement else word

def report (lock : Lock) (found : Word) (number : RegisterNumber) (processor : Processor) : Processor :=
  match lock with
  | .set bit => processor.withWordRegister number (if found.HasBit bit then 1 else 0)
  | .swap expected _ =>
    if found = expected then processor.withWordRegister 1 0
    else (processor.withWordRegister 0 found).withWordRegister 1 1

theorem report_set (bit : Fin 64) (found : Word) (number : RegisterNumber)
    (processor : Processor) :
    (set bit).report found number processor =
      processor.withWordRegister number (if found &&& Word.selector bit = 0 then 0 else 1) := by
  unfold report
  dsimp only
  by_cases held : found.HasBit bit
  · rw [if_pos held, if_neg held]
  · rw [if_neg held, if_pos (not_not.mp held)]

def applyAll (locks : List Lock) (word : Word) : Word :=
  locks.foldl (fun word lock => lock.apply word) word

end Lock

namespace Processor

variable (processor : Processor) (instruction : Instruction)

def lockedOperand : VirtualAddress :=
  match Operation.ofOpcode instruction.opcode with
  | some (.storage .lockBit) => (processor.bitOperand instruction 0).byte
  | _ => processor.displacedOperand instruction

def lockAt (real : Address) : Option Lock :=
  match Operation.ofOpcode instruction.opcode with
  | some (.storage .lockBit) =>
    let place := (processor.bitOperand instruction 0).place
    some (.set ⟨8 * (real.toNat % 8) + place.val, by omega⟩)
  | some (.storage .compareSwap) =>
    some (.swap (processor.wordRegister 0) (processor.wordRegister instruction.k))
  | _ => none

end Processor

namespace Execution

variable [Bus μ] [SlottedBus μ] [LawfulBus μ] {instruction : Instruction}
  {running left : Processor} {middle marked kept : μ} {lock : Lock} {real : Address}

omit [LawfulBus μ] in
theorem slot_wordStart (memory : μ) (real : Address) :
    SlottedBus.slot memory (real >>> 3 <<< 3) = SlottedBus.slot memory real := by
  apply SlottedBus.slot_congr
  rw [wordIndex_eq, wordIndex_eq, BitVec.toNat_shiftLeft, BitVec.toNat_ushiftRight,
    Nat.shiftLeft_eq, Nat.shiftRight_eq_div_pow]
  omega

omit [SlottedBus μ] in
theorem perform_modifyWord (memory : μ) (address : Address) (change : Word → Word) :
    (Activity.modifyWord address change).perform memory =
      (Bus.readWord memory address,
        Bus.writeWord memory address (change (Bus.readWord memory address))) :=
  LawfulBus.modifyWord_eq memory address change

omit [SlottedBus μ] in
theorem ending_lockBit
    (translated : (translate (running.bitOperand instruction 0).byte .forUpdate).ending running
      middle = ((.ok real, running), marked)) (bit : Fin 64)
    (numbered : bit.val = 8 * (real.toNat % 8) + (running.bitOperand instruction 0).place.val) :
    (lockBit instruction).ending running middle =
      let found := Bus.readWord marked (real >>> 3 <<< 3)
      ((.ok (), (Lock.set bit).report found instruction.k running),
        Bus.writeWord marked (real >>> 3 <<< 3) ((Lock.set bit).apply found)) := by
  unfold lockBit
  rw [ending, course_get]
  dsimp only
  change (translate (running.bitOperand instruction 0).byte .forUpdate >>= _).ending
    running middle = _
  rw [ending_bind, translated]
  dsimp only
  rw [← numbered, ending_bind, ending_liftM, perform_modifyWord]
  dsimp only
  rw [Lock.report_set, Lock.apply]
  exact Activity.Reports.perform_eq (Settles.modified _) _

omit [SlottedBus μ] in
theorem ending_compareSwap
    (translated : (translate (running.displacedOperand instruction) .forUpdate).ending running
      middle = ((.ok real, running), marked))
    (completes : ((compareSwap instruction).ending running middle).1.1 = .ok ()) :
    (compareSwap instruction).ending running middle =
      let found := Bus.readWord marked real
      let lock := Lock.swap (running.wordRegister 0) (running.wordRegister instruction.k)
      ((.ok (), lock.report found instruction.k running),
        Bus.writeWord marked real (lock.apply found)) := by
  unfold compareSwap at completes ⊢
  rw [ending, course_get] at completes ⊢
  dsimp only at completes ⊢
  split at completes
  · -- The address of part of a word is a fault.
    cases completes
  · next aligned =>
    rw [if_neg aligned]
    change (translate (running.displacedOperand instruction) .forUpdate >>= _).ending running
      middle = _
    rw [ending_bind, translated]
    dsimp only
    rw [ending_bind, ending_liftM, perform_modifyWord]
    dsimp only
    rw [Lock.report, Lock.apply]
    exact Activity.Reports.perform_eq (Settles.modified _) _

/-- A locked instruction that completes has done its operation on the word that holds its operand,
and nothing else outside the page table. -/
theorem execute_locked (locked : running.lockAt instruction real = some lock)
    (located : (running.access .forUpdate (running.lockedOperand instruction)).outcome
      running.translation middle = .ok real)
    (ending : (execute instruction).ending running middle = ((.ok (), left), kept)) :
    ∃ marked place, running.translation.MarksTable middle marked ∧
      SlottedBus.slot middle place = SlottedBus.slot middle real ∧
      kept = Bus.writeWord marked place (lock.apply (Bus.readWord marked place)) ∧
      left = lock.report (Bus.readWord marked place) instruction.k running := by
  have translated :
      (translate (running.lockedOperand instruction) .forUpdate).ending running middle = _ :=
    ending_translate rfl .refl
  have marks : running.translation.MarksTable middle
      ((translate (running.lockedOperand instruction) .forUpdate).ending running middle).2 :=
    translate_marks _ _
  rw [located] at translated
  rw [translated] at marks
  dsimp only at translated marks
  generalize Access.leave _ _ middle middle = marked at translated marks
  -- Both instructions translate their operand in the same way, and then write the word, one at its
  -- first byte and the other at the operand.
  unfold Processor.lockAt at locked
  unfold Processor.lockedOperand at translated
  unfold execute at ending
  split at locked
  · next operation =>
    rw [operation] at ending translated
    cases locked
    have ends := ending_lockBit translated ⟨_, by omega⟩ rfl
    cases ends.symm.trans ending
    exact ⟨_, _, marks, slot_wordStart middle real, rfl, rfl⟩
  · next operation =>
    rw [operation] at ending translated
    cases locked
    have ends := ending_compareSwap translated (congrArg (fun ended => ended.1.1) ending)
    cases ends.symm.trans ending
    exact ⟨_, real, marks, rfl, rfl, rfl⟩
  · cases locked

end Execution

/-! ## Turns -/

structure Processor.Executes [Bus μ] (before : Processor) (memory : μ) (instruction : Instruction)
    (running : Processor) (middle : μ) : Prop where
  going : before.stopped = false
  continues : (Routine.resolved before memory).1.stopped = false
  calm : ¬ (Routine.resolved before memory).1.pending.Interrupts
  native : (Routine.resolved before memory).1.instructionSet = .native
  runs : Runs (Routine.resolved before memory).1 (Routine.resolved before memory).2 instruction
    running middle
  completes : ((Execution.execute instruction).ending running middle).1.1 = .ok ()

theorem Processor.Executes.perform_step [Bus μ] {before running : Processor} {memory middle : μ}
    {instruction : Instruction} (executes : before.Executes memory instruction running middle) :
    ∃ left kept, (Execution.execute instruction).ending running middle = ((.ok (), left), kept) ∧
      (Routine.step.run before).perform memory = ((.executed, left.commit true), kept) := by
  rcases ending : (Execution.execute instruction).ending running middle with
    ⟨⟨_ | _, left⟩, kept⟩
  · exact absurd (executes.completes.symm.trans (congrArg (fun ended => ended.1.1) ending)) nofun
  · refine ⟨left, kept, rfl, ?_⟩
    exact CarriesOut.perform_step executes.going executes.continues executes.calm executes.native
      ⟨running, middle, left, executes.runs, ending, rfl⟩

namespace Machine

variable {machine after : Machine} {number : Nat} {sender : Processor}

theorem memory_deliver (machine : Machine) (target : Nat) :
    (machine.runIfPresent target (Routine.raise (.monitor .externalInterrupt))).memory =
      machine.memory := by
  unfold runIfPresent
  rcases found : machine.processors[target]? with _ | reached
  · rw [run_missing found]
  · rw [run_present found]
    rfl

theorem memory_turn (found : machine.processors[number]? = some sender) :
    (machine.turn number).memory = ((Routine.step.run sender).perform machine.memory).2 := by
  obtain ⟨-, journal, turned⟩ := step_present found
  rw [turned]
  cases ((Routine.step.run sender).perform machine.memory).1.2.interruptRequest with
  | none => rfl
  | some target => exact memory_deliver _ target

theorem registers_turn (found : machine.processors[number]? = some sender) {ended : Processor}
    (left : (machine.turn number).processors[number]? = some ended) :
    ended.x = ((Routine.step.run sender).perform machine.memory).1.2.x := by
  have within : number < machine.processors.length := (List.getElem?_eq_some_iff.mp found).1
  rw [processors_turn found] at left
  split at left
  · rw [List.getElem?_set_self within] at left
    cases left
    rfl
  · rw [List.getElem?_modify, List.getElem?_set_self within] at left
    cases left
    dsimp only
    split <;> rfl

end Machine

/-- A turn that a numbered processor takes with a locked instruction, and the states it goes
through: before and after the step, and when the instruction has been fetched. -/
structure LockedTurn where
  number : Nat
  instruction : Instruction
  lock : Lock
  real : Address
  before : Machine
  sender : Processor
  running : Processor
  middle : RealMemory
  after : Machine
  ended : Processor

namespace LockedTurn

/-- The turn is taken, and its instruction completes on the word at an address, which exists and
is outside the page table. -/
structure CompletesOn (turn : LockedTurn) (address : Address) : Prop where
  present : turn.before.processors[turn.number]? = some turn.sender
  step : turn.before.step turn.number = .ok (.executed, turn.after)
  ended : turn.after.processors[turn.number]? = some turn.ended
  executes : turn.sender.Executes turn.before.memory turn.instruction turn.running turn.middle
  locked : turn.running.lockAt turn.instruction turn.real = some turn.lock
  located : (turn.running.access .forUpdate (turn.running.lockedOperand turn.instruction)).outcome
    turn.running.translation turn.middle = .ok turn.real
  word : turn.middle.slot turn.real = turn.middle.slot address
  exist : turn.middle.slot address ≠ none
  apart : turn.running.translation.SparesWord turn.middle address

/-- Whatever the step has to deal with before the instruction leaves the word as it is. -/
def Undisturbed (turn : LockedTurn) (address : Address) : Prop :=
  (Routine.resolved turn.sender turn.before.memory).2.load address =
    turn.before.memory.load address

instance (turn : LockedTurn) (address : Address) : Decidable (turn.Undisturbed address) :=
  inferInstanceAs (Decidable (_ = _))

def found (turn : LockedTurn) (address : Address) : Word := turn.before.memory.load address

/-- Of the word, a turn makes what its operation does, and it reports the word that it found. -/
theorem CompletesOn.updates {turn : LockedTurn} {address : Address}
    (completes : turn.CompletesOn address) (undisturbed : turn.Undisturbed address) :
    turn.after.memory.load address = turn.lock.apply (turn.found address) ∧
      turn.ended.x = (turn.lock.report (turn.found address) turn.instruction.k turn.running).x := by
  obtain ⟨left, kept, ending, steps⟩ := completes.executes.perform_step
  have taken : turn.before.turn turn.number = turn.after := by
    unfold Machine.turn
    rw [completes.step]
  have memory := Machine.memory_turn completes.present
  have registers := Machine.registers_turn completes.present (taken ▸ completes.ended)
  rw [taken, steps] at memory
  rw [steps] at registers
  obtain ⟨marked, place, marks, slot, rfl, rfl⟩ :=
    Execution.execute_locked completes.locked completes.located ending
  have slot : marked.slot place = marked.slot address :=
    (marks.slot_eq place).trans ((slot.trans completes.word).trans (marks.slot_eq address).symm)
  have exist : marked.slot address ≠ none := by
    rw [show marked.slot address = _ from marks.slot_eq address]
    exact completes.exist
  -- On the way to the instruction nothing is written to the word but the marks of its tables.
  have found : marked.load place = turn.found address := calc
    marked.load place = marked.load address := SlottedBus.readWord_congr marked slot
    _ = turn.middle.load address := marks.readWord_eq completes.apart
    _ = (Routine.resolved turn.sender turn.before.memory).2.load address :=
      completes.executes.runs.readWord_eq completes.apart
    _ = turn.found address := undisturbed
  have written : turn.after.memory.load address = turn.lock.apply (marked.load place) := by
    rw [memory]
    exact (RealMemory.load_save marked place address _).trans (if_pos ⟨slot.symm, exist⟩)
  rw [← found]
  exact ⟨written, registers⟩

end LockedTurn

/-- Turns are taken one after another, each with a locked instruction on the word at an address. -/
inductive LockedRun (address : Address) : Machine → List LockedTurn → Machine → Prop where
  | done (machine : Machine) : LockedRun address machine [] machine
  | next {turn : LockedTurn} {rest : List LockedTurn} {last : Machine} :
    turn.CompletesOn address → LockedRun address turn.after rest last →
      LockedRun address turn.before (turn :: rest) last

def locksOf (turns : List LockedTurn) : List Lock := turns.map LockedTurn.lock

namespace Lock

theorem applyAll_append (locks more : List Lock) (word : Word) :
    applyAll (locks ++ more) word = applyAll more (applyAll locks word) := List.foldl_append

theorem hasBit_applyAll {segment : List LockedTurn}
    (sets : ∀ turn ∈ segment, ∃ bit, turn.lock = .set bit) (word : Word) (bit : Fin 64) :
    (applyAll (locksOf segment) word).HasBit bit ↔
      word.HasBit bit ∨ ∃ turn ∈ segment, turn.lock = .set bit := by
  induction segment generalizing word with
  | nil => simp [applyAll, locksOf]
  | cons turn rest ih =>
    obtain ⟨⟨other, same⟩, others⟩ := List.forall_mem_cons.mp sets
    change (applyAll (locksOf rest) (turn.lock.apply word)).HasBit bit ↔ _
    rw [ih others, same, apply, Word.hasBit_or_selector, or_assoc]
    simp only [List.mem_cons, exists_eq_or_imp, same, set.injEq]

end Lock

/-- What the turns of a run come to on a word. -/
structure Serialized (address : Address) (start : Machine) (turns : List LockedTurn)
    (last : Machine) : Prop where
  composed : last.memory.load address =
    Lock.applyAll (locksOf turns) (start.memory.load address)
  found : ∀ earlier turn later, turns = earlier ++ turn :: later →
    turn.found address = Lock.applyAll (locksOf earlier) (start.memory.load address)
  swaps : ∀ turn ∈ turns, ∀ expected replacement, turn.lock = .swap expected replacement →
    turn.ended.wordRegister 1 = 0 ∧ turn.running.wordRegister 0 = turn.found address ∧
        turn.after.memory.load address = turn.running.wordRegister turn.instruction.k ∨
      turn.ended.wordRegister 1 = 1 ∧ turn.after.memory.load address = turn.found address ∧
        turn.ended.wordRegister 0 = turn.found address
  sets : ∀ earlier before turn later, turns = earlier ++ before ++ turn :: later →
    (∀ other ∈ before, ∃ bit, other.lock = .set bit) → ∀ bit : Fin 64, turn.lock = .set bit →
      turn.ended.wordRegister turn.instruction.k =
        if (Lock.applyAll (locksOf earlier) (start.memory.load address)).HasBit bit ∨
          (∃ other ∈ before, other.lock = .set bit) then 1 else 0
  bits : ∀ earlier segment later, turns = earlier ++ segment ++ later →
    (∀ turn ∈ segment, ∃ bit, turn.lock = .set bit) → ∀ bit : Fin 64,
      (Lock.applyAll (locksOf (earlier ++ segment)) (start.memory.load address)).HasBit bit ↔
        (Lock.applyAll (locksOf earlier) (start.memory.load address)).HasBit bit ∨
          ∃ turn ∈ segment, turn.lock = .set bit

namespace LockedTurn

variable {turn : LockedTurn} {address : Address}

theorem CompletesOn.wordRegister_ended (completes : turn.CompletesOn address)
    (undisturbed : turn.Undisturbed address) (number : RegisterNumber) :
    turn.ended.wordRegister number =
      (turn.lock.report (turn.found address) turn.instruction.k turn.running).wordRegister
        number := by
  unfold Processor.wordRegister
  rw [(completes.updates undisturbed).2]

theorem CompletesOn.swap_eq (completes : turn.CompletesOn address) {expected replacement : Word}
    (swaps : turn.lock = .swap expected replacement) :
    expected = turn.running.wordRegister 0 ∧
      replacement = turn.running.wordRegister turn.instruction.k := by
  have locked := completes.locked
  rw [swaps] at locked
  unfold Processor.lockAt at locked
  split at locked
  · cases locked
  · cases locked
    exact ⟨rfl, rfl⟩
  · cases locked

/-- A swap stores its replacement if it has found what it expects, and otherwise reports what it has
found. X1 tells which. -/
theorem CompletesOn.swap_ends (completes : turn.CompletesOn address)
    (undisturbed : turn.Undisturbed address) {expected replacement : Word}
    (swaps : turn.lock = .swap expected replacement) :
    turn.ended.wordRegister 1 = 0 ∧ turn.running.wordRegister 0 = turn.found address ∧
        turn.after.memory.load address = turn.running.wordRegister turn.instruction.k ∨
      turn.ended.wordRegister 1 = 1 ∧ turn.after.memory.load address = turn.found address ∧
        turn.ended.wordRegister 0 = turn.found address := by
  have registers := completes.wordRegister_ended undisturbed
  have written := (completes.updates undisturbed).1
  obtain ⟨rfl, rfl⟩ := completes.swap_eq swaps
  rw [swaps] at registers written
  unfold Lock.report at registers
  unfold Lock.apply at written
  dsimp only at registers written
  split at written
  · next expected =>
    rw [if_pos expected] at registers
    refine .inl ⟨?_, expected.symm, written⟩
    rw [registers, Processor.wordRegister_withWordRegister, if_pos rfl]
  · next other =>
    rw [if_neg other] at registers
    refine .inr ⟨?_, written, ?_⟩
    · rw [registers, Processor.wordRegister_withWordRegister, if_pos rfl]
    · rw [registers, Processor.wordRegister_withWordRegister, if_neg (by decide),
        Processor.wordRegister_withWordRegister, if_pos rfl]

end LockedTurn

namespace LockedRun

variable {address : Address} {start last : Machine} {turns : List LockedTurn}

theorem composed (run : LockedRun address start turns last)
    (undisturbed : ∀ turn ∈ turns, turn.Undisturbed address) :
    last.memory.load address = Lock.applyAll (locksOf turns) (start.memory.load address) := by
  induction run with
  | done machine => rfl
  | next completes run ih =>
    obtain ⟨here, others⟩ := List.forall_mem_cons.mp undisturbed
    rw [ih others, (completes.updates here).1]
    rfl

theorem split {earlier later : List LockedTurn} {turn : LockedTurn}
    (run : LockedRun address start (earlier ++ turn :: later) last) :
    LockedRun address start earlier turn.before ∧ turn.CompletesOn address := by
  induction earlier generalizing start with
  | nil =>
    cases run with
    | next completes run => exact ⟨.done _, completes⟩
  | cons first rest ih =>
    cases run with
    | next completes run =>
      obtain ⟨before, here⟩ := ih run
      exact ⟨.next completes before, here⟩

theorem found_eq {earlier later : List LockedTurn} {turn : LockedTurn}
    (run : LockedRun address start (earlier ++ turn :: later) last)
    (undisturbed : ∀ other ∈ earlier ++ turn :: later, other.Undisturbed address) :
    turn.found address = Lock.applyAll (locksOf earlier) (start.memory.load address) :=
  run.split.1.composed fun other member => undisturbed other (List.mem_append_left _ member)

/-- Locked instructions lose no update. -/
theorem locked_serialized (run : LockedRun address start turns last)
    (undisturbed : ∀ turn ∈ turns, turn.Undisturbed address) :
    Serialized address start turns last where
  composed := run.composed undisturbed
  found := by
    rintro earlier turn later rfl
    exact run.found_eq undisturbed
  swaps := by
    intro turn member expected replacement swaps
    obtain ⟨earlier, later, rfl⟩ := List.append_of_mem member
    exact run.split.2.swap_ends (undisturbed turn member) swaps
  sets := by
    rintro earlier before turn later rfl sets bit same
    have calm := undisturbed turn (by simp)
    rw [run.split.2.wordRegister_ended calm, same, Lock.report,
      Processor.wordRegister_withWordRegister, if_pos rfl, run.found_eq undisturbed, locksOf,
      List.map_append, Lock.applyAll_append]
    exact if_congr (Lock.hasBit_applyAll sets _ bit) rfl rfl
  bits := by
    rintro earlier segment later rfl sets bit
    unfold locksOf
    rw [List.map_append, Lock.applyAll_append]
    exact Lock.hasBit_applyAll sets _ bit

end LockedRun

/-! ## Two processors -/

theorem TranslationUnit.sparesWord_of_le {unit : TranslationUnit} {memory : RealMemory}
    {address : Address}
    (beyond : unit.pageTable.toNat / 8 + (unit.pageTableLength.toNat + 1) * 512 ≤
      wordIndex address)
    (inside : wordIndex address < memory.sizeWords) : unit.SparesWord memory address := by
  intro place within same
  change memory.slot address = memory.slot (unit.pageEntryAddress place) at same
  unfold InTable at within
  rw [RealMemory.slot, RealMemory.slot, wordIndex_pageEntryAddress, if_pos inside,
    if_pos (by omega)] at same
  have equal := Option.some.inj same
  omega

theorem Machine.step_of_executes {machine : Machine} {number : Nat} {sender running : Processor}
    {instruction : Instruction} {middle : RealMemory}
    (present : machine.processors[number]? = some sender)
    (executes : sender.Executes machine.memory instruction running middle) :
    machine.step number = .ok (.executed, machine.turn number) := by
  obtain ⟨left, kept, -, steps⟩ := executes.perform_step
  rw [(step_present present).1, steps]

namespace LockedTurn

def ofMachine (before : Machine) (number : Nat) (sender : Processor) (instruction : Instruction)
    (lock : Lock) (real : Address) : LockedTurn :=
  let ready := Routine.resolved sender before.memory
  let fetch := Execution.fetchInstruction.ending ready.1.beginInstruction ready.2
  { number, instruction, lock, real, before, sender
    running := fetch.1.2.withInstruction instruction
    middle := fetch.2
    after := before.turn number
    ended := (before.turn number).processors[number]?.getD sender }

def Checks (turn : LockedTurn) (address : Address) : Prop :=
  let ready := Routine.resolved turn.sender turn.before.memory
  let fetch := Execution.fetchInstruction.ending ready.1.beginInstruction ready.2
  let operand := turn.running.lockedOperand turn.instruction
  let unit := turn.running.translation
  (turn.sender.stopped = false ∧ ready.1.stopped = false ∧ ¬ ready.1.pending.Interrupts ∧
      ready.1.instructionSet.isLegacy = false) ∧
    (fetch.1.1 = .ok turn.instruction ∧
      ((Execution.execute turn.instruction).ending turn.running turn.middle).1.1 = .ok ()) ∧
    (turn.running.lockAt turn.instruction turn.real = some turn.lock ∧
      (turn.running.access .forUpdate operand).outcome unit turn.middle = .ok turn.real ∧
      turn.middle.slot turn.real = turn.middle.slot address) ∧
    unit.pageTable.toNat / 8 + (unit.pageTableLength.toNat + 1) * 512 ≤ wordIndex address ∧
      wordIndex address < turn.middle.sizeWords

instance (turn : LockedTurn) (address : Address) : Decidable (turn.Checks address) :=
  inferInstanceAs (Decidable (_ ∧ _))

theorem ofMachine_completesOn {before : Machine} {number : Nat} {sender : Processor}
    {instruction : Instruction} {lock : Lock} {real address : Address}
    (present : before.processors[number]? = some sender)
    (checks : (ofMachine before number sender instruction lock real).Checks address) :
    (ofMachine before number sender instruction lock real).CompletesOn address := by
  obtain ⟨⟨going, continues, calm, form⟩, ⟨fetched, completes⟩, ⟨locked, located, word⟩, beyond,
    inside⟩ := checks
  have native : (Routine.resolved sender before.memory).1.instructionSet = .native := by
    cases same : (Routine.resolved sender before.memory).1.instructionSet with
    | native => rfl
    | legacy registers => exact absurd (same ▸ form) nofun
  have executes : sender.Executes before.memory instruction _ _ :=
    ⟨going, continues, calm, native, ⟨_, Prod.ext (Prod.ext fetched rfl) rfl, rfl⟩, completes⟩
  refine ⟨present, Machine.step_of_executes present executes, ?_, executes, locked, located, word,
    ?_, TranslationUnit.sparesWord_of_le beyond inside⟩
  · have within : number < (before.turn number).processors.length := by
      rw [Machine.length_turn]
      exact (List.getElem?_eq_some_iff.mp present).1
    unfold ofMachine
    rw [List.getElem?_eq_getElem within]
    rfl
  · unfold RealMemory.slot
    rw [if_pos inside]
    nofun

end LockedTurn

def lockedPair : Machine where
  settings := .standard
  memory := ⟨4096, false, ((WordStore.empty.set 0 0x6ABB000000000000).set 512
    0x8000000000000010).set 1024 0x1412B41300000000⟩
  processors := [Routine.smallJob, { Routine.smallJob with number := 1 }]
  watched := fun _ => false
  journal := []

/-- The first job sets the bit, the second finds it set, and the first then fails to swap. -/
def pairedSets : LockedTurn × LockedTurn :=
  let first := LockedTurn.ofMachine lockedPair 0 Routine.smallJob (.decode .jk 0x1412 0) (.set 0)
    0x2100
  (first, .ofMachine first.after 1 { Routine.smallJob with number := 1 } (.decode .jk 0x1412 0)
    (.set 0) 0x2100)

def pairedSwap : LockedTurn :=
  .ofMachine pairedSets.2.after 0 pairedSets.1.ended (.decode .jkQ 0xB413 0) (.swap 0 0) 0x2100

theorem lockedPair_serialized :
    LockedRun 0x2100 lockedPair [pairedSets.1, pairedSets.2, pairedSwap] pairedSwap.after ∧
      (∀ turn ∈ [pairedSets.1, pairedSets.2, pairedSwap], turn.Undisturbed 0x2100) ∧
      Serialized 0x2100 lockedPair [pairedSets.1, pairedSets.2, pairedSwap] pairedSwap.after := by
  have first : pairedSets.1.CompletesOn 0x2100 :=
    LockedTurn.ofMachine_completesOn rfl (by decide +kernel)
  have second : pairedSets.2.CompletesOn 0x2100 :=
    LockedTurn.ofMachine_completesOn rfl (by decide +kernel)
  have third : pairedSwap.CompletesOn 0x2100 :=
    LockedTurn.ofMachine_completesOn rfl (by decide +kernel)
  have run : LockedRun 0x2100 lockedPair [pairedSets.1, pairedSets.2, pairedSwap]
    pairedSwap.after := .next first (.next second (.next third (.done _)))
  have undisturbed : ∀ turn ∈ [pairedSets.1, pairedSets.2, pairedSwap],
      turn.Undisturbed 0x2100 := by
    decide +kernel
  exact ⟨run, undisturbed, run.locked_serialized undisturbed⟩

/-- A job that is to be exchanged for a monitor. The state of the job goes to where the monitor is
to set a bit. -/
def exchangedJob : Machine where
  settings := .standard
  memory := ⟨4096, false, ((((WordStore.empty.set 0 0x6ABB000000000000).set 512
    0x8000000000000010).set 1024 0x1412000000000000).set 1536 0x0000B00000000000).set 1538
    0x0000B00000000100⟩
  processors := [{ Routine.smallJob with
    pending := .exchange, jobPackage := 0x2100, monitorPackage := 0x3000 }]
  watched := fun _ => false
  journal := []

def exchangedSet : LockedTurn :=
  .ofMachine exchangedJob 0 { Routine.smallJob with
    pending := .exchange, jobPackage := 0x2100, monitorPackage := 0x3000 } (.decode .jk 0x1412 0)
    (.set 0) 0x2100

/-- What an exchange writes to the word, just before the instruction, is not an operation of any
locked instruction. -/
theorem exchange_intervenes :
    LockedRun 0x2100 exchangedJob [exchangedSet] exchangedSet.after ∧
      exchangedSet.after.memory.load 0x2100 ≠
        Lock.applyAll (locksOf [exchangedSet]) (exchangedJob.memory.load 0x2100) := by
  have completes : exchangedSet.CompletesOn 0x2100 :=
    LockedTurn.ofMachine_completesOn rfl (by decide +kernel)
  exact ⟨.next completes (.done _), by decide +kernel⟩

end Mainframe
