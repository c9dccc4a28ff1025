import Mainframe.Proofs.Gathering
import Mainframe.Proofs.PreciseFaults
import Mainframe.Proofs.Refetching

/-! Block instructions that are carried out again. One that does not find a page of its destination
leaves behind the bytes that it has stored before. When the page has been entered and the
instruction is carried out again, it does what it would have done with the page there at first, if
what it had stored has not changed what it reads. -/

set_option autoImplicit false

namespace Mainframe

variable {μ : Type}

/-! ## Processors that have retained their state -/

namespace Processor.Retains

variable {before after : Processor} (retains : before.Retains after)

include retains

theorem p_eq : after.p = before.p := by
  obtain ⟨_, _, _, _, _, _, _, _, rfl⟩ := retains
  rfl

theorem key_eq : after.key = before.key := by
  obtain ⟨_, _, _, _, _, _, _, _, rfl⟩ := retains
  rfl

theorem dispatches (dispatches : before.Dispatches) (calm : ¬ after.pending.Interrupts) :
    after.Dispatches := by
  obtain ⟨_, _, _, _, _, _, _, _, rfl⟩ := retains
  exact ⟨dispatches.1, dispatches.2.1, calm⟩

theorem sharesTables : before.translation.SharesTables after.translation := by
  obtain ⟨_, _, _, _, _, _, _, _, rfl⟩ := retains
  exact ⟨_, _, rfl⟩

theorem access_eq (modes : AccessModes) (address : VirtualAddress) :
    after.access modes address = before.access modes address := by
  obtain ⟨_, _, _, _, _, _, _, _, rfl⟩ := retains
  rfl

theorem gathering_eq (instruction : Instruction) (operation : BlockOperation) :
    after.gathering instruction operation = before.gathering instruction operation := by
  obtain ⟨_, _, _, _, _, _, _, _, rfl⟩ := retains
  rfl

end Processor.Retains

/-! ## Steps that carry out an instruction -/

/-- A step of the processor fetches the instruction and goes on to carry it out. -/
structure StepRuns [Bus μ] (before : Processor) (memory : μ) (instruction : Instruction)
    (running : Processor) (middle : μ) : Prop where
  dispatches : before.Dispatches
  runs : Runs { before with freeRunning := before.freeRunning + 1, pending := .proceed } memory
    instruction running middle

namespace StepRuns

theorem of_fetched [Bus μ] {before : Processor} {memory : μ} {instruction : Instruction}
    {ended : (Except Condition Instruction × Processor) × μ} (dispatches : before.Dispatches)
    (fetching : Execution.fetchInstruction.ending before.fetching memory = ended)
    (fetches : ended.1.1 = .ok instruction) :
    StepRuns before memory instruction (ended.1.2.withInstruction instruction) ended.2 :=
  ⟨dispatches, _, fetching.trans (Prod.ext (Prod.ext fetches rfl) rfl), rfl⟩

section

variable [Bus μ] {before running : Processor} {memory middle : μ} {instruction : Instruction}
  (step : StepRuns before memory instruction running middle)

include step

theorem perform_step :
    (Routine.step.run before).perform memory =
      match (Execution.execute instruction).ending running middle with
      | ((.error condition, left), kept) =>
        ((.executed, (left.fault condition).commit condition.policy.completes), kept)
      | ((.ok _, left), kept) => ((.executed, left.commit true), kept) := by
  obtain ⟨dispatches, fetched, fetching, rfl⟩ := step
  have fetching : Execution.fetchInstruction.ending before.fetching memory =
    ((.ok instruction, fetched), middle) := fetching
  have performed := Routine.perform_step dispatches memory
  rw [fetching] at performed
  exact performed

variable [LawfulBus μ]

theorem running_eq :
    ∃ descriptor,
      before.translation.descriptorAt memory before.p.segment.toNat = some descriptor ∧
      running = (before.fetching.tracing before.translation.untranslatable
        descriptor.execute).withInstruction instruction := by
  obtain ⟨-, fetched, fetching, rfl⟩ := step
  have fetch := Execution.fetchInstruction_fetches before memory
  obtain ⟨marked, segment, marks, found, rfl⟩ := (fetch.completed fetching).privilege
  obtain ⟨read, found⟩ := before.translation.descriptorAt_marks marks found
  exact ⟨_, found, rfl⟩

theorem retains : before.Retains running := by
  obtain ⟨_, -, rfl⟩ := step.running_eq
  exact ⟨_, _, _, _, _, _, _, _, rfl⟩

end

section

variable [Bus μ] [SlottedBus μ] {unit : TranslationUnit}
  {before running resumed second : Processor} {memory middle kept last : μ}
  {instruction : Instruction}

theorem perform_alike (step : StepRuns before memory instruction running middle)
    (again : StepRuns resumed kept instruction second last)
    (alike : Execution.EndsAlike unit ((Execution.execute instruction).ending running middle)
      ((Execution.execute instruction).ending second last)) :
    let first := (Routine.step.run before).perform memory
    let later := (Routine.step.run resumed).perform kept
    later.1.1 = first.1.1 ∧ first.1.2.Parallels later.1.2 ∧ unit.DiffersAt [] first.2 later.2 := by
  rw [step.perform_step, again.perform_step]
  obtain ⟨result, processors, memories⟩ := alike
  generalize (Execution.execute instruction).ending running middle = first
    at result processors memories ⊢
  generalize (Execution.execute instruction).ending second last = later
    at result processors memories ⊢
  obtain ⟨⟨condition | _, _⟩, _⟩ := first
  · obtain ⟨⟨_ | _, _⟩, _⟩ := later <;> cases result
    exact ⟨rfl, (processors.fault condition).commit _, memories⟩
  · obtain ⟨⟨_ | _, _⟩, _⟩ := later <;> cases result
    exact ⟨rfl, processors.commit true, memories⟩

theorem again [ForgetfulBus μ] {base : μ}
    (step : StepRuns before memory instruction running middle)
    (retains : before.Retains resumed) (calm : ¬ resumed.pending.Interrupts)
    (apart : before.translation.TablesApart memory)
    (serves : before.translation.Serves memory base)
    (slots : ∀ address, SlottedBus.slot base address = SlottedBus.slot memory address)
    (spares : ∀ place ∈ before.translation.codePlaces before.key memory before.p,
      before.translation.SparesWord memory place)
    (same : ∀ place ∈ before.translation.codePlaces before.key memory before.p,
      byteAt base place = byteAt memory place) :
    ∃ second last, StepRuns resumed base instruction second last := by
  obtain ⟨dispatches, fetched, fetching, rfl⟩ := step
  have fetching : Execution.fetchInstruction.ending before.fetching memory =
    ((.ok instruction, fetched), middle) := fetching
  have found : before.translation.instructionAt before.fetching.key memory before.fetching.p =
      some instruction :=
    Execution.instructionAt_of_ending ⟨_, _, rfl⟩ apart .refl spares (by rw [fetching])
  obtain ⟨again, places⟩ := TranslationUnit.instructionAt_of_serves serves same found
  have spares : ∀ place ∈ before.translation.codePlaces before.key base before.p,
      before.translation.SparesWord base place := by
    rw [← places] at spares
    unfold TranslationUnit.SparesWord at spares ⊢
    simpa only [slots] using spares
  have shares : before.translation.SharesTables resumed.fetching.translation := retains.sharesTables
  have key : resumed.fetching.key = before.key := retains.key_eq
  have p : resumed.fetching.p = before.p := retains.p_eq
  obtain ⟨left, last, ends⟩ := Execution.ending_fetchInstruction shares (apart.congr slots) .refl
    (by rw [key, p]; exact spares) (by rw [key, p]; exact again)
  exact ⟨_, last, retains.dispatches dispatches calm, left, ends, rfl⟩

variable [LawfulBus μ]

theorem differsAt (step : StepRuns before memory instruction running middle)
    (shares : unit.SharesTables before.translation) (table : unit.HasPageTable memory)
    (apart : unit.TablesApart memory) : unit.DiffersAt [] memory middle := by
  obtain ⟨-, fetched, fetching, rfl⟩ := step
  have marks : before.translation.MarksTable memory middle :=
    (Execution.fetchInstruction_marks.completed fetching).2
  have only : OnlyMarks memory middle :=
    ((Execution.fetchInstruction_fetches before memory).completed fetching).marks
  have marks : unit.MarksTable memory middle := by
    obtain ⟨_, _, same⟩ := shares
    rw [same] at marks
    obtain ⟨places, inside, rewrites⟩ := marks
    exact ⟨places, inside, rewrites.slots, rewrites.others⟩
  exact {
    slots := marks.slot_eq
    segments := fun segment reached => marks.readWord_eq (table.sparesWord_segment apart reached)
    entries := fun index _ => only.readWord_or _
    bytes := fun address spares _ => marks.byteAt_eq spares }

theorem parallels (step : StepRuns before memory instruction running middle)
    (again : StepRuns resumed kept instruction second last) (retains : before.Retains resumed)
    (alike : before.translation.SearchesAlike memory kept) : running.Parallels second := by
  obtain ⟨descriptor, found, rfl⟩ := step.running_eq
  obtain ⟨other, foundToo, rfl⟩ := again.running_eq
  obtain ⟨_, _, _, _, _, _, _, _, rfl⟩ := retains
  have same : descriptor = other := by
    change before.translation.descriptorAt kept before.p.segment.toNat = some other at foundToo
    rw [TranslationUnit.descriptorAt_eq] at found foundToo
    split at found
    · cases found
    next reached =>
    rw [if_neg reached, alike.segments _ (Nat.le_of_not_lt reached), found] at foundToo
    exact Option.some.inj foundToo
  subst same
  exact ⟨_, _, rfl⟩

end

end StepRuns

/-! ## Block instructions -/

theorem Processor.Retains.execute_block [Bus μ] {before after : Processor} {memory kept : μ}
    {instruction : Instruction} {operation : BlockOperation}
    {gathering : Gathering (List Byte)} {bytes : List Byte} (retains : before.Retains after)
    (assigned : Operation.ofOpcode instruction.opcode = some (.block operation))
    (gathers : before.gathering instruction operation = some gathering)
    (ends : gathering.execution.ending after memory = ((.ok bytes, after), kept)) :
    (Execution.execute instruction).ending after memory =
      (Execution.writePieces
        (before.translation.pieces (before.addressRegister instruction.k).byteNumber bytes.length)
        bytes (before.addressRegister instruction.k)).ending after kept := by
  unfold Execution.execute
  rw [assigned]
  change (Execution.block operation instruction).ending after memory = _
  rw [Execution.ending_block ((retains.gathering_eq _ _).trans gathers), Execution.ending_bind,
    ends]
  obtain ⟨_, _, _, _, _, _, _, _, rfl⟩ := retains
  rfl

theorem Processor.untranslatable_commit_fault (processor : Processor) (address : VirtualAddress)
    (privilege : ExecutePrivilege) (condition : Condition) (completed : Bool) :
    (((processor.tracing address privilege).fault condition).commit
      completed).translation.untranslatable = address := by
  unfold Processor.fault
  split <;> cases condition <;> rfl

/-- The processor that takes up again what a step has not completed. The record of the fault is
taken back, and the action that it asked for has been dealt with. -/
def Processor.resumed (before faulted : Processor) : Processor :=
  { faulted with monitorConditions := before.monitorConditions, pending := .proceed }

theorem Processor.FaultedWith.resumes {before faulted : Processor} {condition : MonitorCondition}
    (recorded : before.FaultedWith (.monitor condition) faulted) :
    before.Retains (before.resumed faulted) := by
  obtain ⟨_, _, _, _, _, _, _, _, rfl⟩ := recorded.retains
  exact ⟨_, _, _, _, _, _, _, _, rfl⟩

/-- Enter the page of an address that does not translate. In memory the segment table says which
segment has the identifier. -/
def TranslationUnit.enterMissing [Bus μ] (unit : TranslationUnit) (memory : μ)
    (missing : VirtualAddress) (frame : HalfWord) : Activity (Option PageIndex) :=
  unit.installPage (unit.descriptorOf memory missing).asid (unit.pageOf missing.byteNumber) frame

section

variable [Bus μ]

/-- A step carries out a block instruction that has gathered some bytes when it does not find the
page where they, or what is left of them, are to be stored. -/
structure BlockFault (before : Processor) (memory : μ) (instruction : Instruction)
    (gathering : Gathering (List Byte)) (bytes : List Byte) : Prop where
  gathers : ∃ operation, Operation.ofOpcode instruction.opcode = some (.block operation) ∧
    before.gathering instruction operation = some gathering
  fails : ∃ running middle, StepRuns before memory instruction running middle ∧
    (gathering.execution.ending running middle).1.1 = .ok bytes ∧
    ((Execution.execute instruction).ending running middle).1.1 =
      .error (.monitor .pageTableSearchWithoutFind)

def Processor.destinationPlaces (processor : Processor) (memory : μ) (instruction : Instruction)
    (bytes : List Byte) : List Address :=
  let address := processor.addressRegister instruction.k
  ((processor.access .forWrite address).travel processor.translation memory
    (processor.translation.pieces address.byteNumber bytes.length)).1

def Processor.readPlaces (processor : Processor) (memory : μ) (gathering : Gathering (List Byte)) :
    List Address :=
  processor.translation.codePlaces processor.key memory processor.p ++
    gathering.places processor.translation processor.key memory

variable [SlottedBus μ] (before : Processor) (memory : μ) (instruction : Instruction)
  (gathering : Gathering (List Byte)) (bytes : List Byte)

/-- The tables are apart from each other and from what an instruction reads and has stored. -/
structure SparesTables : Prop where
  table : before.translation.HasPageTable memory
  apart : before.translation.TablesApart memory
  stored : before.translation.Outside memory (before.destinationPlaces memory instruction bytes)
  spares : ∀ place ∈ before.readPlaces memory gathering,
    before.translation.SparesWord memory place

structure SparesOperands (aborted : μ) : Prop
    extends SparesTables before memory instruction gathering bytes where
  unchanged : ∀ place ∈ before.readPlaces memory gathering,
    byteAt aborted place = byteAt memory place

/-- What a step leaves that does not find a page of the destination. -/
structure LeavesPart (faulted : Processor) (aborted : μ) : Prop where
  gathered : gathering.result before.translation before.key memory = some bytes
  retains : before.Retains (before.resumed faulted)
  differs : before.translation.DiffersAt (before.destinationPlaces memory instruction bytes) memory
    aborted
  missing : ∃ access : Access, access.address = faulted.translation.untranslatable ∧
    access.outcome before.translation memory = .error ⟨.pageFault, access.address⟩

/-- The page is there in two memories. Only what the instruction stored before it was in the second
one makes a difference, and what it reads is in both as it was. -/
structure PageEntered (present entered : μ) : Prop where
  serves : before.translation.Serves memory present
  slots : ∀ address, SlottedBus.slot present address = SlottedBus.slot memory address
  differs : before.translation.DiffersAt (before.destinationPlaces memory instruction bytes) present
    entered
  here : ∀ place ∈ before.readPlaces memory gathering, byteAt present place = byteAt memory place
  there : ∀ place ∈ before.readPlaces memory gathering, byteAt entered place = byteAt memory place

end

section

variable [Bus μ] [SlottedBus μ] [ForgetfulBus μ] [LawfulBus μ] {before faulted : Processor}
  {memory aborted present entered : μ} {instruction : Instruction}
  {gathering : Gathering (List Byte)} {bytes : List Byte} {exit : StepExit}

theorem BlockFault.leaves (fault : BlockFault before memory instruction gathering bytes)
    (aborts : (Routine.step.run before).perform memory = ((exit, faulted), aborted))
    (spares : SparesTables before memory instruction gathering bytes) :
    LeavesPart before memory instruction gathering bytes faulted aborted := by
  obtain ⟨⟨operation, assigned, gathers⟩, running, middle, step, gathered, missing⟩ := fault
  -- Until it stores something, the step leaves marks only.
  have retains := step.retains
  have shares := retains.sharesTables
  have same : before.translation.SharesTables before.translation := ⟨_, _, rfl⟩
  have fetched := step.differsAt same spares.table spares.apart
  have operands := (List.forall_mem_append.mp spares.spares).2
  have made := Gathering.result_of_ending retains.key_eq shares spares.apart fetched operands
    gathered
  obtain ⟨looked, ends, differs⟩ := Gathering.ending_of_result retains.key_eq shares spares.apart
    fetched operands made
  have stores := Execution.ending_writePieces (before.addressRegister instruction.k)
    (before.translation.sum_pieces _ _) shares spares.apart differs.toSearchesAlike
    (by rw [retains.access_eq]; exact spares.stored)
  rw [retains.execute_block assigned gathers ends] at missing
  rw [step.perform_step, retains.execute_block assigned gathers ends] at aborts
  rw [retains.access_eq] at stores
  -- What ends the instruction is where the way through the destination ends.
  generalize Execution.ending _ running looked = stored at stores missing aborts
  obtain ⟨⟨condition | _, left⟩, kept⟩ := stored
  swap
  · cases missing
  cases missing
  cases aborts
  rcases travelled : (before.access .forWrite (before.addressRegister instruction.k)).travel
    before.translation memory _ with ⟨reached, _ | fault⟩
  · rw [travelled] at stores
    cases stores.2
  · rw [travelled] at stores
    obtain ⟨stored, ended⟩ := stores
    obtain ⟨raised, rfl⟩ := Prod.mk.inj ended
    obtain ⟨access, address, outcome⟩ := Access.exists_of_travel_fault (congrArg Prod.snd travelled)
    have kind : fault.kind = .pageFault := by
      cases same : fault.kind <;> rw [Condition.ofFault, same] at raised <;>
        first | rfl | cases raised
    exact {
      gathered := made
      retains := by
        obtain ⟨descriptor, -, rfl⟩ := step.running_eq
        exact (Processor.faultedWith_of_faulted ⟨_, _, rfl⟩ ⟨_, _, rfl⟩
          (Condition.isError_ofFault ⟨.pageFault, fault.address⟩)).resumes
      differs := by
        have places : before.destinationPlaces memory instruction bytes = reached :=
          congrArg Prod.fst travelled
        rw [places]
        exact differs.trans stored
      missing := by
        rw [Processor.untranslatable_commit_fault]
        exact ⟨access, address, by rw [outcome, address, ← kind]⟩ }

omit [ForgetfulBus μ] [LawfulBus μ] in
theorem LeavesPart.spares
    (leaves : LeavesPart before memory instruction gathering bytes faulted aborted)
    (spares : SparesTables before memory instruction gathering bytes)
    (disjoint : ∀ place ∈ before.readPlaces memory gathering, cellAt memory place ∉
      (before.destinationPlaces memory instruction bytes).map (cellAt memory)) :
    SparesOperands before memory instruction gathering bytes aborted :=
  ⟨spares, fun place member =>
    leaves.differs.bytes place (spares.spares place member) (disjoint place member)⟩

omit [ForgetfulBus μ] [LawfulBus μ] in
theorem LeavesPart.pageEntered
    (leaves : LeavesPart before memory instruction gathering bytes faulted aborted)
    (spares : SparesOperands before memory instruction gathering bytes aborted) (frame : HalfWord) :
    let enter := before.translation.enterMissing memory faulted.translation.untranslatable frame
    PageEntered before memory instruction gathering bytes (enter.perform memory).2
      (enter.perform aborted).2 := by
  intro enter
  obtain ⟨access, address, missing⟩ := leaves.missing
  have differs := leaves.differs
  have here : before.translation.MarksTable memory (enter.perform memory).2 :=
    spares.table.installPage_marksTable _ _ _
  have there : before.translation.MarksTable aborted (enter.perform aborted).2 :=
    (spares.table.congr differs.slots).installPage_marksTable _ _ _
  exact {
    serves := by
      change before.translation.Serves memory ((before.translation.enterMissing memory
        faulted.translation.untranslatable frame).perform memory).2
      rw [← address]
      exact spares.table.installPage_serves spares.apart missing frame
    slots := here.slot_eq
    differs := differs.installPage spares.table spares.apart _ _ _
    here := fun place member => here.byteAt_eq (spares.spares place member)
    there := fun place member =>
      (there.byteAt_eq ((differs.sparesWord_iff place).mpr (spares.spares place member))).trans
        (spares.unchanged place member) }

namespace PageEntered

variable {resumed third second : Processor} {middle last : μ}

omit [LawfulBus μ] in
theorem steps {running : Processor}
    (page : PageEntered before memory instruction gathering bytes present entered)
    (spares : SparesOperands before memory instruction gathering bytes aborted)
    (step : StepRuns before memory instruction running middle) (retains : before.Retains resumed)
    (calm : ¬ resumed.pending.Interrupts) :
    (∃ third middle, StepRuns before present instruction third middle) ∧
      ∃ second last, StepRuns resumed entered instruction second last := by
  have code := (List.forall_mem_append.mp spares.spares).1
  have here := (List.forall_mem_append.mp page.here).1
  have there := (List.forall_mem_append.mp page.there).1
  refine ⟨step.again ⟨_, _, _, _, _, _, _, _, rfl⟩ step.dispatches.2.2 spares.apart page.serves
    page.slots code here, ?_⟩
  exact step.again retains calm spares.apart
    (page.serves.trans page.differs.toSearchesAlike.serves)
    (fun address => (page.differs.slots address).trans (page.slots address)) code there

theorem ends_alike {operation : BlockOperation}
    (page : PageEntered before memory instruction gathering bytes present entered)
    (spares : SparesOperands before memory instruction gathering bytes aborted)
    (assigned : Operation.ofOpcode instruction.opcode = some (.block operation))
    (gathers : before.gathering instruction operation = some gathering)
    (made : gathering.result before.translation before.key memory = some bytes)
    (step : StepRuns before present instruction third middle)
    (again : StepRuns resumed entered instruction second last) (retains : before.Retains resumed) :
    Execution.EndsAlike before.translation ((Execution.execute instruction).ending third middle)
      ((Execution.execute instruction).ending second last) := by
  have table := spares.table.congr page.slots
  have apart := spares.apart.congr page.slots
  have slots := page.differs.slots
  have shares : before.translation.SharesTables third.translation := step.retains.sharesTables
  have later := retains.trans again.retains
  have parallels := step.parallels again retains page.differs.toSearchesAlike
  have fetched := step.differsAt ⟨_, _, rfl⟩ table apart
  have fetchedAgain := again.differsAt retains.sharesTables (table.congr slots) (apart.congr slots)
  have operands : ∀ place ∈ gathering.places before.translation before.key memory,
      before.translation.SparesWord present place := by
    have operands := (List.forall_mem_append.mp spares.spares).2
    unfold TranslationUnit.SparesWord at operands ⊢
    simpa only [page.slots] using operands
  -- Both gather the same bytes, although they are not read from the same memory.
  obtain ⟨gathered, places⟩ := Gathering.result_of_serves page.serves
    (List.forall_mem_append.mp page.here).2 made
  obtain ⟨looked, ends, marked⟩ := Gathering.ending_of_result step.retains.key_eq shares apart
    fetched (by rwa [places]) gathered
  obtain ⟨gathered, places⟩ := Gathering.result_of_serves
    (page.serves.trans page.differs.toSearchesAlike.serves)
    (List.forall_mem_append.mp page.there).2 made
  have operandsAgain : ∀ place ∈ gathering.places before.translation before.key entered,
      before.translation.SparesWord entered place := by
    rw [places]
    exact fun place member => (page.differs.sparesWord_iff place).mpr (operands place member)
  obtain ⟨lookedAgain, endsAgain, markedAgain⟩ := Gathering.ending_of_result later.key_eq
    later.sharesTables (apart.congr slots) fetchedAgain operandsAgain gathered
  -- When they begin to store them, what was stored before is still the only difference.
  have remains := (marked.symm.trans page.differs).trans markedAgain
  rw [List.nil_append, List.append_nil] at remains
  rw [step.retains.execute_block assigned gathers ends,
    later.execute_block assigned gathers endsAgain]
  refine Execution.writePieces_again _ (before.translation.sum_pieces _ _) parallels shares
    page.serves apart marked.toSearchesAlike ?_ ?_
  · rw [step.retains.access_eq]
    exact spares.stored.congr page.slots
  · rw [step.retains.access_eq]
    exact remains

end PageEntered

/-- A block instruction that did not find a page of its destination is carried out again when the
page has been entered. It ends as it would have ended with the page there from the start, unless
what it had stored before was among what it reads. -/
theorem BlockFault.restarts (fault : BlockFault before memory instruction gathering bytes)
    (aborts : (Routine.step.run before).perform memory = ((exit, faulted), aborted))
    (spares : SparesOperands before memory instruction gathering bytes aborted)
    (frame : HalfWord) :
    let enter := before.translation.enterMissing memory faulted.translation.untranslatable frame
    let direct := (Routine.step.run before).perform (enter.perform memory).2
    let retried := (Routine.step.run (before.resumed faulted)).perform (enter.perform aborted).2
    retried.1.1 = direct.1.1 ∧ direct.1.2.Parallels retried.1.2 ∧
      before.translation.DiffersAt [] direct.2 retried.2 := by
  intro enter
  have leaves := fault.leaves aborts spares.toSparesTables
  have page : PageEntered before memory instruction gathering bytes (enter.perform memory).2
    (enter.perform aborted).2 := leaves.pageEntered spares frame
  obtain ⟨⟨operation, assigned, gathers⟩, running, middle, step, -⟩ := fault
  obtain ⟨⟨third, middle, direct⟩, second, last, retried⟩ := page.steps spares step leaves.retains
    (show ¬ Action.proceed.Interrupts by decide)
  exact direct.perform_alike retried
    (page.ends_alike spares assigned gathers leaves.gathered direct retried leaves.retains)

end

/-! A job that moves eight bytes. Of its segment two pages are there, and the next one is not. -/

def moving : Instruction := .decode .jk 0xF912 0

def movingMemory : CyclicMemory :=
  ⟨4096, ((scatteredMemory.store.set 1024 0xF912000000000000).set 2110 0xA0A1A2A3).set 2111
    0xA4A5A6A700000000⟩

def movingJob (source target : HalfWord) : Processor :=
  { (Routine.smallJob.withAddressRegister 1 ⟨11, 0, source⟩).withAddressRegister 2
      ⟨11, 0, target⟩ with
    x := Vector.replicate 16 8 }

def movingFetch (source target : HalfWord) :
    (Except Condition Instruction × Processor) × CyclicMemory :=
  Execution.fetchInstruction.ending (movingJob source target).fetching movingMemory

theorem movingJob_fault {source target : HalfWord} {bytes : List Byte}
    (fetches : (movingFetch source target).1.1 = .ok moving)
    (gathered : (((movingJob source target).copyGathering moving id).execution.ending
      ((movingFetch source target).1.2.withInstruction moving) (movingFetch source target).2).1.1 =
        .ok bytes)
    (missing : ((Execution.execute moving).ending
      ((movingFetch source target).1.2.withInstruction moving) (movingFetch source target).2).1.1 =
        .error (.monitor .pageTableSearchWithoutFind)) :
    BlockFault (movingJob source target) movingMemory moving
      ((movingJob source target).copyGathering moving id) bytes where
  gathers := ⟨.move, by decide, rfl⟩
  fails := ⟨_, _, .of_fetched ⟨rfl, rfl, Routine.smallJob_dispatches.2.2⟩
    (Eq.refl (movingFetch source target)) fetches, gathered, missing⟩

def movingAbort (source target : HalfWord) : (StepExit × Processor) × CyclicMemory :=
  (Routine.step.run (movingJob source target)).perform movingMemory

theorem movingMemory_hasPageTable : sharedUnit.HasPageTable movingMemory :=
  ⟨sharedUnit_blank.exist, sharedUnit_blank.distinct⟩

/-- Four of the bytes go to the second page before the third is found to be missing, and these and
the others once it is there. -/
theorem restarts_move :
    let before := movingJob 0x1F8 0x3FC
    let gathering := before.copyGathering moving id
    let ended := movingAbort 0x1F8 0x3FC
    let enter := before.translation.enterMissing movingMemory
      ended.1.2.translation.untranslatable 0x30
    let direct := (Routine.step.run before).perform (enter.perform movingMemory).2
    let retried := (Routine.step.run (before.resumed ended.1.2)).perform (enter.perform ended.2).2
    (BlockFault before movingMemory moving gathering (Word.toBytes 0x1122334455667788) ∧
      SparesOperands before movingMemory moving gathering (Word.toBytes 0x1122334455667788)
        ended.2) ∧
      (retried.1.1 = direct.1.1 ∧ direct.1.2.Parallels retried.1.2 ∧
        before.translation.DiffersAt [] direct.2 retried.2) ∧
      Bus.readWord retried.2 0x41F8 = 0xA4A5A6A711223344 ∧
      Bus.readWord retried.2 0x6000 = 0x5566778800000000 := by
  have fault : BlockFault (movingJob 0x1F8 0x3FC) movingMemory moving
      ((movingJob 0x1F8 0x3FC).copyGathering moving id) (Word.toBytes 0x1122334455667788) :=
    movingJob_fault (by decide +kernel) (by decide +kernel) (by decide +kernel)
  have high : (run 4 0x41FC ++ (run 2 0x2000 ++ run 8 0x21F8)).all
      (fun place => 1024 ≤ scatteredMemory.slot place) = true := by decide +kernel
  have outside (place : Address)
      (member : place ∈ run 4 0x41FC ++ (run 2 0x2000 ++ run 8 0x21F8)) :
      ¬ sharedUnit.InTables movingMemory place :=
    scatteredJob_outside (of_decide_eq_true (List.all_eq_true.mp high place member))
  have stored : (movingJob 0x1F8 0x3FC).destinationPlaces movingMemory moving
    (Word.toBytes 0x1122334455667788) = run 4 0x41FC := by decide +kernel
  have read : (movingJob 0x1F8 0x3FC).readPlaces movingMemory
    ((movingJob 0x1F8 0x3FC).copyGathering moving id) = run 2 0x2000 ++ run 8 0x21F8 := by
    decide +kernel
  have disjoint : (run 2 0x2000 ++ run 8 0x21F8).all (fun place =>
      cellAt movingMemory place ∉ (run 4 0x41FC).map (cellAt movingMemory)) = true := by
    decide +kernel
  have tables : SparesTables (movingJob 0x1F8 0x3FC) movingMemory moving
      ((movingJob 0x1F8 0x3FC).copyGathering moving id) (Word.toBytes 0x1122334455667788) := {
    table := movingMemory_hasPageTable
    apart := scatteredJob_apart
    stored := by
      rw [stored]
      exact fun place member _ => outside place (List.mem_append_left _ member)
    spares := by
      rw [read]
      exact fun place member index within same =>
        outside place (List.mem_append_right _ member) (.inr ⟨index, within, same.symm⟩) }
  have whole (ended : (StepExit × Processor) × CyclicMemory) :
    ended = ((ended.1.1, ended.1.2), ended.2) := rfl
  have aborts : (Routine.step.run (movingJob 0x1F8 0x3FC)).perform movingMemory =
    (((movingAbort 0x1F8 0x3FC).1.1, (movingAbort 0x1F8 0x3FC).1.2),
      (movingAbort 0x1F8 0x3FC).2) := whole (movingAbort 0x1F8 0x3FC)
  have spares : SparesOperands (movingJob 0x1F8 0x3FC) movingMemory moving
      ((movingJob 0x1F8 0x3FC).copyGathering moving id) (Word.toBytes 0x1122334455667788)
      (movingAbort 0x1F8 0x3FC).2 := by
    refine (fault.leaves aborts tables).spares tables fun place member => ?_
    rw [read] at member
    rw [stored]
    exact of_decide_eq_true (List.all_eq_true.mp disjoint place member)
  exact ⟨⟨fault, spares⟩, fault.restarts aborts spares 0x30, by decide +kernel, by decide +kernel⟩

/-- The first two of the bytes that are stored are the last two to be read. When the instruction is
carried out again, they are moved to the third page in place of those that were there. -/
theorem moving_overlap_not_restarted :
    let before := movingJob 0x3F4 0x3FA
    let gathering := before.copyGathering moving id
    let ended := movingAbort 0x3F4 0x3FA
    let enter := before.translation.enterMissing movingMemory
      ended.1.2.translation.untranslatable 0x30
    let direct := (Routine.step.run before).perform (enter.perform movingMemory).2
    let retried := (Routine.step.run (before.resumed ended.1.2)).perform (enter.perform ended.2).2
    BlockFault before movingMemory moving gathering (Word.toBytes 0xA0A1A2A3A4A5A6A7) ∧
      Bus.readWord direct.2 0x6000 = 0xA6A7000000000000 ∧
      Bus.readWord retried.2 0x6000 = 0xA0A1000000000000 :=
  ⟨movingJob_fault (by decide +kernel) (by decide +kernel) (by decide +kernel), by decide +kernel,
    by decide +kernel⟩

end Mainframe
