import Mainframe.Proofs.PreciseFaults

/-! Confinement of programs without privilege. In job mode code of a segment that is not
privileged changes none of the registers that govern the processor, clears no monitor condition,
and turns traps on only by returning from one. -/

set_option autoImplicit false

namespace Mainframe

/-- The registers that govern the processor, for the monitor alone to change. -/
structure PrivilegedState where
  segmentTable : HalfWord
  segmentLimit : SegmentNumber
  pageTable : HalfWord
  pageTableLength : Byte
  pageSizeMask : BitVec 7
  monitorMask : ConditionBits
  monitorPackage : HalfWord
  jobPackage : HalfWord
  systemTimer : HalfWord
  monitorMode : Bool
  baseConstant : Word
  trapPointer : Word
  debugList : Word
  debugMask : BitVec 16
  keypointMask : BitVec 16
  lastProcessor : Byte
  virtualMachine : Byte
  stopped : Bool
  interruptRequest : Option Nat

def Processor.privilegedState (processor : Processor) : PrivilegedState where
  segmentTable := processor.translation.segmentTable
  segmentLimit := processor.translation.segmentLimit
  pageTable := processor.translation.pageTable
  pageTableLength := processor.translation.pageTableLength
  pageSizeMask := processor.translation.pageSizeMask
  monitorMask := processor.monitorMask
  monitorPackage := processor.monitorPackage
  jobPackage := processor.jobPackage
  systemTimer := processor.systemTimer
  monitorMode := processor.monitorMode
  baseConstant := processor.baseConstant
  trapPointer := processor.trapPointer
  debugList := processor.debugList
  debugMask := processor.debugMask
  keypointMask := processor.keypointMask
  lastProcessor := processor.lastProcessor
  virtualMachine := processor.virtualMachine
  stopped := processor.stopped
  interruptRequest := processor.interruptRequest

/-- Nothing that governs the processor has changed, and no monitor condition was cleared. -/
structure Processor.Subject (before after : Processor) : Prop where
  privilegedState : after.privilegedState = before.privilegedState
  monitorConditions : ∀ place, before.monitorConditions.getLsbD place = true →
    after.monitorConditions.getLsbD place = true

/-- The instruction is a return from a frame, at A2, that its third word marks as that of a
trap. -/
def LeavesTrap {μ : Type} [Bus μ] (instruction : Instruction) (processor : Processor)
    (memory : μ) : Prop :=
  Operation.ofOpcode instruction.opcode = some (.transfer .returnFromCall) ∧
    ∃ count words kept second,
      (Execution.loadWords count (processor.addressRegister 2)).ending processor memory =
        ((.ok words, processor), kept) ∧
      words[2]? = some second ∧ (FrameDescriptor.ofBits (tagOf second)).isTrap = true

namespace Processor.Subject

variable {first second third : Processor}

theorem trans (before : first.Subject second) (after : second.Subject third) :
    first.Subject third where
  privilegedState := after.privilegedState.trans before.privilegedState
  monitorConditions place held := after.monitorConditions place (before.monitorConditions place held)

theorem of_eq (privileged : second.privilegedState = first.privilegedState)
    (conditions : second.monitorConditions = first.monitorConditions) : first.Subject second where
  privilegedState := privileged
  monitorConditions _ held := conditions ▸ held

theorem withCondition (processor : Processor) (condition : Condition) :
    processor.Subject (processor.withCondition condition) := by
  cases condition with
  | monitor condition =>
    refine ⟨rfl, fun place held => ?_⟩
    change (processor.monitorConditions ||| _).getLsbD place = true
    rw [BitVec.getLsbD_or, held, Bool.true_or]
  | user condition => exact .of_eq rfl rfl

theorem raise (processor : Processor) (condition : Condition) :
    processor.Subject (processor.raise condition) :=
  (withCondition processor condition).trans (.of_eq rfl rfl)

theorem rescanned (processor : Processor) : processor.Subject processor.rescanned := by
  obtain ⟨monitor, user, pending, same⟩ := processor.rescanned_eq
  rw [same]
  refine ⟨rfl, fun place held => ?_⟩
  rw [BitVec.getLsbD_or, held, Bool.true_or]

theorem of_retains (retains : first.Retains second) : first.Subject second := by
  obtain ⟨_, _, _, _, _, _, _, _, rfl⟩ := retains
  exact .of_eq rfl rfl

end Processor.Subject

/-! ## Completed instructions -/

variable {μ : Type} [Bus μ]

namespace Processor

variable {processor left : Processor} {instruction : Instruction} {memory : μ}

theorem not_mayUse (job : processor.monitorMode = false)
    (plain : processor.translation.executePrivilege = .nonPrivileged) :
    processor.mayUse .localPrivileged = false ∧ processor.mayUse .globalPrivileged = false := by
  unfold mayUse
  rw [job, plain]
  decide

@[simp] theorem trapControl_rescanned (processor : Processor) :
    processor.rescanned.trapControl = processor.trapControl := by
  obtain ⟨_, _, _, same⟩ := processor.rescanned_eq
  rw [same]

theorem subject_withStateRegister {register : StateRegister}
    (open_ : register.isPrivileged = false) (word : Word) :
    processor.Subject (processor.withStateRegister register word) ∧
      (processor.withStateRegister register word).trapControl = processor.trapControl := by
  cases register
  case userMask | userConditions | processTimer | flags => exact ⟨.of_eq rfl rfl, rfl⟩
  all_goals cases open_

end Processor

theorem Completion.subject {instruction : Instruction} {processor left : Processor} {memory : μ}
    (job : processor.monitorMode = false)
    (plain : processor.translation.executePrivilege = .nonPrivileged)
    (completion : Completion instruction processor memory left) :
    processor.Subject left ∧ (left.trapControl = processor.trapControl ∨
      LeavesTrap instruction processor memory ∧
        left.trapControl = { processor.trapControl with enabled := true }) := by
  -- An instruction that asks for a privilege, or for monitor mode, has not completed.
  obtain ⟨noLocal, noGlobal⟩ := Processor.not_mayUse job plain
  cases completion with
  | moved | exchanged => exact ⟨.of_eq rfl rfl, .inl rfl⟩
  | raised condition => exact ⟨.raise _ _, .inl rfl⟩
  | calledMonitor => exact ⟨.raise _ _, .inl rfl⟩
  | cleared target permitted =>
    cases operand : Processor.conditionOperand instruction with
    | monitor condition =>
      rw [permitted (by rw [operand]; rfl)] at job
      cases job
    | user condition => exact ⟨.of_eq rfl rfl, .inl rfl⟩
  | calledNear binding top argument =>
    obtain ⟨_, _, _, same⟩ := processor.called_eq _ top argument
    rw [same]
    exact ⟨.of_eq rfl rfl, .inl rfl⟩
  | calledFar entry word segment top argument =>
    obtain ⟨_, _, _, same⟩ := processor.called_eq entry top argument
    rw [same]
    exact ⟨.of_eq rfl rfl, .inl rfl⟩
  | returned zeroth first second third addresses words kept operation returns =>
    obtain ⟨_, _, _, _, _, same⟩ :=
      processor.returned_eq zeroth first second third addresses words
    unfold Processor.leaving
    dsimp only
    rw [same]
    split
    · -- The frame of a trap turns traps on, and conditions are looked at again.
      next isTrap =>
      refine ⟨.trans ?_ (.rescanned _), .inr ⟨⟨operation, ?_⟩, ?_⟩⟩
      · exact .of_eq rfl rfl
      · exact ⟨_, _, kept, second, returns.loaded, rfl, isTrap⟩
      · rw [Processor.trapControl_rescanned]
        rfl
    · exact ⟨.of_eq rfl rfl, .inl rfl⟩
  | halted permitted => rw [noGlobal] at permitted; cases permitted
  | interrupted _ permitted => rw [noLocal] at permitted; cases permitted
  | governed register word permitted =>
    have open_ : register.isPrivileged = false := by
      cases isPrivileged : register.isPrivileged with
      | false => rfl
      | true =>
        rw [noLocal] at permitted
        exact (permitted isPrivileged).symm
    obtain ⟨subject, traps⟩ := processor.subject_withStateRegister open_ word
    dsimp only
    split
    · exact ⟨subject.trans (.rescanned _), .inl (by rw [Processor.trapControl_rescanned, traps])⟩
    · exact ⟨subject, .inl traps⟩
  | noted code =>
    refine ⟨.trans ?_ (.raise _ _), .inl rfl⟩
    exact .of_eq rfl rfl

/-! ## Steps -/

theorem Fetches.privilege_eq [LawfulBus μ] {processor fetched : Processor} {memory middle : μ}
    {instruction : Instruction} {segment : SegmentDescriptor}
    (fetches : Fetches processor memory instruction fetched middle)
    (code : processor.translation.descriptorAt memory processor.p.segment.toNat = some segment) :
    fetched.translation.executePrivilege = segment.execute := by
  -- The descriptor was read when the fetch had marked pages, which leaves its privilege alone.
  obtain ⟨marked, found, marks, there, rfl⟩ := fetches.privilege
  obtain ⟨read, here⟩ := processor.translation.descriptorAt_marks marks there
  rw [code] at here
  cases here
  rfl

namespace Processor

variable {before after : Processor} {condition : Condition}

theorem Retains.trapControl_eq (retains : before.Retains after) :
    after.trapControl = before.trapControl := by
  obtain ⟨_, _, _, _, _, _, _, _, rfl⟩ := retains
  rfl

theorem FaultedWith.subject (faulted : before.FaultedWith condition after) :
    before.Subject after :=
  (Subject.withCondition before condition).trans (.of_retains faulted.retains)

theorem FaultedWith.trapControl_eq (faulted : before.FaultedWith condition after) :
    after.trapControl = before.trapControl := by
  rw [faulted.retains.trapControl_eq]
  cases condition <;> rfl

end Processor

namespace Routine

variable {processor : Processor}

/-- In job mode an instruction in a segment without privilege changes nothing that governs the
processor, and traps at most by returning from one. -/
theorem step_subject [LawfulBus μ] (dispatches : processor.Dispatches)
    (job : processor.monitorMode = false) (memory : μ) {segment : SegmentDescriptor}
    (code : processor.translation.descriptorAt memory processor.p.segment.toNat = some segment)
    (plain : segment.execute = .nonPrivileged) :
    let after := ((step.run processor).perform memory).1.2
    processor.Subject after ∧
      (after.trapControl = processor.trapControl ∨
        after.trapControl = { processor.trapControl with enabled := true } ∧
          ∃ instruction fetched middle left kept,
            Fetches processor memory instruction fetched middle ∧
            (Execution.execute instruction).ending (fetched.withInstruction instruction) middle =
              ((.ok (), left), kept) ∧
            LeavesTrap instruction (fetched.withInstruction instruction) middle) := by
  intro after
  cases step_ends dispatches memory with
  | unfetched condition left kept fetching aborted faulted =>
    exact ⟨faulted.subject, .inl faulted.trapControl_eq⟩
  | faulted instruction fetched left middle kept condition fetches ending executed faulted =>
    exact ⟨faulted.subject, .inl faulted.trapControl_eq⟩
  | completed instruction fetched left middle kept fetches ending completion executed committed =>
    -- The instruction runs with the privilege of its segment, in the mode in which the step began.
    have privilege := (fetches.privilege_eq code).trans plain
    have running := Processor.retains_running fetches.resembles instruction
    have begun := Processor.Subject.of_retains running
    have mode := (congrArg PrivilegedState.monitorMode begun.privilegedState).trans job
    have control := running.trapControl_eq
    obtain ⟨subject, traps⟩ := completion.subject mode privilege
    have last : after = left.commit true := committed
    rw [last]
    refine ⟨(begun.trans subject).trans (.of_eq rfl rfl), ?_⟩
    rw [control] at traps
    rcases traps with unchanged | ⟨leaves, changed⟩
    · exact .inl unchanged
    · exact .inr ⟨changed, instruction, fetched, middle, left, kept, fetches, ending, leaves⟩

theorem step_subject_halt :
    smallJob.Dispatches ∧ smallJob.monitorMode = false ∧
      (∃ segment, smallJob.translation.descriptorAt smallMemory 0 = some segment ∧
        segment.execute = .nonPrivileged) ∧
      smallJob.Subject ((step.run smallJob).perform smallMemory).1.2 := by
  have code : smallJob.translation.descriptorAt smallMemory smallJob.p.segment.toNat =
      some (.ofWord 0x6ABB000000000000) := rfl
  exact ⟨smallJob_dispatches, rfl, ⟨_, code, rfl⟩,
    (step_subject smallJob_dispatches rfl smallMemory code rfl).1⟩

end Routine

end Mainframe
