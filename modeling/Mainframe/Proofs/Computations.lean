import Mainframe.Proofs.NativeSteps
import Mainframe.Proofs.PreciseFaults

/-! Instructions whose result goes to a word register, and the steps that come to them. Such an
instruction completes in any case: a missing result leaves a condition in place of the new contents
of the register. -/

set_option autoImplicit false

namespace Mainframe

variable {μ : Type} {processor before running : Processor} {instruction : Instruction}

def Processor.receiving (processor : Processor) (number : RegisterNumber) :
    Except UserCondition Word → Processor
  | .ok value => processor.withWordRegister number value
  | .error condition => processor.raise (.user condition)

namespace Execution

theorem execute_compute {computation : Computation}
    (assigned : Operation.ofOpcode instruction.opcode = some (.compute computation)) :
    execute instruction = compute computation instruction := by
  unfold execute
  rw [assigned]
  rfl

theorem execute_settles {computation : Computation} {number : RegisterNumber}
    {result : Except UserCondition Word}
    (assigned : Operation.ofOpcode instruction.opcode = some (.compute computation))
    (outcome : computation.outcome processor instruction = .ofResult number result) :
    (execute instruction).Settles processor () (processor.receiving number result) := by
  rw [execute_compute assigned]
  refine .get ?_
  rw [outcome]
  cases result with
  | ok value => exact .modified _
  | error condition => exact .routine (.notify _ (.done _))

theorem branch_settles (reading : Reading) (relation : Relation) :
    (branch reading relation instruction).Settles processor ()
      (match processor.registerOrder instruction reading with
        | .ok order => { processor with
          nextAddress := if relation.holds order then processor.displacedTarget instruction
            else processor.nextAddress }
        | .error condition => processor.raise (.user condition)) := by
  refine .get ?_
  cases processor.registerOrder instruction reading with
  | ok order => exact branchIf_settles _
  | error condition => exact .routine (.notify _ (.done _))

end Execution

/-! ## Steps -/

theorem Runs.perform_faulted [Bus μ] {memory middle kept : μ} {left : Processor}
    {condition : Condition} (runs : Runs before memory instruction running middle)
    (ending : (Execution.execute instruction).ending running middle =
      ((.error condition, left), kept)) :
    ∃ after, (Routine.stepNative.run before).perform memory = ((.executed, after), kept) ∧
      before.FaultedWith condition after := by
  obtain ⟨error, alike⟩ := (Execution.execute_completes instruction running middle).failed ending
  refine ⟨(left.fault condition).commit condition.policy.completes, ?_, ?_⟩
  · obtain ⟨fetched, fetching, rfl⟩ := runs
    rw [Routine.perform_stepNative, fetching]
    dsimp only
    rw [ending]
  · obtain ⟨_, _, rfl⟩ := runs.begun
    obtain ⟨_, _, rfl⟩ := alike
    exact Processor.faultedWith_of_retains ⟨_, _, _, _, _, _, _, _, rfl⟩ rfl error

/-- A step comes to a native instruction: what was pending has been dealt with, which leaves the
processor `ready` to go on, and the instruction at `p` has been fetched. -/
structure Processor.ComesTo [Bus μ] (processor : Processor) (memory : μ) (ready : Processor)
    (instruction : Instruction) (running : Processor) (middle : μ) : Prop where
  going : processor.stopped = false
  resolved : (Routine.resolved processor memory).1 = ready
  continues : ready.stopped = false
  calm : ¬ ready.pending.Interrupts
  native : ready.instructionSet = .native
  runs : Runs ready (Routine.resolved processor memory).2 instruction running middle

theorem Processor.ComesTo.of_fetched [Bus μ] {memory : μ} (dispatches : processor.Dispatches)
    (fetched : (Execution.fetchInstruction.ending processor.fetching memory).1.1 =
      .ok instruction) :
    processor.ComesTo memory
      { processor with freeRunning := processor.freeRunning + 1, pending := .proceed } instruction
      ((Execution.fetchInstruction.ending processor.fetching memory).1.2.withInstruction
        instruction)
      (Execution.fetchInstruction.ending processor.fetching memory).2 := by
  obtain ⟨running, native, calm⟩ := dispatches
  have resolved : Routine.resolvePending.run
      { processor with freeRunning := processor.freeRunning + 1 } = pure ((), { processor with
        freeRunning := processor.freeRunning + 1, pending := .proceed }) :=
    Routine.run_resolvePending calm
  have ready : Routine.resolved processor memory = ({ processor with
      freeRunning := processor.freeRunning + 1, pending := .proceed }, memory) := by
    unfold Routine.resolved
    rw [resolved]
    rfl
  have proceeds : ¬ Action.proceed.Interrupts := by decide
  refine ⟨running, by rw [ready], running, proceeds, native, _, ?_, rfl⟩
  rw [ready]
  exact Prod.ext (Prod.ext fetched rfl) rfl

theorem Processor.ComesTo.perform_step [Bus μ] {memory middle : μ} {ready left : Processor}
    (comes : processor.ComesTo memory ready instruction running middle)
    (settles : (Execution.execute instruction).Settles running () left) :
    (Routine.step.run processor).perform memory = ((.executed, left.commit true), middle) := by
  obtain ⟨going, rfl, continues, calm, native, runs⟩ := comes
  have ending : (Execution.execute instruction).ending running middle = ((.ok (), left), middle) :=
    Activity.Reports.perform_eq settles middle
  exact CarriesOut.perform_step going continues calm native
    ⟨running, middle, left, runs, ending, rfl⟩

namespace Processor

/-- A word register has taken a result, or the condition in its place has been recorded. -/
def received (processor : Processor) (number : RegisterNumber) :
    Except UserCondition Word → Processor
  | .ok value => processor.withWordRegister number value
  | .error condition => processor.withCondition (.user condition)

/-- A processor has gone on to the instruction after the one at `p`, which counts as completed.
Nothing else has changed that a program can see. -/
def Advances (settled : Processor) (instruction : Instruction) (after : Processor) : Prop :=
  Retains { settled with
    p := settled.p.offset instruction.length
    retired := settled.retired + 1 } after

theorem ComesTo.perform_receiving [Bus μ] {memory middle : μ} {ready : Processor}
    {number : RegisterNumber} {result : Except UserCondition Word}
    (comes : processor.ComesTo memory ready instruction running middle)
    (settles : (Execution.execute instruction).Settles running ()
      (running.receiving number result)) :
    ∃ after, (Routine.step.run processor).perform memory = ((.executed, after), middle) ∧
      (ready.received number result).Advances instruction after := by
  refine ⟨_, comes.perform_step settles, ?_⟩
  obtain ⟨_, _, rfl⟩ := comes.runs.begun
  cases result <;> exact ⟨_, _, _, _, _, _, _, _, rfl⟩

theorem ComesTo.perform_word [Bus μ] {memory middle : μ} {ready : Processor}
    {computation : Computation} {number : RegisterNumber} {value : Word}
    (comes : processor.ComesTo memory ready instruction running middle)
    (assigned : Operation.ofOpcode instruction.opcode = some (.compute computation))
    (outcome : ∀ untranslatable privilege, computation.outcome
      ((ready.beginInstruction.tracing untranslatable privilege).withInstruction instruction)
      instruction = .word number value) :
    ∃ after, (Routine.step.run processor).perform memory = ((.executed, after), middle) ∧
      (ready.withWordRegister number value).Advances instruction after := by
  obtain ⟨untranslatable, privilege, begun⟩ := comes.runs.begun
  have computed : computation.outcome running instruction = .ofResult number (.ok value) := by
    rw [begun]
    exact outcome untranslatable privilege
  exact comes.perform_receiving (Execution.execute_settles assigned computed)

end Processor

end Mainframe
