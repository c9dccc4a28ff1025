import Mainframe.Machine.Basic
import Mainframe.Proofs.Dispatch

/-! Faults are precise. A step whose instruction ends in an error records one condition and asks
for its delivery; nothing else that a program can see has changed, and the instruction is the
next one again. A step whose instruction completes counts it. -/

set_option autoImplicit false

namespace Mainframe

theorem Action.interrupts_max (left : Action) {right : Action} (severe : right.Interrupts) :
    (max left right).Interrupts := by
  have most := severity_max left right
  have enough : severity .trap ≤ right.severity := severe
  change severity .trap ≤ (max left right).severity
  omega

namespace Condition

theorem IsError.interrupts {condition : Condition} (error : condition.IsError)
    (processor : Processor) : (processor.actionOf condition).Interrupts := by
  -- No mask, no mode and no trap enable defers an error.
  have always : ∀ selected monitorMode enabled,
      (Policy.monitorError.action selected monitorMode enabled).Interrupts ∧
        (Policy.userFault.action selected monitorMode enabled).Interrupts := by decide
  rcases error with same | same
  · rw [Processor.actionOf, same]
    exact (always _ _ _).1
  · rw [Processor.actionOf, same]
    exact (always _ _ _).2

theorem IsError.retainsAddress {condition : Condition} (error : condition.IsError) :
    condition.policy.retainsAddress = true := by
  rcases error with same | same <;> rw [same] <;> rfl

theorem IsError.not_completes {condition : Condition} (error : condition.IsError) :
    condition.policy.completes = false := by
  rcases error with same | same <;> rw [same] <;> rfl

end Condition

namespace Processor

/-- The processor differs from an earlier one in nothing but the count of steps, the pending
action, the registers of the running instruction, and what translations leave behind. -/
def Retains (before after : Processor) : Prop :=
  ∃ untranslatable executePrivilege pending instruction currentAddress nextAddress nextKey
    freeRunning, after = { before with
      translation := { before.translation with untranslatable, executePrivilege }
      pending, instruction, currentAddress, nextAddress, nextKey, freeRunning }

namespace Retains

variable {first second third : Processor}

theorem trans (before : first.Retains second) (after : second.Retains third) :
    first.Retains third := by
  obtain ⟨_, _, _, _, _, _, _, _, rfl⟩ := before
  obtain ⟨_, _, _, _, _, _, _, _, rfl⟩ := after
  exact ⟨_, _, _, _, _, _, _, _, rfl⟩

theorem of_resembles (alike : first.Resembles second) : first.Retains second := by
  obtain ⟨untranslatable, privilege, rfl⟩ := alike
  exact ⟨_, _, _, _, _, _, _, _, rfl⟩

theorem withCondition (retains : first.Retains second) (condition : Condition) :
    (first.withCondition condition).Retains (second.withCondition condition) := by
  obtain ⟨_, _, _, _, _, _, _, _, rfl⟩ := retains
  cases condition <;> exact ⟨_, _, _, _, _, _, _, _, rfl⟩

end Retains

/-- A condition was recorded in one register of conditions and calls for a trap or more. Nothing
else has changed. -/
structure FaultedWith (before : Processor) (condition : Condition) (after : Processor) : Prop where
  retains : (before.withCondition condition).Retains after
  interrupts : after.pending.Interrupts

variable {processor left : Processor} {condition : Condition}

theorem interrupts_raise (error : condition.IsError) : (left.raise condition).pending.Interrupts := by
  have action : (left.raise condition).pending = max left.pending (left.actionOf condition) := by
    cases condition <;> rfl
  rw [action]
  exact Action.interrupts_max _ (error.interrupts left)

theorem retains_fetching (processor : Processor) : processor.Retains processor.fetching :=
  ⟨_, _, _, _, _, _, _, _, rfl⟩

theorem retains_withInstruction (processor : Processor) (instruction : Instruction) :
    processor.Retains (processor.withInstruction instruction) := ⟨_, _, _, _, _, _, _, _, rfl⟩

theorem retains_running {fetched : Processor} (fetch : processor.fetching.Resembles fetched)
    (instruction : Instruction) : processor.Retains (fetched.withInstruction instruction) :=
  (processor.retains_fetching.trans (.of_resembles fetch)).trans
    (fetched.retains_withInstruction instruction)

theorem retains_escalate (processor : Processor) (action : Action) :
    processor.Retains (processor.escalate action) := ⟨_, _, _, _, _, _, _, _, rfl⟩

theorem faultedWith_of_unfetched (alike : processor.fetching.Resembles left)
    (error : condition.IsError) : processor.FaultedWith condition (left.raise condition) where
  retains := ((processor.retains_fetching.trans (.of_resembles alike)).withCondition
    condition).trans (retains_escalate _ _)
  interrupts := interrupts_raise error

theorem faultedWith_of_retains (begun : processor.Retains left)
    (here : left.currentAddress = left.p) (error : condition.IsError) :
    processor.FaultedWith condition
      ((left.fault condition).commit condition.policy.completes) := by
  have fault : left.fault condition = { left.raise condition with
      nextAddress := left.currentAddress
      nextKey := left.key } := if_pos ⟨error.retainsAddress, error.interrupts left⟩
  rw [fault, error.not_completes]
  refine ⟨(begun.withCondition condition).trans ?_, interrupts_raise error⟩
  rw [here]
  cases condition <;> exact ⟨_, _, _, _, _, _, _, _, rfl⟩

theorem faultedWith_of_faulted {instruction : Instruction} {fetched : Processor}
    (fetch : processor.fetching.Resembles fetched)
    (alike : (fetched.withInstruction instruction).Resembles left) (error : condition.IsError) :
    processor.FaultedWith condition
      ((left.fault condition).commit condition.policy.completes) := by
  have here : left.currentAddress = left.p := by
    obtain ⟨_, _, rfl⟩ := fetch
    obtain ⟨_, _, rfl⟩ := alike
    rfl
  exact faultedWith_of_retains ((retains_running fetch instruction).trans (.of_resembles alike))
    here error

end Processor

/-! ## Steps -/

variable {μ : Type} [Bus μ]

/-- What a step that dispatches comes to: it is aborted by a fault of the fetch, or carries out an
instruction that faults or completes. -/
inductive StepEnds (processor : Processor) (memory : μ) (ended : StepExit × Processor) : Prop where
  | unfetched (condition : Condition) (left : Processor) (kept : μ)
      (fetching : Execution.fetchInstruction.ending processor.fetching memory =
        ((.error condition, left), kept))
      (aborted : ended.1 = .aborted) (faulted : processor.FaultedWith condition ended.2)
  | faulted (instruction : Instruction) (fetched left : Processor) (middle kept : μ)
      (condition : Condition) (fetches : Fetches processor memory instruction fetched middle)
      (ending : (Execution.execute instruction).ending (fetched.withInstruction instruction)
        middle = ((.error condition, left), kept))
      (executed : ended.1 = .executed) (faulted : processor.FaultedWith condition ended.2)
  | completed (instruction : Instruction) (fetched left : Processor) (middle kept : μ)
      (fetches : Fetches processor memory instruction fetched middle)
      (ending : (Execution.execute instruction).ending (fetched.withInstruction instruction)
        middle = ((.ok (), left), kept))
      (completion : Completion instruction (fetched.withInstruction instruction) middle left)
      (executed : ended.1 = .executed) (committed : ended.2 = left.commit true)

namespace Routine

variable {processor : Processor}

theorem step_ends (dispatches : processor.Dispatches) (memory : μ) :
    StepEnds processor memory ((step.run processor).perform memory).1 := by
  have fetch := Execution.fetchInstruction_fetches processor memory
  rw [perform_step dispatches]
  rcases fetching : Execution.fetchInstruction.ending processor.fetching memory with
    ⟨⟨condition | instruction, fetched⟩, middle⟩
  · obtain ⟨error, alike⟩ := fetch.failed fetching
    exact .unfetched condition fetched middle fetching rfl
      (Processor.faultedWith_of_unfetched alike error)
  · have fetches := fetch.completed fetching
    have conduct := Execution.execute_completes instruction (fetched.withInstruction instruction)
      middle
    dsimp only
    rcases ending : (Execution.execute instruction).ending (fetched.withInstruction instruction)
      middle with ⟨⟨condition | _, left⟩, kept⟩
    · obtain ⟨error, alike⟩ := conduct.failed ending
      exact .faulted instruction fetched left middle kept condition fetches ending rfl
        (Processor.faultedWith_of_faulted fetches.resembles alike error)
    · exact .completed instruction fetched left middle kept fetches ending
        (conduct.completed ending) rfl rfl

/-- A failed fetch and an instruction that faults change nothing but that they record one error.
An instruction that completes is counted. -/
theorem step_precise (dispatches : processor.Dispatches) (memory : μ) :
    let ended := ((step.run processor).perform memory).1
    match Execution.fetchInstruction.ending processor.fetching memory with
    | ((.error condition, _), _) => ended.1 = .aborted ∧ processor.FaultedWith condition ended.2
    | ((.ok instruction, fetched), middle) =>
      match (Execution.execute instruction).ending (fetched.withInstruction instruction) middle with
      | ((.error condition, _), _) =>
        ended.1 = .executed ∧ processor.FaultedWith condition ended.2
      | ((.ok _, _), _) => ended.1 = .executed ∧ ended.2.retired = processor.retired + 1 := by
  intro ended
  cases step_ends dispatches memory with
  | unfetched condition left kept fetching aborted faulted =>
    rw [fetching]
    exact ⟨aborted, faulted⟩
  | faulted instruction fetched left middle kept condition fetches ending executed faulted =>
    rw [fetches.ending]
    dsimp only
    rw [ending]
    exact ⟨executed, faulted⟩
  | completed instruction fetched left middle kept fetches ending completion executed committed =>
    rw [fetches.ending]
    dsimp only
    rw [ending]
    -- Only committing counts: neither the fetch nor the instruction does.
    have counted : left.retired = processor.retired := by
      rw [completion.bookkeeping.1]
      obtain ⟨_, _, rfl⟩ := fetches.resembles
      rfl
    have commits : ended.2.retired = left.retired + 1 := congrArg Processor.retired committed
    exact ⟨executed, by rw [commits, counted]⟩

/-! A job in ring eleven whose only segment has one page, all zeros, at frame sixteen. The opcode
zero is that of a privileged instruction. -/

def smallMemory : CyclicMemory :=
  ⟨4096, (WordStore.empty.set 0 0x6ABB000000000000).set 512 0x8000000000000010⟩

def smallJob : Processor :=
  { Processor.initial 0 .standard with
    p := ⟨11, 0, 0⟩
    a := Vector.replicate 16 ⟨11, 0, 0x100⟩
    monitorMode := false
    translation := { TranslationUnit.initial with pageTable := 0x1000 } }

theorem smallJob_dispatches : smallJob.Dispatches := ⟨rfl, rfl, by decide⟩

theorem step_precise_halt :
    smallJob.Dispatches ∧
      ((step.run smallJob).perform smallMemory).1.1 = .executed ∧
      smallJob.FaultedWith (.user .privilegedInstruction)
        ((step.run smallJob).perform smallMemory).1.2 :=
  ⟨smallJob_dispatches, step_precise smallJob_dispatches smallMemory⟩

end Routine

end Mainframe
