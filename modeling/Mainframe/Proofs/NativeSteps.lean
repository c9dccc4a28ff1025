import Mainframe.Proofs.Dispatch

/-! Steps of any kind. A step deals with what is pending, and unless that ends it, goes on with one
instruction in the same step. A native instruction is fetched, carried out and committed, or its
fault is recorded. -/

set_option autoImplicit false

namespace Mainframe

variable {μ : Type} [Bus μ]

/-- The native instruction at `p` has been fetched and is about to be carried out. -/
def Runs (before : Processor) (memory : μ) (instruction : Instruction) (running : Processor)
    (middle : μ) : Prop :=
  ∃ fetched, Execution.fetchInstruction.ending before.beginInstruction memory =
    ((.ok instruction, fetched), middle) ∧ running = fetched.withInstruction instruction

/-- A native step carries out an instruction, which completes and is committed. -/
def CarriesOut (before : Processor) (memory : μ) (instruction : Instruction) (after : Processor)
    (kept : μ) : Prop :=
  ∃ running middle left, Runs before memory instruction running middle ∧
    (Execution.execute instruction).ending running middle = ((.ok (), left), kept) ∧
    after = left.commit true

/-- What a fetched instruction finds is what was there before, apart from what the fetch leaves
behind. -/
theorem Runs.begun {before running : Processor} {memory middle : μ} {instruction : Instruction}
    (runs : Runs before memory instruction running middle) :
    ∃ untranslatable privilege, running =
      (before.beginInstruction.tracing untranslatable privilege).withInstruction instruction := by
  obtain ⟨fetched, fetching, rfl⟩ := runs
  have fetch : Execution.fetchInstruction.Orderly before.beginInstruction memory _ :=
    Execution.fetchInstruction_orderly
  obtain ⟨-, _, segment, -, -, rfl⟩ := fetch.completed fetching
  exact ⟨_, _, rfl⟩

namespace Routine

omit [Bus μ] in
theorem run_step_of_stopped {processor : Processor} (stopped : processor.stopped = true) :
    step.run processor = pure (.halted, processor) := by
  unfold step
  rw [StateT.run_bind, StateT.run_get, pure_bind]
  dsimp only
  rw [if_pos stopped]
  rfl

/-- The processor and the memory once the pending action has been dealt with. -/
def resolved (processor : Processor) (memory : μ) : Processor × μ :=
  let ended := (resolvePending.run
    { processor with freeRunning := processor.freeRunning + 1 }).perform memory
  (ended.1.2, ended.2)

theorem perform_step_of_running {processor : Processor} (running : processor.stopped = false)
    (memory : μ) :
    (step.run processor).perform memory =
      let (ready, middle) := resolved processor memory
      if ready.stopped then ((.halted, ready), middle)
      else if ready.pending.Interrupts then ((.resolved, ready), middle)
      else (stepInstruction.run ready).perform middle := by
  rw [run_step_of_running running, Activity.perform_bind]
  unfold resolved
  dsimp only
  split
  · rfl
  split
  · rfl
  · rfl

end Routine

variable {before after : Processor} {memory kept : μ} {instruction : Instruction}

theorem CarriesOut.perform_eq (carries : CarriesOut before memory instruction after kept) :
    (Routine.stepNative.run before).perform memory = ((.executed, after), kept) := by
  obtain ⟨running, middle, left, ⟨fetched, fetching, rfl⟩, ending, rfl⟩ := carries
  rw [Routine.perform_stepNative, fetching]
  dsimp only
  rw [ending]

theorem CarriesOut.of_completed
    (fetched : (Execution.fetchInstruction.ending before.beginInstruction memory).1.1 =
      .ok instruction)
    (completed : ((Execution.execute instruction).ending
      ((Execution.fetchInstruction.ending before.beginInstruction memory).1.2.withInstruction
        instruction)
      (Execution.fetchInstruction.ending before.beginInstruction memory).2).1.1 = .ok ()) :
    CarriesOut before memory instruction ((Routine.stepNative.run before).perform memory).1.2
      ((Routine.stepNative.run before).perform memory).2 := by
  rw [Routine.perform_stepNative]
  rcases fetching : Execution.fetchInstruction.ending before.beginInstruction memory with
    ⟨⟨_ | found, running⟩, middle⟩
  · rw [fetching] at fetched
    cases fetched
  · rw [fetching] at fetched completed
    cases fetched
    dsimp only at completed ⊢
    rcases ending : (Execution.execute instruction).ending (running.withInstruction instruction)
      middle with ⟨⟨_ | _, left⟩, kept⟩
    · rw [ending] at completed
      cases completed
    · exact ⟨_, _, left, ⟨running, fetching, rfl⟩, ending, rfl⟩

theorem CarriesOut.perform_step (going : before.stopped = false)
    (continues : (Routine.resolved before memory).1.stopped = false)
    (calm : ¬ (Routine.resolved before memory).1.pending.Interrupts)
    (native : (Routine.resolved before memory).1.instructionSet = .native)
    (carries : CarriesOut (Routine.resolved before memory).1 (Routine.resolved before memory).2
      instruction after kept) :
    (Routine.step.run before).perform memory = ((.executed, after), kept) := by
  rw [Routine.perform_step_of_running going]
  dsimp only
  rw [if_neg (by simp [continues]), if_neg calm, Routine.run_stepInstruction native,
    carries.perform_eq]

namespace Routine

inductive NativeStepEnds (before : Processor) (memory : μ) (after : Processor) : Prop where
  | unfetched (condition : Condition) (left : Processor) (error : condition.IsError)
      (alike : before.beginInstruction.Resembles left) (recorded : after = left.raise condition)
  | faulted (instruction : Instruction) (running : Processor) (middle : μ) (condition : Condition)
      (left : Processor) (runs : Runs before memory instruction running middle)
      (error : condition.IsError) (alike : running.Resembles left)
      (recorded : after = (left.fault condition).commit condition.policy.completes)
  | completed (instruction : Instruction) (running : Processor) (middle : μ) (left : Processor)
      (kept : μ) (runs : Runs before memory instruction running middle)
      (ending : (Execution.execute instruction).ending running middle = ((.ok (), left), kept))
      (completion : Completion instruction running middle left)
      (committed : after = left.commit true)

theorem stepNative_ends (before : Processor) (memory : μ) :
    NativeStepEnds before memory ((stepNative.run before).perform memory).1.2 := by
  rw [perform_stepNative]
  have fetch : Execution.fetchInstruction.Orderly before.beginInstruction memory _ :=
    Execution.fetchInstruction_orderly
  rcases fetching : Execution.fetchInstruction.ending before.beginInstruction memory with
    ⟨⟨condition | instruction, fetched⟩, middle⟩
  · obtain ⟨error, alike⟩ := fetch.failed fetching
    exact .unfetched condition fetched error alike rfl
  · have runs : Runs before memory instruction (fetched.withInstruction instruction) middle :=
      ⟨fetched, fetching, rfl⟩
    have conduct := Execution.execute_completes instruction (fetched.withInstruction instruction)
      middle
    dsimp only
    rcases ending : (Execution.execute instruction).ending (fetched.withInstruction instruction)
      middle with ⟨⟨condition | _, left⟩, kept⟩
    · obtain ⟨error, alike⟩ := conduct.failed ending
      exact .faulted instruction _ middle condition left runs error alike rfl
    · exact .completed instruction _ middle left kept runs ending (conduct.completed ending) rfl

end Routine

end Mainframe
