import Mainframe.Processor.Step
import Mainframe.Proofs.Instructions

/-! A step that dispatches an instruction: the instruction is fetched, carried out and committed,
or the fault of the fetch or of the instruction is recorded. -/

set_option autoImplicit false

namespace Mainframe

variable {μ : Type} [Bus μ]

namespace Processor

/-- The next step fetches a native instruction, whatever is pending. -/
def Dispatches (processor : Processor) : Prop :=
  processor.stopped = false ∧ processor.instructionSet = .native ∧
    ¬ processor.pending.Interrupts

def fetching (processor : Processor) : Processor :=
  { processor with
    freeRunning := processor.freeRunning + 1
    pending := .proceed }.beginInstruction

end Processor

/-! ## Fetching -/

namespace Execution

variable {processor : Processor} {memory : μ}

theorem fetchParcel_orderly (address : VirtualAddress) :
    (fetchParcel address).Orderly processor memory fun _ left kept =>
      OnlyMarks memory kept ∧ ∃ segment,
        processor.translation.descriptorAt memory address.segment.toNat = some segment ∧
        left = processor.tracing processor.translation.untranslatable segment.execute := by
  unfold fetchParcel
  extract_lets fetch
  split
  · exact .failThen (.faultAt address rfl)
  refine .bind (Orderly.translate.mono fun real left kept found => ?_)
  obtain ⟨segment, lookup, translates, rfl, rfl, rfl⟩ := found
  refine ⟨processor.resembles_afterTranslation _ _, ?_⟩
  refine (Inspects.reading (.readWord _)).andThen fun word kept marks _ => .done ?_
  exact ⟨(OnlyMarks.mark_page translates _).trans marks, segment, translates.segment, rfl⟩

theorem fetchInstruction_orderly :
    fetchInstruction.Orderly processor memory fun _ left kept =>
      OnlyMarks memory kept ∧ ∃ middle segment, OnlyMarks memory middle ∧
        processor.translation.descriptorAt middle processor.p.segment.toNat = some segment ∧
        left = processor.tracing processor.translation.untranslatable segment.execute := by
  refine .get (.bind ((fetchParcel_orderly processor.p).mono fun parcel left kept fetched => ?_))
  obtain ⟨marks, segment, found, rfl⟩ := fetched
  refine ⟨⟨_, _, rfl⟩, ?_⟩
  extract_lets format decode
  split
  · refine .bind ((fetchParcel_orderly _).mono fun parcel left later fetched => ?_)
    obtain ⟨more, segment, found, rfl⟩ := fetched
    exact ⟨⟨_, _, rfl⟩, .done ⟨marks.trans more, kept, segment, marks, found, rfl⟩⟩
  · exact .done ⟨marks, memory, segment, .refl, found, rfl⟩

section

variable (leaves : Processor → μ → μ → Prop)
  (translates : ∀ {processor left : Processor} {memory kept : μ} {address : VirtualAddress}
    {real : Address}, (translate address .forExecute).ending processor memory =
      ((.ok real, left), kept) → leaves processor memory kept)

include translates

theorem fetchParcel_leaves (address : VirtualAddress) :
    (fetchParcel address).Orderly processor memory fun _ left kept =>
      processor.Resembles left ∧ leaves processor memory kept := by
  unfold fetchParcel
  extract_lets fetch
  split
  · exact .failThen (.faultAt address rfl)
  refine .bind (Orderly.translate.with_ending.mono fun real left kept found => ?_)
  obtain ⟨⟨descriptor, lookup, -, -, rfl, -⟩, ending⟩ := found
  have alike := processor.resembles_afterTranslation .forExecute descriptor.execute
  refine ⟨alike, ?_⟩
  exact (Checks.reading (.readWord _)).andThen fun word _ => .done ⟨alike, translates ending⟩

/-- Whatever holds of the memory that each translation leaves holds of the memory that a fetch
leaves, which translates the addresses of one or two parcels and writes nothing. -/
theorem fetchInstruction_leaves
    (joined : ∀ {processor left : Processor} {memory kept last : μ}, processor.Resembles left →
      leaves processor memory kept → leaves left kept last → leaves processor memory last) :
    fetchInstruction.Orderly processor memory fun _ left kept =>
      processor.Resembles left ∧ leaves processor memory kept := by
  refine .get (.bind ((fetchParcel_leaves leaves translates processor.p).mono
    fun parcel left kept fetched => ?_))
  obtain ⟨alike, first⟩ := fetched
  refine ⟨alike, ?_⟩
  extract_lets format decode
  split
  · refine .bind ((fetchParcel_leaves leaves translates _).mono fun parcel later last fetched => ?_)
    obtain ⟨again, second⟩ := fetched
    exact ⟨again, .done ⟨alike.trans again, joined alike first second⟩⟩
  · exact .done ⟨alike, first⟩

end

end Execution

/-- The instruction at `p` can be fetched. Apart from marks of use in memory, only the privilege
of its segment is left behind. -/
structure Fetches (processor : Processor) (memory : μ) (instruction : Instruction)
    (fetched : Processor) (middle : μ) : Prop where
  ending : Execution.fetchInstruction.ending processor.fetching memory =
    ((.ok instruction, fetched), middle)
  marks : OnlyMarks memory middle
  privilege : ∃ marked segment, OnlyMarks memory marked ∧
    processor.translation.descriptorAt marked processor.p.segment.toNat = some segment ∧
    fetched = processor.fetching.tracing processor.translation.untranslatable segment.execute

theorem Fetches.resembles {processor fetched : Processor} {memory middle : μ}
    {instruction : Instruction} (fetches : Fetches processor memory instruction fetched middle) :
    processor.fetching.Resembles fetched := by
  obtain ⟨_, _, _, _, same⟩ := fetches.privilege
  exact ⟨_, _, same⟩

theorem Execution.fetchInstruction_fetches (processor : Processor) (memory : μ) :
    Execution.fetchInstruction.Orderly processor.fetching memory fun instruction fetched middle =>
      Fetches processor memory instruction fetched middle := by
  apply Execution.fetchInstruction_orderly.with_ending.mono
  intro instruction fetched middle found
  obtain ⟨⟨marks, privilege⟩, ending⟩ := found
  exact ⟨ending, marks, privilege⟩

/-! ## One step -/

namespace Routine

theorem run_dispatch (instruction : Instruction) (processor : Processor) :
    (dispatch instruction).run processor =
      (Execution.execute instruction).course (processor.withInstruction instruction) >>= fun ended =>
        match ended with
        | (.ok (), left) => pure ((), left.commit true)
        | (.error condition, left) =>
          .notify ⟨(left.fault condition).number, .raised condition (left.actionOf condition)⟩
            (pure ((), (left.fault condition).commit condition.policy.completes)) := by
  unfold dispatch
  rw [StateT.run_bind, StateT.run_modify, pure_bind, StateT.run_bind]
  unfold Execution.course
  congr 1
  funext ended
  rcases ended with ⟨condition | result, left⟩
  · rfl
  · rfl

theorem run_stepNative (processor : Processor) :
    stepNative.run processor =
      Execution.fetchInstruction.course processor.beginInstruction >>= fun ended =>
        match ended with
        | (.ok instruction, left) => (dispatch instruction).run left >>= fun ended =>
          pure (.executed, ended.2)
        | (.error condition, left) =>
          .notify ⟨(left.raise condition).number, .raised condition (left.actionOf condition)⟩
            (pure (.aborted, left.raise condition)) := by
  unfold stepNative
  rw [StateT.run_bind, StateT.run_modify, pure_bind, StateT.run_bind]
  unfold Execution.course
  congr 1
  funext ended
  rcases ended with ⟨condition | result, left⟩
  · rfl
  · rfl

theorem run_resolvePending {processor : Processor} (calm : ¬ processor.pending.Interrupts) :
    resolvePending.run processor = pure ((), { processor with pending := .proceed }) := by
  unfold resolvePending
  rw [StateT.run_bind, StateT.run_get, pure_bind, StateT.run_bind, StateT.run_set, pure_bind]
  cases pending : processor.pending with
  | proceed | stack => rfl
  | trap | exchange | halt =>
    -- These actions interrupt.
    rw [pending] at calm
    exact absurd (by decide) calm

theorem run_stepInstruction {processor : Processor} (native : processor.instructionSet = .native) :
    stepInstruction.run processor = stepNative.run processor := by
  unfold stepInstruction
  rw [StateT.run_bind, StateT.run_get, pure_bind]
  dsimp only
  rw [native]

theorem run_stepInstruction_legacy {processor : Processor} {registers : LegacyRegisters}
    (older : processor.instructionSet = .legacy registers) :
    stepInstruction.run processor = (stepLegacy registers).run processor := by
  unfold stepInstruction
  rw [StateT.run_bind, StateT.run_get, pure_bind]
  dsimp only
  rw [older]

theorem run_step_of_running {processor : Processor} (running : processor.stopped = false) :
    step.run processor =
      resolvePending.run { processor with freeRunning := processor.freeRunning + 1 } >>=
        fun ended =>
          if ended.2.stopped then pure (.halted, ended.2)
          else if ended.2.pending.Interrupts then pure (.resolved, ended.2)
          else stepInstruction.run ended.2 := by
  have going : ¬ processor.stopped = true := by simp [running]
  unfold step
  rw [StateT.run_bind, StateT.run_get, pure_bind]
  dsimp only
  rw [if_neg going, StateT.run_bind, StateT.run_modify, pure_bind, StateT.run_bind]
  congr
  funext ended
  rw [StateT.run_bind, StateT.run_get, pure_bind]
  dsimp only
  split
  · rfl
  split
  · rfl
  · rfl

theorem run_step {processor : Processor} (dispatches : processor.Dispatches) :
    step.run processor = stepNative.run { processor with
      freeRunning := processor.freeRunning + 1, pending := .proceed } := by
  obtain ⟨running, native, calm⟩ := dispatches
  have going : ¬ processor.stopped = true := by simp [running]
  have resolved : resolvePending.run { processor with freeRunning := processor.freeRunning + 1 } =
      pure ((), { processor with
        freeRunning := processor.freeRunning + 1, pending := .proceed }) :=
    run_resolvePending calm
  rw [run_step_of_running running, resolved, pure_bind]
  dsimp only
  rw [if_neg going, if_neg (by decide)]
  exact run_stepInstruction native

theorem perform_stepNative (before : Processor) (memory : μ) :
    (stepNative.run before).perform memory =
      match Execution.fetchInstruction.ending before.beginInstruction memory with
      | ((.error condition, left), kept) => ((.aborted, left.raise condition), kept)
      | ((.ok instruction, fetched), middle) =>
        match (Execution.execute instruction).ending (fetched.withInstruction instruction)
            middle with
        | ((.error condition, left), kept) =>
          ((.executed, (left.fault condition).commit condition.policy.completes), kept)
        | ((.ok _, left), kept) => ((.executed, left.commit true), kept) := by
  rw [run_stepNative, Activity.perform_bind]
  unfold Execution.ending
  rcases (Execution.fetchInstruction.course before.beginInstruction).perform memory with
    ⟨⟨condition | instruction, fetched⟩, middle⟩
  · rfl
  · dsimp only
    rw [run_dispatch, Activity.perform_bind, Activity.perform_bind]
    rcases ((Execution.execute instruction).course (fetched.withInstruction instruction)).perform
      middle with ⟨⟨condition | result, left⟩, kept⟩
    · rfl
    · rfl

variable {processor : Processor}

theorem perform_step (dispatches : processor.Dispatches) (memory : μ) :
    (step.run processor).perform memory =
      match Execution.fetchInstruction.ending processor.fetching memory with
      | ((.error condition, left), kept) => ((.aborted, left.raise condition), kept)
      | ((.ok instruction, fetched), middle) =>
        match (Execution.execute instruction).ending (fetched.withInstruction instruction)
            middle with
        | ((.error condition, left), kept) =>
          ((.executed, (left.fault condition).commit condition.policy.completes), kept)
        | ((.ok _, left), kept) => ((.executed, left.commit true), kept) := by
  rw [run_step dispatches]
  exact perform_stepNative _ memory

theorem confines_step (dispatches : processor.Dispatches) (memory : μ) :
    processor.Confines ((step.run processor).history memory) := by
  have begun : { processor with
      freeRunning := processor.freeRunning + 1, pending := .proceed }.beginInstruction =
    processor.fetching := rfl
  rw [run_step dispatches, run_stepNative, begun, Activity.history_bind]
  have fetch := Execution.fetchInstruction_fetches processor memory
  have before : processor.Confines
      (Execution.fetchInstruction.history processor.fetching memory) := fetch.confined
  refine before.append ?_
  rcases fetching : (Execution.fetchInstruction.course processor.fetching).perform memory with
    ⟨⟨condition | instruction, fetched⟩, middle⟩
  · exact .notify _ _
  · have fetches := fetch.completed fetching
    have conduct := Execution.execute_completes instruction (fetched.withInstruction instruction)
      middle
    have confined : fetched.Confines
        ((Execution.execute instruction).history (fetched.withInstruction instruction) middle) :=
      conduct.confined
    have within : processor.Confines
        ((Execution.execute instruction).history (fetched.withInstruction instruction) middle) :=
      fetches.resembles.confines confined
    dsimp only
    rw [run_dispatch, Activity.history_bind, Activity.history_bind]
    refine .append (.append within ?_) .nil
    -- What is left to do is to record a fault.
    rcases ((Execution.execute instruction).course (fetched.withInstruction instruction)).perform
      middle with ⟨⟨condition | result, left⟩, kept⟩
    · exact .notify _ _
    · exact .nil

end Routine

end Mainframe
