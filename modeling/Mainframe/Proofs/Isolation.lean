import Mainframe.Machine.Basic
import Mainframe.Proofs.LegacyPlacement

/-! Processors of one machine share nothing but memory and interrupts. A step changes the
processor that takes it, and one that its instruction interrupts; an interrupt is delivered once,
before anything else happens, and reaches no more of its target than the recorded conditions and
the pending action. -/

set_option autoImplicit false

namespace Mainframe

variable {μ : Type}

/-! ## Requests -/

/-- A native instruction is carried out that asks for the interrupt of a numbered processor. -/
def AsksFor [Bus μ] (before : Processor) (memory : μ) (target : Nat) : Prop :=
  ∃ instruction after kept, CarriesOut before memory instruction after kept ∧
    Operation.ofOpcode instruction.opcode = some (.control .interruptProcessor) ∧
    target = (Word.rightHalf (before.wordRegister instruction.k)).toNat

structure Processor.Interrupts [Bus μ] (before : Processor) (memory : μ) (target : Nat) :
    Prop where
  running : before.stopped = false
  continues : (Routine.resolved before memory).1.stopped = false
  calm : ¬ (Routine.resolved before memory).1.pending.Interrupts
  native : (Routine.resolved before memory).1.instructionSet = .native
  asks : AsksFor (Routine.resolved before memory).1 (Routine.resolved before memory).2 target

theorem Processor.rescanned_interruptRequest (processor : Processor) :
    processor.rescanned.interruptRequest = processor.interruptRequest := by
  obtain ⟨_, _, _, same⟩ := processor.rescanned_eq
  rw [same]

theorem Processor.exchanged_interruptRequest [Bus μ] (processor : Processor) (memory : μ) :
    (processor.exchanged memory).interruptRequest = processor.interruptRequest := by
  have loaded (package : ExchangePackage) (address : HalfWord) (toMonitor : Bool) :
      (processor.load package address toMonitor).interruptRequest =
        processor.interruptRequest := rfl
  exact loaded _ _ _

@[simp] theorem Processor.raise_interruptRequest (processor : Processor) (condition : Condition) :
    (processor.raise condition).interruptRequest = processor.interruptRequest := by
  cases condition <;> rfl

@[simp] theorem Processor.fault_interruptRequest (processor : Processor) (condition : Condition) :
    (processor.fault condition).interruptRequest = processor.interruptRequest := by
  unfold Processor.fault
  split
  · exact processor.raise_interruptRequest condition
  · exact processor.raise_interruptRequest condition

@[simp] theorem Processor.commit_interruptRequest (processor : Processor) (completed : Bool) :
    (processor.commit completed).interruptRequest = processor.interruptRequest := rfl

theorem Runs.keeps_registers [Bus μ] {before running : Processor} {memory middle : μ}
    {instruction : Instruction} (runs : Runs before memory instruction running middle) :
    running.x = before.x ∧ running.interruptRequest = before.interruptRequest := by
  obtain ⟨_, _, rfl⟩ := runs.begun
  exact ⟨rfl, rfl⟩

theorem Execution.execute_interrupts [Bus μ] {instruction : Instruction}
    (operation : Operation.ofOpcode instruction.opcode = some (.control .interruptProcessor))
    (running : Processor) (memory : μ) :
    (execute instruction).Orderly running memory fun _ left _ => left = { running with
      interruptRequest := some (Word.rightHalf (running.wordRegister instruction.k)).toNat } := by
  unfold execute
  rw [operation]
  exact (requirePrivilege_checks _).andThen fun _ _ => .of_settles (.modified _) rfl

namespace Routine

variable [Bus μ] {before : Processor}

theorem interruptRequest_stepNative (quiet : before.interruptRequest = none) (memory : μ)
    (target : Nat) :
    ((stepNative.run before).perform memory).1.2.interruptRequest = some target ↔
      AsksFor before memory target := by
  constructor
  · intro asked
    -- Only an instruction that completes can have asked, and it must be the one that does.
    cases stepNative_ends before memory with
    | unfetched condition left error alike recorded =>
      obtain ⟨_, _, rfl⟩ := alike
      rw [recorded, Processor.raise_interruptRequest] at asked
      exact absurd (quiet.symm.trans asked) nofun
    | faulted instruction running middle condition left runs error alike recorded =>
      obtain ⟨_, _, rfl⟩ := alike
      rw [recorded, Processor.commit_interruptRequest, Processor.fault_interruptRequest] at asked
      exact absurd ((runs.keeps_registers.2.trans quiet).symm.trans asked) nofun
    | completed instruction running middle left kept runs ending completion committed =>
      obtain ⟨registers, unasked⟩ := runs.keeps_registers
      rw [committed, Processor.commit_interruptRequest] at asked
      by_cases operation :
          Operation.ofOpcode instruction.opcode = some (.control .interruptProcessor)
      · have requested := (Execution.execute_interrupts operation running middle).completed ending
        refine ⟨instruction, _, kept, ⟨running, middle, left, runs, ending, committed⟩,
          operation, ?_⟩
        rw [requested] at asked
        unfold Processor.wordRegister
        rw [← registers]
        exact (Option.some.inj asked).symm
      · rw [completion.bookkeeping.2 operation, unasked, quiet] at asked
        cases asked
  · rintro ⟨instruction, after, kept, carries, operation, rfl⟩
    rw [carries.perform_eq]
    obtain ⟨running, middle, left, runs, ending, rfl⟩ := carries
    have requested := (Execution.execute_interrupts operation running middle).completed ending
    rw [Processor.commit_interruptRequest, requested]
    unfold Processor.wordRegister
    rw [runs.keeps_registers.1]

theorem interruptRequest_stepLegacy (registers : LegacyRegisters) (memory : μ) :
    (((stepLegacy registers).run before).perform memory).1.2.interruptRequest =
      before.interruptRequest := by
  cases stepLegacy_ends before registers memory with
  | absent none same => rw [same]
  | turned engine left retired counted same signals =>
    have unasked : counted.interruptRequest = before.interruptRequest := by rw [same]
    rcases signals with proceeds | calls | halts
    · rw [proceeds, unasked]
    · rw [calls, Processor.raise_interruptRequest, unasked]
    · rw [halts]
      exact unasked

theorem interruptRequest_resolved (before : Processor) (memory : μ) :
    (resolved before memory).1.interruptRequest = before.interruptRequest := by
  cases resolved_ends before memory with
  | idle calm same => rw [same, Processor.attending]
  | trapped pending ends =>
    cases ends with
    | failed condition left error alike recorded =>
      obtain ⟨_, _, rfl⟩ := alike
      rw [recorded, Processor.raise_interruptRequest, Processor.raise_interruptRequest]
      rfl
    | entered entry top handed =>
      obtain ⟨_, _, _, handling⟩ := before.attending.withoutTraps.handling_eq entry top
      rw [handed, handling]
      rfl
  | refused error pending invalid same =>
    rw [same]
    unfold Processor.refused
    split
    · exact before.attending.raise_interruptRequest _
    · rfl
  | exchanged pending valid same =>
    rw [same, Processor.rescanned_interruptRequest]
    exact before.attending.exchanged_interruptRequest memory
  | halted pending same => rw [same, Processor.attending]

theorem interruptRequest_stepInstruction (quiet : before.interruptRequest = none) (memory : μ)
    (target : Nat) :
    ((stepInstruction.run before).perform memory).1.2.interruptRequest = some target ↔
      before.instructionSet = .native ∧ AsksFor before memory target := by
  cases form : before.instructionSet with
  | native =>
    rw [run_stepInstruction form, interruptRequest_stepNative quiet]
    exact (and_iff_right rfl).symm
  | legacy registers =>
    rw [run_stepInstruction_legacy form, interruptRequest_stepLegacy, quiet]
    exact ⟨nofun, nofun⟩

/-- After a step an interrupt is due exactly if an instruction that it carried out asks for it. -/
theorem interruptRequest_step (quiet : before.interruptRequest = none) (memory : μ)
    (target : Nat) :
    ((step.run before).perform memory).1.2.interruptRequest = some target ↔
      before.Interrupts memory target := by
  cases running : before.stopped with
  | true =>
    rw [run_step_of_stopped running, Activity.perform_pure, quiet]
    exact ⟨nofun, fun interrupts => absurd (running.symm.trans interrupts.running) nofun⟩
  | false =>
    have ready : (resolved before memory).1.interruptRequest = none :=
      (interruptRequest_resolved before memory).trans quiet
    rw [perform_step_of_running running]
    dsimp only
    split
    · next stopped =>
      rw [ready]
      exact ⟨nofun, fun interrupts => absurd (stopped.symm.trans interrupts.continues) nofun⟩
    next continues =>
    split
    · next pending =>
      rw [ready]
      exact ⟨nofun, fun interrupts => absurd pending interrupts.calm⟩
    next calm =>
    rw [interruptRequest_stepInstruction ready]
    constructor
    · rintro ⟨native, asks⟩
      exact ⟨running, by simpa using continues, calm, native, asks⟩
    · exact fun interrupts => ⟨interrupts.native, interrupts.asks⟩

end Routine

/-! ## Machines -/

namespace Processor

def interrupted (processor : Processor) : Processor :=
  { processor with
    monitorConditions :=
      processor.monitorConditions ||| ordinalBit MonitorCondition.externalInterrupt.ordinal
    pending := max processor.pending (processor.actionOf (.monitor .externalInterrupt)) }

/-- The state after a step, once the interrupt that it asks for has been taken up. -/
def stepped [Bus μ] (processor : Processor) (memory : μ) : Processor :=
  { ((Routine.step.run processor).perform memory).1.2 with interruptRequest := none }

end Processor

namespace Machine

def Quiet (machine : Machine) : Prop :=
  ∀ processor ∈ machine.processors, processor.interruptRequest = none

/-- A step of a numbered processor comes to carry out an instruction that asks for the interrupt
of another, or of the processor itself. -/
def Interrupts (machine : Machine) (number target : Nat) : Prop :=
  ∃ sender, machine.processors[number]? = some sender ∧
    sender.Interrupts machine.memory target

/-- The machine after a turn of a numbered processor; there is none if the processor is missing. -/
def turn (machine : Machine) (number : Nat) : Machine :=
  match machine.step number with
  | .ok (_, after) => after
  | .error _ => machine

variable {machine : Machine} {number : Nat} {sender : Processor}

theorem run_present {α : Type} (found : machine.processors[number]? = some sender)
    (routine : Routine α) :
    machine.run number routine =
      let ended := (routine.run sender).perform machine.memory
      .ok (ended.1.1, { machine with
        processors := machine.processors.set number ended.1.2
        memory := ended.2
        journal := machine.journal ++ ((routine.run sender).notices machine.memory).filter
          fun notice => machine.watched notice.processor }) := by
  unfold run runOn processor
  rw [found]
  rfl

theorem run_missing {α : Type} (missing : machine.processors[number]? = none)
    (routine : Routine α) : machine.run number routine = .error (.noSuchProcessor number) := by
  unfold run runOn processor
  rw [missing]
  rfl

/-- An interrupt reaches its target, and is lost if there is none. -/
theorem processors_deliver (machine : Machine) (target : Nat) :
    (machine.runIfPresent target (Routine.raise (.monitor .externalInterrupt))).processors =
      machine.processors.modify target Processor.interrupted := by
  unfold runIfPresent
  rcases found : machine.processors[target]? with _ | reached
  · rw [run_missing found, List.modify_eq_self (List.getElem?_eq_none_iff.mp found)]
  · rw [run_present found]
    change machine.processors.set target reached.interrupted = _
    rw [List.modify_eq_set_getElem?, found]
    rfl

theorem turn_missing (missing : machine.processors[number]? = none) :
    machine.turn number = machine := by
  unfold turn step
  rw [run_missing missing]
  rfl

theorem perform_takeRequest {μ : Type} [Bus μ] (sender : Processor) (memory : μ) :
    ((do
      let exit ← Routine.step
      return (exit, ← takeInterruptRequest) : Routine (StepExit × Option Nat)).run
        sender).perform memory =
      let ended := (Routine.step.run sender).perform memory
      (((ended.1.1, ended.1.2.interruptRequest), sender.stepped memory), ended.2) := by
  rw [StateT.run_bind, Activity.perform_bind]
  rfl

/-- A turn is the step of its processor and the delivery of what that asked for. -/
theorem step_present (found : machine.processors[number]? = some sender) :
    let ended := (Routine.step.run sender).perform machine.memory
    machine.step number = .ok (ended.1.1, machine.turn number) ∧
      ∃ journal, machine.turn number =
        let ran : Machine := { machine with
          processors := machine.processors.set number (sender.stepped machine.memory)
          memory := ended.2
          journal }
        match ended.1.2.interruptRequest with
        | none => ran
        | some target => ran.runIfPresent target (Routine.raise (.monitor .externalInterrupt)) := by
  unfold turn step
  rw [run_present found, perform_takeRequest]
  dsimp only [bind, Except.bind]
  cases ((Routine.step.run sender).perform machine.memory).1.2.interruptRequest with
  | none => exact ⟨rfl, _, rfl⟩
  | some target => exact ⟨rfl, _, rfl⟩

theorem processors_turn (found : machine.processors[number]? = some sender) :
    (machine.turn number).processors =
      match ((Routine.step.run sender).perform machine.memory).1.2.interruptRequest with
      | none => machine.processors.set number (sender.stepped machine.memory)
      | some target =>
        (machine.processors.set number (sender.stepped machine.memory)).modify target
          Processor.interrupted := by
  obtain ⟨-, journal, turned⟩ := step_present found
  rw [turned]
  cases ((Routine.step.run sender).perform machine.memory).1.2.interruptRequest with
  | none => rfl
  | some target => exact processors_deliver _ target

theorem interrupts_iff (found : machine.processors[number]? = some sender)
    (quiet : sender.interruptRequest = none) (target : Nat) :
    machine.Interrupts number target ↔
      ((Routine.step.run sender).perform machine.memory).1.2.interruptRequest = some target := by
  rw [Routine.interruptRequest_step quiet]
  constructor
  · rintro ⟨other, same, interrupts⟩
    cases found.symm.trans same
    exact interrupts
  · exact fun interrupts => ⟨sender, found, interrupts⟩

open Classical in
theorem processor_turn (found : machine.processors[number]? = some sender)
    (quiet : sender.interruptRequest = none) (other : Nat) :
    (machine.turn number).processors[other]? =
      let left := (machine.processors.set number (sender.stepped machine.memory))[other]?
      if machine.Interrupts number other then left.map Processor.interrupted else left := by
  rw [processors_turn found]
  simp only [interrupts_iff found quiet]
  cases ((Routine.step.run sender).perform machine.memory).1.2.interruptRequest with
  | none => rfl
  | some target =>
    dsimp only
    rw [List.getElem?_modify]
    by_cases reached : target = other
    · subst reached
      simp
    · simp [reached]

end Machine

/-- What a turn of a numbered processor does to each processor of the machine. -/
structure TakesTurn (before : Machine) (number : Nat) (after : Machine) : Prop where
  once : ∀ first second, before.Interrupts number first → before.Interrupts number second →
    first = second
  missing : before.processors[number]? = none → after = before
  stopped : ∀ sender, before.processors[number]? = some sender → sender.stopped = true →
    after = before
  own : ¬ before.Interrupts number number → after.processors[number]? =
    before.processors[number]?.map fun sender => sender.stepped before.memory
  itself : before.Interrupts number number → after.processors[number]? =
    before.processors[number]?.map fun sender => (sender.stepped before.memory).interrupted
  bystander : ∀ other, other ≠ number → ¬ before.Interrupts number other →
    after.processors[other]? = before.processors[other]?
  delivered : ∀ target, target ≠ number → before.Interrupts number target →
    after.processors[target]? = before.processors[target]?.map Processor.interrupted
  lost : ∀ target, before.Interrupts number target → before.processors[target]? = none →
    ∀ other, other ≠ number → after.processors[other]? = before.processors[other]?
  quiet : after.Quiet

namespace Machine

variable {machine : Machine} {number : Nat} {sender : Processor}

theorem turn_stopped (found : machine.processors[number]? = some sender)
    (quiet : sender.interruptRequest = none) (stopped : sender.stopped = true) :
    machine.turn number = machine := by
  have same : ({ sender with interruptRequest := none } : Processor) = sender := by rw [← quiet]
  have idle : (do
      let exit ← Routine.step
      return (exit, ← takeInterruptRequest) : Routine (StepExit × Option Nat)).run sender =
      pure ((.halted, none), sender) := by
    rw [StateT.run_bind, Routine.run_step_of_stopped stopped, pure_bind]
    change (pure ((.halted, sender.interruptRequest),
      { sender with interruptRequest := none }) :
        Activity ((StepExit × Option Nat) × Processor)) = _
    rw [same, quiet]
  obtain ⟨inside, rfl⟩ := List.getElem?_eq_some_iff.mp found
  unfold turn step
  rw [run_present found, idle]
  dsimp only [bind, Except.bind, Activity.perform_pure, Activity.notices_pure]
  rw [List.set_getElem_self, List.filter_nil, List.append_nil]
  rfl

theorem quiet_turn (quiet : machine.Quiet) (number : Nat) : (machine.turn number).Quiet := by
  rcases found : machine.processors[number]? with _ | sender
  · rwa [turn_missing found]
  have stepped : ∀ processor ∈ machine.processors.set number (sender.stepped machine.memory),
      processor.interruptRequest = none := by
    intro processor member
    rcases List.mem_or_eq_of_mem_set member with kept | rfl
    · exact quiet processor kept
    · rfl
  intro processor member
  rw [processors_turn found] at member
  split at member
  · exact stepped processor member
  · -- An external interrupt asks for nothing itself.
    obtain ⟨other, reached⟩ := List.mem_iff_getElem?.mp member
    rw [List.getElem?_modify] at reached
    obtain ⟨left, placed, rfl⟩ := Option.map_eq_some_iff.mp reached
    have taken := stepped left (List.mem_of_getElem? placed)
    split <;> exact taken

theorem takesTurn_missing (quiet : machine.Quiet) (missing : machine.processors[number]? = none) :
    TakesTurn machine number (machine.turn number) := by
  have silent (target : Nat) : ¬ machine.Interrupts number target := by
    rintro ⟨sender, found, -⟩
    cases missing.symm.trans found
  have same := turn_missing missing
  exact {
    once := fun first _ asks => absurd asks (silent first)
    missing := fun _ => same
    stopped := fun _ _ _ => same
    own := fun _ => by
      rw [same, missing]
      rfl
    itself := fun asks => absurd asks (silent number)
    bystander := fun _ _ _ => by rw [same]
    delivered := fun target _ asks => absurd asks (silent target)
    lost := fun target asks => absurd asks (silent target)
    quiet := quiet_turn quiet number }

theorem turn_takesTurn (quiet : machine.Quiet) (number : Nat) :
    TakesTurn machine number (machine.turn number) := by
  rcases found : machine.processors[number]? with _ | sender
  · exact takesTurn_missing quiet found
  have calm := quiet sender (List.mem_of_getElem? found)
  have turned := processor_turn found calm
  have once (first second : Nat) (one : machine.Interrupts number first)
      (two : machine.Interrupts number second) : first = second := by
    rw [interrupts_iff found calm] at one two
    exact Option.some.inj (one.symm.trans two)
  have own : (machine.processors.set number (sender.stepped machine.memory))[number]? =
      some (sender.stepped machine.memory) :=
    List.getElem?_set_self (List.getElem?_eq_some_iff.mp found).1
  have elsewhere {other : Nat} (apart : other ≠ number) :
      (machine.processors.set number (sender.stepped machine.memory))[other]? =
        machine.processors[other]? := List.getElem?_set_ne apart.symm
  have bystander (other : Nat) (apart : other ≠ number)
      (silent : ¬ machine.Interrupts number other) :
      (machine.turn number).processors[other]? = machine.processors[other]? := by
    rw [turned, if_neg silent, elsewhere apart]
  exact {
    once
    missing := fun missing => absurd (found.symm.trans missing) nofun
    stopped := fun other same stopped => by
      cases found.symm.trans same
      exact turn_stopped found calm stopped
    own := fun silent => by
      rw [turned, if_neg silent, own, found]
      rfl
    itself := fun asks => by
      rw [turned, if_pos asks, own, found]
      rfl
    bystander
    delivered := fun target apart asks => by rw [turned, if_pos asks, elsewhere apart]
    lost := fun target asks missing other apart => by
      -- There is no one to take the interrupt, and nobody else is asked for.
      by_cases reached : machine.Interrupts number other
      · cases once target other asks reached
        rw [turned, if_pos reached, elsewhere apart, missing]
        rfl
      · exact bystander other apart reached
    quiet := quiet_turn quiet number }

/-! ## Schedules -/

theorem length_turn (machine : Machine) (number : Nat) :
    (machine.turn number).processors.length = machine.processors.length := by
  rcases found : machine.processors[number]? with _ | sender
  · rw [turn_missing found]
  · rw [processors_turn found]
    split
    · exact List.length_set
    · rw [List.length_modify, List.length_set]

end Machine

/-- One call of whoever drives the machine: for a step of one processor, or of all in turn. -/
inductive Drive where
  | step (number : Nat)
  | stepAll

def Drive.turns (count : Nat) : Drive → List Nat
  | .step number => [number]
  | .stepAll => List.range count

inductive TakesTurns : Machine → List Nat → Machine → Prop where
  | done (machine : Machine) : TakesTurns machine [] machine
  | next {before between after : Machine} {number : Nat} {rest : List Nat} :
    TakesTurn before number between → TakesTurns between rest after →
      TakesTurns before (number :: rest) after

namespace Machine

variable {machine : Machine}

def drive (machine : Machine) : Drive → Machine
  | .step number => machine.turn number
  | .stepAll => machine.stepAll.2

theorem stepEach_turns (numbers : List Nat) (machine : Machine) :
    (stepEach numbers machine).2 = numbers.foldl turn machine := by
  induction numbers generalizing machine with
  | nil => rfl
  | cons number rest ih =>
    rw [List.foldl_cons, ← ih, stepEach]
    unfold turn
    cases machine.step number <;> rfl

theorem drive_turns (machine : Machine) (call : Drive) :
    machine.drive call = (call.turns machine.processors.length).foldl turn machine := by
  cases call with
  | step number => rfl
  | stepAll => exact stepEach_turns _ machine

theorem length_turns (numbers : List Nat) (machine : Machine) :
    (numbers.foldl turn machine).processors.length = machine.processors.length := by
  induction numbers generalizing machine with
  | nil => rfl
  | cons number rest ih => exact (ih _).trans (machine.length_turn number)

theorem schedule_turns (schedule : List Drive) (machine : Machine) :
    schedule.foldl drive machine =
      (schedule.flatMap (Drive.turns machine.processors.length)).foldl turn machine := by
  induction schedule generalizing machine with
  | nil => rfl
  | cons call rest ih =>
    rw [List.foldl_cons, ih, drive_turns, length_turns, List.flatMap_cons, List.foldl_append]

theorem turns_take (quiet : machine.Quiet) (numbers : List Nat) :
    TakesTurns machine numbers (numbers.foldl turn machine) ∧
      (numbers.foldl turn machine).Quiet := by
  induction numbers generalizing machine with
  | nil => exact ⟨.done machine, quiet⟩
  | cons number rest ih =>
    have first := turn_takesTurn quiet number
    obtain ⟨others, calm⟩ := ih first.quiet
    exact ⟨.next first others, calm⟩

/-- However a machine is driven, it takes the turns that the calls consist of. Each changes its
own processor and delivers the interrupt that its instruction asks for, and no interrupt is left
over after a call. -/
theorem processors_isolated (quiet : machine.Quiet) (schedule : List Drive) :
    TakesTurns machine (schedule.flatMap (Drive.turns machine.processors.length))
        (schedule.foldl drive machine) ∧
      ∀ calls, calls <+: schedule → (calls.foldl drive machine).Quiet := by
  refine ⟨?_, fun calls _ => ?_⟩
  · rw [schedule_turns]
    exact (turns_take quiet _).1
  · rw [schedule_turns]
    exact (turns_take quiet _).2

def interruptingMonitor : Processor :=
  { Routine.smallJob with monitorMode := true, x := Vector.replicate 16 1 }

/-- The other processor, which is stopped, lets external interrupts through its mask. -/
def interruptedPair : Machine where
  settings := .standard
  memory := ⟨4096, false, ((WordStore.empty.set 0 0x6ABB000000000000).set 512
    0x8000000000000010).set 1024 0x0301000000000000⟩
  processors := [interruptingMonitor, { Routine.smallJob with number := 1, stopped := true }]
  watched := fun _ => false
  journal := []

instance (machine : Machine) : Decidable machine.Quiet :=
  inferInstanceAs (Decidable (∀ processor ∈ machine.processors, processor.interruptRequest = none))

theorem interruptedPair_isolated :
    interruptedPair.Quiet ∧ interruptedPair.Interrupts 0 1 ∧
      TakesTurns interruptedPair [0, 1, 0]
        ([Drive.stepAll, .step 0].foldl drive interruptedPair) ∧
      ∀ calls, calls <+: [Drive.stepAll, .step 0] →
        (calls.foldl drive interruptedPair).Quiet := by
  have quiet : interruptedPair.Quiet := by decide
  have interrupts : interruptedPair.Interrupts 0 1 :=
    (interrupts_iff rfl rfl 1).mpr (by decide +kernel)
  exact ⟨quiet, interrupts, processors_isolated quiet [.stepAll, .step 0]⟩

end Machine

end Mainframe
