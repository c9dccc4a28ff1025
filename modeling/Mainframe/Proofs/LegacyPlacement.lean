import Mainframe.Proofs.Delivery
import Mainframe.Proofs.ExchangeOutcomes

/-! Where the older instruction set may run: in job mode, and not in ring one. Loading a package
enforces this rule. A return into the older instruction set does not, and an exchange checks an
address that it may itself overwrite before the address is loaded. Nothing else breaks the rule. -/

set_option autoImplicit false

namespace Mainframe

variable {μ : Type}

namespace Processor

/-- The older instruction set, if it is in force, is so in job mode and not in ring one. -/
def Placed (processor : Processor) : Prop :=
  processor.instructionSet = .native ∨
    processor.monitorMode = false ∧ processor.p.ring ≠ 1

instance (processor : Processor) : Decidable processor.Placed :=
  inferInstanceAs (Decidable (_ ∨ _ ∧ _))

variable {before after : Processor}

theorem Placed.of_eq (placed : before.Placed)
    (set : after.instructionSet = before.instructionSet)
    (mode : after.monitorMode = before.monitorMode) (ring : after.p.ring = before.p.ring) :
    after.Placed := by
  unfold Placed
  rw [set, mode, ring]
  exact placed

theorem Placed.raise (placed : before.Placed) (condition : Condition) :
    (before.raise condition).Placed := by
  cases condition <;> exact placed.of_eq rfl rfl rfl

theorem Placed.escalate (placed : before.Placed) (action : Action) :
    (before.escalate action).Placed := placed.of_eq rfl rfl rfl

theorem Placed.resembles (placed : before.Placed) (alike : before.Resembles after) :
    after.Placed := by
  obtain ⟨_, _, rfl⟩ := alike
  exact placed.of_eq rfl rfl rfl

theorem Placed.rescanned (placed : before.Placed) : before.rescanned.Placed := by
  obtain ⟨_, _, _, same⟩ := before.rescanned_eq
  rw [same]
  exact placed.of_eq rfl rfl rfl

/-! ## Packages -/

/-- A package that is found valid is loaded in its place. Only the address may have changed since
then, which matters for the older instruction set alone. -/
theorem placed_load (before : Processor) {package loaded : ExchangePackage} {address : HalfWord}
    {toMonitor : Bool} (valid : package.validate address toMonitor = .ok ())
    (machine : loaded.instructionMachine = package.instructionMachine) :
    (before.load loaded address toMonitor).Placed ∨
      toMonitor = false ∧ package.instructionMachine = 1 ∧ package.p.ring ≠ 1 ∧
        loaded.p.ring = 1 := by
  unfold ExchangePackage.validate at valid
  split at valid
  · cases valid
  by_cases older : package.instructionMachine = 1
  · rw [if_pos older] at valid
    split at valid
    · cases valid
    next job =>
    split at valid
    · cases valid
    next inside =>
    have job : toMonitor = false := by simpa using job
    by_cases outside : loaded.p.ring = 1
    · exact .inr ⟨job, older, inside, outside⟩
    · exact .inl (.inr ⟨job, outside⟩)
  · left; left
    unfold load
    rw [machine]
    exact if_neg older

theorem placed_exchanged [Bus μ] {memory : μ}
    (valid : (before.candidate memory).validate before.exchangeSource (!before.monitorMode) =
      .ok ()) :
    (before.exchanged memory).Placed ∨
      before.monitorMode = true ∧ (before.candidate memory).instructionMachine = 1 ∧
        (before.candidate memory).p.ring ≠ 1 ∧
        (before.candidate ((Activity.writePackage before.exchangeDestination
          before.package).perform memory).2).p.ring = 1 := by
  unfold exchanged
  dsimp only
  generalize before.candidate ((Activity.writePackage before.exchangeDestination
    before.package).perform memory).2 = stored
  generalize before.candidate memory = found at valid ⊢
  obtain ⟨loaded, same⟩ : ∃ loaded : ExchangePackage,
      loaded = { stored with instructionMachine := found.instructionMachine } := ⟨_, rfl⟩
  have machine : loaded.instructionMachine = found.instructionMachine := by rw [same]
  rw [← same]
  rcases before.placed_load valid machine with entered | ⟨mode, older, checked, inside⟩
  · exact .inl entered
  · rw [same] at inside
    exact .inr ⟨by simpa using mode, older, checked, inside⟩

/-- A job of the older instruction set was found in its place, but the state that the monitor left
behind has overwritten the job's address with one in ring one. -/
structure OverwritesAddress [Bus μ] (before : Processor) (memory : μ) : Prop where
  pending : before.pending = .exchange
  monitor : before.monitorMode = true
  older : (before.candidate memory).instructionMachine = 1
  checked : (before.candidate memory).p.ring ≠ 1
  loaded : (before.candidate ((Activity.writePackage before.monitorPackage
    before.package).perform memory).2).p.ring = 1

end Processor

/-! ## Native instructions -/

/-- A native return goes back to an activation of the older instruction set, in monitor mode or
in ring one. -/
structure ReturnsMisplaced [Bus μ] (before : Processor) (memory : μ) (after : Processor) :
    Prop where
  returns : ∃ instruction running middle zeroth first second third addresses words kept,
    Runs before memory instruction running middle ∧
    Operation.ofOpcode instruction.opcode = some (.transfer .returnFromCall) ∧
    ReturnsBy running middle zeroth first second third addresses words kept ∧
    first.extractLsb' 60 4 = 1 ∧
    after = (running.leaving zeroth first second third addresses words).commit true
  misplaced : after.monitorMode = true ∨ after.p.ring = 1

theorem Completion.instructionSet_eq [Bus μ] {instruction : Instruction} {running left : Processor}
    {memory : μ} (completion : Completion instruction running memory left) :
    left.instructionSet = running.instructionSet ∨
      ∃ zeroth first second third addresses words kept,
        Operation.ofOpcode instruction.opcode = some (.transfer .returnFromCall) ∧
        ReturnsBy running memory zeroth first second third addresses words kept ∧
        first.extractLsb' 60 4 = 1 ∧
        left = running.leaving zeroth first second third addresses words := by
  cases completion with
  | moved | raised | calledMonitor | halted | exchanged | interrupted | noted => exact .inl rfl
  | cleared => cases Processor.conditionOperand instruction <;> exact .inl rfl
  | calledNear binding top argument =>
    obtain ⟨_, _, _, same⟩ := running.called_eq _ top argument
    rw [same]
    exact .inl rfl
  | calledFar entry word segment top argument =>
    obtain ⟨_, _, _, same⟩ := running.called_eq entry top argument
    rw [same]
    exact .inl rfl
  | returned zeroth first second third addresses words kept operation returns =>
    by_cases older : first.extractLsb' 60 4 = 1
    · exact .inr ⟨zeroth, first, second, third, addresses, words, kept, operation, returns, older,
        rfl⟩
    left
    have kept : (running.returned zeroth first second third addresses words).instructionSet =
        running.instructionSet := by
      obtain ⟨_, _, _, resumed⟩ := running.resume_eq (running.addressRegister 2) (.ofWord zeroth)
        first second third addresses words
      unfold Processor.returned
      rw [if_neg older, resumed]
    obtain ⟨_, _, _, _, same⟩ := running.leaving_returned zeroth first second third addresses words
    rw [same]
    exact kept
  | governed register word =>
    obtain ⟨_, _, _, same⟩ := running.governed_eq register word
    rw [same]
    cases register <;> exact .inl rfl

namespace Routine

variable [Bus μ] {before : Processor}

open Processor

theorem placed_stepNative (native : before.instructionSet = .native) (memory : μ) :
    let after := ((stepNative.run before).perform memory).1.2
    after.Placed ∨ ReturnsMisplaced before memory after := by
  intro after
  have running {instruction : Instruction} {running : Processor} {middle : μ}
      (runs : Runs before memory instruction running middle) :
      running.instructionSet = .native := by
    obtain ⟨_, _, rfl⟩ := runs.begun
    exact native
  cases stepNative_ends before memory with
  | unfetched condition left error alike recorded =>
    have begun : before.beginInstruction.Placed := .inl native
    rw [show after = left.raise condition from recorded]
    exact .inl ((begun.resembles alike).raise condition)
  | faulted instruction ready middle condition left runs error alike recorded =>
    have native := running runs
    have same : left.instructionSet = .native := by
      obtain ⟨_, _, rfl⟩ := alike
      exact native
    rw [show after = (left.fault condition).commit condition.policy.completes from recorded]
    left; left
    unfold Processor.fault
    split <;> cases condition <;> exact same
  | completed instruction ready middle left kept runs ending completion committed =>
    have committed : after = left.commit true := committed
    rcases completion.instructionSet_eq with same |
      ⟨zeroth, first, second, third, addresses, words, last, operation, returns, older, rfl⟩
    · rw [committed]
      exact .inl (.inl (same.trans (running runs)))
    by_cases placed : after.Placed
    · exact .inl placed
    right
    refine ⟨⟨instruction, ready, middle, zeroth, first, second, third, addresses, words, last,
      runs, operation, returns, older, committed⟩, ?_⟩
    -- Where the rule is broken, one of its two parts is.
    by_cases monitor : after.monitorMode = true
    · exact .inl monitor
    · refine .inr (Classical.not_not.mp fun elsewhere => placed (.inr ⟨?_, elsewhere⟩))
      simpa using monitor

/-! ## Steps -/

theorem placed_stepLegacy (placed : before.Placed) {registers : LegacyRegisters}
    (older : before.instructionSet = .legacy registers) (memory : μ) :
    (((stepLegacy registers).run before).perform memory).1.2.Placed := by
  have position : before.monitorMode = false ∧ before.p.ring ≠ 1 := by
    rcases placed with native | position
    · rw [older] at native
      cases native
    · exact position
  cases stepLegacy_ends before registers memory with
  | absent none same =>
    rw [same]
    exact placed
  | turned engine left retired counted same signals =>
    -- The engine moves within the segment.
    have moved : counted.Placed := by
      subst same
      exact .inr position
    rcases signals with proceeds | calls | halts
    · rw [proceeds]
      exact moved
    · rw [calls]
      exact moved.raise _
    · rw [halts]
      exact moved.escalate .halt

theorem placed_stepInstruction (placed : before.Placed) (memory : μ) :
    let after := ((stepInstruction.run before).perform memory).1.2
    after.Placed ∨ ReturnsMisplaced before memory after := by
  cases form : before.instructionSet with
  | native =>
    rw [run_stepInstruction form]
    exact placed_stepNative form memory
  | legacy registers =>
    rw [run_stepInstruction_legacy form]
    exact .inl (placed_stepLegacy placed form memory)

theorem placed_resolved (placed : before.Placed) (memory : μ) :
    (resolved before memory).1.Placed ∨ before.OverwritesAddress memory := by
  have attending : before.attending.Placed := placed.of_eq rfl rfl rfl
  cases resolved_ends before memory with
  | idle calm same =>
    rw [same]
    exact .inl attending
  | trapped pending ends =>
    left
    cases ends with
    | failed condition left error alike recorded =>
      have untrapped : before.attending.withoutTraps.Placed := attending.of_eq rfl rfl rfl
      rw [recorded]
      exact ((untrapped.resembles alike).raise _).raise _
    | entered entry top handed =>
      -- Handlers are native.
      obtain ⟨_, _, _, handling⟩ := before.attending.withoutTraps.handling_eq entry top
      left
      rw [handed, handling]
      rfl
  | refused error pending invalid same =>
    left
    rw [same]
    unfold refused
    split
    · exact attending.raise _
    · exact attending.of_eq rfl rfl rfl
  | exchanged pending valid same =>
    rw [same]
    rw [← candidate_attending] at valid
    rcases placed_exchanged valid with entered | ⟨monitor, older, checked, loaded⟩
    · exact .inl entered.rescanned
    · have destination : before.attending.exchangeDestination = before.monitorPackage :=
        if_pos monitor
      rw [destination, package_attending, candidate_attending] at loaded
      rw [candidate_attending] at older checked
      exact .inr ⟨pending, monitor, older, checked, loaded⟩
  | halted pending same =>
    rw [same]
    exact .inl (attending.of_eq rfl rfl rfl)

theorem placed_step (placed : before.Placed) (memory : μ) :
    let after := ((step.run before).perform memory).1.2
    after.Placed ∨ before.OverwritesAddress memory ∨
      ReturnsMisplaced (resolved before memory).1 (resolved before memory).2 after := by
  by_cases running : before.stopped = false
  · rw [perform_step_of_running running]
    have dealt := placed_resolved placed memory
    revert dealt
    rcases resolved before memory with ⟨ready, middle⟩
    intro dealt
    dsimp only at dealt ⊢
    rcases dealt with ready | overwrites
    · split
      · exact .inl ready
      split
      · exact .inl ready
      · exact (placed_stepInstruction ready middle).imp_right .inr
    · exact .inr (.inl overwrites)
  · left
    have stopped : before.stopped = true := by simpa using running
    rw [run_step_of_stopped stopped]
    exact placed

/-! ## Time, packages and deadstart -/

omit [Bus μ] in
theorem tick_reports (elapsed : HalfWord) (before : Processor) :
    ∃ systemTimer processTimer monitorConditions userConditions pending,
      ((tick elapsed).run before).Reports ((), { before with
        systemTimer, processTimer, monitorConditions, userConditions, pending }) := by
  unfold tick
  split
  · exact ⟨_, _, _, _, _, .done _⟩
  rw [StateT.run_bind, StateT.run_get, pure_bind]
  rcases countDown before.systemTimer elapsed with ⟨systemTimer, systemExpired⟩
  extract_lets rest
  -- The process timer runs whether or not the system timer has expired.
  have finished (between : Processor) : ∃ processTimer userConditions pending,
      ((rest ()).run between).Reports ((), { between with
        processTimer, userConditions, pending }) := by
    unfold rest
    rw [StateT.run_bind, StateT.run_get, pure_bind]
    dsimp only
    split
    · rcases countDown between.processTimer elapsed with ⟨processTimer, processExpired⟩
      cases processExpired with
      | false => exact ⟨_, _, _, .done _⟩
      | true => exact ⟨_, _, _, .notify _ (.done _)⟩
    · exact ⟨_, _, _, .done _⟩
  dsimp only
  rw [StateT.run_bind, StateT.run_modify, pure_bind]
  dsimp only
  cases systemExpired with
  | false =>
    obtain ⟨processTimer, userConditions, pending, reports⟩ :=
      finished { before with systemTimer }
    exact ⟨_, _, _, _, _, reports⟩
  | true =>
    obtain ⟨processTimer, userConditions, pending, reports⟩ :=
      finished (Processor.raise { before with systemTimer } (.monitor .systemIntervalTimer))
    exact ⟨_, _, _, _, _, .notify _ reports⟩

theorem placed_tick (placed : before.Placed) (elapsed : HalfWord) (memory : μ) :
    (((tick elapsed).run before).perform memory).1.2.Placed := by
  obtain ⟨_, _, _, _, _, reports⟩ := tick_reports elapsed before
  rw [reports.perform_eq]
  exact placed.of_eq rfl rfl rfl

theorem placed_loadPackage (placed : before.Placed) (address : HalfWord) (toMonitor : Bool)
    (memory : μ) :
    (((loadPackage address toMonitor).run before).perform memory).1.2.Placed := by
  rw [perform_loadPackage]
  split
  · exact placed
  generalize ((Activity.readPackage address).perform memory).1 = package
  dsimp only
  rcases valid : package.validate address toMonitor with error | _
  · exact placed
  · -- What was checked is what is loaded.
    rcases before.placed_load valid rfl with entered | ⟨-, -, checked, loaded⟩
    · exact entered.of_eq rfl rfl rfl
    · exact absurd loaded checked

end Routine

namespace Machine

variable {machine started : Machine} {number : Nat}

theorem processors_run {α : Type} {routine : Routine α} {result : α} {ran : Machine}
    (runs : machine.run number routine = .ok (result, ran)) :
    ∃ before, machine.processors[number]? = some before ∧
      ran.processors = machine.processors.set number
        ((routine.run before).perform machine.memory).1.2 := by
  unfold Machine.run runOn Machine.processor at runs
  rcases found : machine.processors[number]? with _ | before
  · rw [found] at runs
    cases runs
  · rw [found] at runs
    cases runs
    exact ⟨before, rfl, rfl⟩

theorem placed_deadstart {address : Option HalfWord}
    (starts : machine.deadstart number address = .ok started)
    (placed : ∀ processor ∈ machine.processors, processor.Placed) :
    ∀ processor ∈ started.processors, processor.Placed := by
  unfold deadstart at starts
  dsimp only at starts
  generalize (address.or machine.settings.processors.monitorPackage).getD 0 = source at starts
  generalize starting : (do
    let outcome ← Routine.loadPackage source true
    if outcome.isOk then modify Processor.restarted
    return outcome : Routine (Except PackageError Unit)) = routine at starts
  rcases runs : machine.run number routine with error | ⟨outcome, ran⟩
  · rw [runs] at starts
    cases starts
  rw [runs] at starts
  obtain ⟨before, found, processors⟩ := processors_run runs
  have same : ran = started := by
    rcases outcome with error | _
    · cases starts
    · exact Except.ok.inj starts
  -- A load that fails leaves the processor as it was, and restarting it does not move it.
  have loaded : ((routine.run before).perform machine.memory).1.2.Placed := by
    have here := Routine.placed_loadPackage (placed before (List.mem_of_getElem? found)) source true
      machine.memory
    rw [← starting, StateT.run_bind, Activity.perform_bind]
    revert here
    rcases ((Routine.loadPackage source true).run before).perform machine.memory with
      ⟨⟨outcome, left⟩, kept⟩
    intro here
    dsimp only at here ⊢
    rcases outcome with error | _
    · exact here
    · exact here.of_eq rfl rfl rfl
  intro processor member
  rw [← same, processors] at member
  rcases List.mem_or_eq_of_mem_set member with old | new
  · exact placed processor old
  · rw [new]
    exact loaded

end Machine

namespace Routine

open Processor

/-- The older instruction set stays in job mode and out of ring one, whatever is done, unless a
return leads into it there, or an exchange takes over an address that it has overwritten. -/
theorem legacy_placement [Bus μ] {before : Processor} (placed : before.Placed) (memory : μ) :
    (∀ condition, (((raise condition).run before).perform memory).1.2.Placed) ∧
    (∀ action, (before.escalate action).Placed) ∧
    (∀ elapsed, (((tick elapsed).run before).perform memory).1.2.Placed) ∧
    (∀ address toMonitor,
      (((loadPackage address toMonitor).run before).perform memory).1.2.Placed) ∧
    (∀ (machine started : Machine) number address,
      machine.deadstart number address = .ok started →
      (∀ other ∈ machine.processors, other.Placed) → ∀ other ∈ started.processors, other.Placed) ∧
    let after := ((step.run before).perform memory).1.2
    after.Placed ∨ before.OverwritesAddress memory ∨
      ReturnsMisplaced (resolved before memory).1 (resolved before memory).2 after := by
  refine ⟨fun condition => placed.raise condition, placed.escalate,
    fun elapsed => placed_tick placed elapsed memory,
    fun address toMonitor => placed_loadPackage placed address toMonitor memory,
    fun machine started number address starts => Machine.placed_deadstart starts,
    placed_step placed memory⟩

def returningMonitor : Processor := { smallJob with monitorMode := true }

def innermostJob : Processor :=
  { smallJob with p := ⟨1, 0, 0⟩, a := Vector.replicate 16 ⟨1, 0, 0x100⟩ }

def returningMemory (ring : Word) : CyclicMemory :=
  ⟨4096, ((((((WordStore.empty.set 0 0x6A1B000000000000).set 512 0x8000000000000010).set 1024
    0x0400000000000000).set 1056 (ring <<< 44 ||| 0x40)).set 1057
    (0x1000000000000100 ||| ring <<< 44)).set 1058 (0x0200000000000100 ||| ring <<< 44)).set 1059
    (0xFFFF000000000100 ||| ring <<< 44)⟩

/-- A monitor in ring one whose own package area is that of the job. -/
def crampedMonitor : Processor :=
  { smallJob with
    p := ⟨1, 0, 0⟩
    monitorMode := true
    monitorPackage := 0x2000
    jobPackage := 0x2000
    pending := .exchange }

def crampedMemory : CyclicMemory :=
  ⟨4096, (WordStore.empty.set 1024 0x0000B00000000000).set 1025 0x1000000000000000⟩

theorem returningMonitor_misplaced :
    returningMonitor.Placed ∧
      ReturnsMisplaced (resolved returningMonitor (returningMemory 11)).1
        (resolved returningMonitor (returningMemory 11)).2
        ((step.run returningMonitor).perform (returningMemory 11)).1.2 := by
  have placed : returningMonitor.Placed := by decide
  obtain ⟨-, -, -, -, -, steps⟩ := legacy_placement placed (returningMemory 11)
  refine ⟨placed, ?_⟩
  rcases steps with stays | overwrites | misplaced
  · exact absurd stays (by decide +kernel)
  · exact absurd overwrites.pending (by decide)
  · exact misplaced

/-- A return and an exchange lead the older instruction set into monitor mode or ring one. -/
theorem legacy_misplaced :
    (returningMonitor.Placed ∧
      ¬ ((step.run returningMonitor).perform (returningMemory 11)).1.2.Placed) ∧
    (innermostJob.Placed ∧
      ¬ ((step.run innermostJob).perform (returningMemory 1)).1.2.Placed) ∧
    (crampedMonitor.Placed ∧
      ¬ ((step.run crampedMonitor).perform crampedMemory).1.2.Placed) := by
  decide +kernel

end Routine

end Mainframe
