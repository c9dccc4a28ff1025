import Mainframe.Proofs.Isolation
import Mainframe.Translation.Install

/-! Watching processors. A machine whose processors are watched answers every command as it does
when nobody watches, and its processors and memory end up the same. What a run adds to the journal
is what its commands add on their own, one after another. -/

set_option autoImplicit false

namespace Mainframe.Machine

deriving instance DecidableEq for Happening, Notice

/-! ## Commands -/

inductive Command where
  | step (number : Nat)
  | stepAll
  | tick (elapsed : HalfWord)
  | raise (number : Nat) (condition : Condition)
  | rescan (number : Nat)
  | exchange (number : Nat)
  | deadstart (number : Nat) (address : Option HalfWord)
  | loadPackage (number : Nat) (address : HalfWord) (toMonitor : Bool)
  | storePackage (number : Nat) (address : HalfWord)
  | enterSegment (number segment : Nat) (descriptor : SegmentDescriptor)
  | enterPage (number : Nat) (asid : BitVec 16) (page frame : HalfWord)
  | setRegister (number : Nat) (register : StateRegister) (word : Word)
  | adjust (number : Nat) (change : Processor → Processor)
  | save (address : Address) (word : Word)

inductive Reply where
  | done
  | stepped (exit : StepExit)
  | running (count : Nat)
  | loaded (outcome : Except PackageError Unit)
  | entered (within : Bool)
  | placed (index : Option PageIndex)
  | refused (error : MachineError)

variable {α β : Type}

/-- The reply to a command. One that is refused leaves the machine as it was. -/
def answer (machine : Machine) (reply : α → Reply) :
    Except MachineError (α × Machine) → Reply × Machine
  | .ok (result, after) => (reply result, after)
  | .error error => (.refused error, machine)

def carryOut (machine : Machine) : Command → Reply × Machine
  | .step number => machine.answer .stepped (machine.step number)
  | .stepAll => (.running machine.stepAll.1, machine.stepAll.2)
  | .tick elapsed => (.done, machine.tick elapsed)
  | .raise number condition =>
    machine.answer (fun _ => .done) (((), ·) <$> machine.raise number condition)
  | .rescan number => machine.answer (fun _ => .done) (machine.run number Routine.rescan)
  | .exchange number => machine.answer (fun _ => .done) (machine.run number Routine.exchange)
  | .deadstart number address =>
    machine.answer (fun _ => .done) (((), ·) <$> machine.deadstart number address)
  | .loadPackage number address toMonitor =>
    machine.answer .loaded (machine.run number (Routine.loadPackage address toMonitor))
  | .storePackage number address =>
    machine.answer (fun _ => .done) (machine.run number (Routine.storePackage address))
  | .enterSegment number segment descriptor =>
    machine.answer .entered (machine.run number do
      (← get).translation.installSegment segment descriptor)
  | .enterPage number asid page frame =>
    machine.answer .placed (machine.run number do
      (← get).translation.installPage asid page frame)
  | .setRegister number register word =>
    machine.answer (fun _ => .done) (machine.run number (Routine.setStateRegister register word))
  | .adjust number change =>
    machine.answer (fun _ => .done) (machine.run number (modify change))
  | .save address word => (.done, { machine with memory := machine.memory.save address word })

structure Stage where
  before : Machine
  command : Command
  reply : Reply
  after : Machine

def course : Machine → List Command → List Stage
  | _, [] => []
  | machine, command :: rest =>
    let (reply, after) := machine.carryOut command
    ⟨machine, command, reply, after⟩ :: after.course rest

def afterAll (machine : Machine) (commands : List Command) : Machine :=
  commands.foldl (fun machine command => (machine.carryOut command).2) machine

def emptied (machine : Machine) : Machine := { machine with journal := [] }

namespace Stage

/-- What a driver gets to see of a stage without watching. -/
def shown (stage : Stage) : Reply × List Processor × RealMemory :=
  (stage.reply, stage.after.processors, stage.after.memory)

/-- What the command of a stage adds to an empty journal. -/
def recorded (stage : Stage) : List Notice :=
  (stage.before.emptied.carryOut stage.command).2.journal

end Stage

/-! ## Two machines -/

/-- The second machine is the first, but that fewer of its processors may be watched. It has in
its journal, after a given start, what those who are watched have given. -/
structure Overhears (watched : Nat → Bool) (start : List Notice) (fuller lesser : Machine) :
    Prop where
  within : ∀ number, watched number = true → fuller.watched number = true
  eq : lesser = { fuller with
    watched
    journal := start ++ fuller.journal.filter fun notice => watched notice.processor }

/-- Both outcomes are a refusal, or one result with machines of which one overhears the other. -/
inductive Agree (watched : Nat → Bool) (start : List Notice) :
    Except MachineError (α × Machine) → Except MachineError (α × Machine) → Prop where
  | refused (error : MachineError) : Agree watched start (.error error) (.error error)
  | done (result : α) {fuller lesser : Machine} (overhears : Overhears watched start fuller lesser) :
    Agree watched start (.ok (result, fuller)) (.ok (result, lesser))

variable {watched : Nat → Bool} {start : List Notice} {fuller lesser : Machine}

theorem Agree.bind {first second : Except MachineError (α × Machine)}
    (agree : Agree watched start first second)
    {next : α × Machine → Except MachineError (β × Machine)}
    (goesOn : ∀ result fuller lesser, Overhears watched start fuller lesser →
      Agree watched start (next (result, fuller)) (next (result, lesser))) :
    Agree watched start (first >>= next) (second >>= next) := by
  cases agree with
  | refused error => exact .refused error
  | done result overhears => exact goesOn result _ _ overhears

namespace Overhears

variable (overhears : Overhears watched start fuller lesser)

include overhears

theorem record (notices : List Notice) :
    Overhears watched start (fuller.record notices) (lesser.record notices) := by
  obtain ⟨within, rfl⟩ := overhears
  refine ⟨within, ?_⟩
  have both (notice : Notice) :
      (watched notice.processor && fuller.watched notice.processor) = watched notice.processor := by
    cases heard : watched notice.processor with
    | false => rfl
    | true => exact within _ heard
  unfold Machine.record
  simp only [List.filter_append, List.filter_filter, both, List.append_assoc]

theorem processors_eq : lesser.processors = fuller.processors := by rw [overhears.eq]

theorem memory_eq : lesser.memory = fuller.memory := by rw [overhears.eq]

theorem settings_eq : lesser.settings = fuller.settings := by rw [overhears.eq]

theorem replace (processors : List Processor) (memory : RealMemory) :
    Overhears watched start { fuller with processors, memory }
      { lesser with processors, memory } := by
  obtain ⟨within, rfl⟩ := overhears
  exact ⟨within, rfl⟩

theorem run (number : Nat) (routine : Routine α) :
    Agree watched start (fuller.run number routine) (lesser.run number routine) := by
  rcases found : fuller.processors[number]? with _ | sender
  · rw [run_missing found, run_missing (overhears.processors_eq ▸ found)]
    exact .refused _
  · rw [run_present found, run_present (overhears.processors_eq ▸ found), overhears.memory_eq,
      overhears.processors_eq]
    have moved := overhears.replace
      (fuller.processors.set number ((routine.run sender).perform fuller.memory).1.2)
      ((routine.run sender).perform fuller.memory).2
    exact .done _ (moved.record ((routine.run sender).notices fuller.memory))

theorem runIfPresent (number : Nat) (routine : Routine Unit) :
    Overhears watched start (fuller.runIfPresent number routine)
      (lesser.runIfPresent number routine) := by
  have agree := overhears.run number routine
  unfold Machine.runIfPresent
  generalize fuller.run number routine = first at agree
  generalize lesser.run number routine = second at agree
  cases agree with
  | refused error => exact overhears
  | done result still => exact still

theorem step (number : Nat) :
    Agree watched start (fuller.step number) (lesser.step number) := by
  refine (overhears.run number _).bind fun (exit, request) fuller lesser overhears => ?_
  cases request with
  | none => exact .done exit overhears
  | some target => exact .done exit (overhears.runIfPresent target _)

theorem stepEach (numbers : List Nat) :
    (stepEach numbers lesser).1 = (stepEach numbers fuller).1 ∧
      Overhears watched start (stepEach numbers fuller).2 (stepEach numbers lesser).2 := by
  induction numbers generalizing fuller lesser with
  | nil => exact ⟨rfl, overhears⟩
  | cons number rest ih =>
    have agree := overhears.step number
    unfold Machine.stepEach
    generalize fuller.step number = first at agree
    generalize lesser.step number = second at agree
    cases agree with
    | refused error => exact ih overhears
    | done exit still =>
      obtain ⟨running, others⟩ := ih still
      refine ⟨?_, others⟩
      dsimp only
      rw [running]

theorem tick (elapsed : HalfWord) :
    Overhears watched start (fuller.tick elapsed) (lesser.tick elapsed) := by
  unfold Machine.tick
  rw [overhears.processors_eq]
  generalize List.range fuller.processors.length = numbers
  induction numbers generalizing fuller lesser with
  | nil => exact overhears
  | cons number rest ih => exact ih (overhears.runIfPresent number _)

theorem deadstart (number : Nat) (address : Option HalfWord) :
    Agree watched start (((), ·) <$> fuller.deadstart number address)
      (((), ·) <$> lesser.deadstart number address) := by
  unfold Machine.deadstart
  rw [overhears.settings_eq, map_bind, map_bind]
  refine (overhears.run number _).bind fun outcome fuller lesser overhears => ?_
  cases outcome with
  | ok loaded => exact .done () overhears
  | error error => exact .refused (.package error)

theorem raise (number : Nat) (condition : Condition) :
    Agree watched start (((), ·) <$> fuller.raise number condition)
      (((), ·) <$> lesser.raise number condition) := by
  unfold Machine.raise
  rw [map_bind, map_bind]
  exact (overhears.run number _).bind fun _ _ _ overhears => .done () overhears

theorem answer {first second : Except MachineError (α × Machine)}
    (agree : Agree watched start first second) (reply : α → Reply) :
    (lesser.answer reply second).1 = (fuller.answer reply first).1 ∧
      Overhears watched start (fuller.answer reply first).2 (lesser.answer reply second).2 := by
  cases agree with
  | refused error => exact ⟨rfl, overhears⟩
  | done result still => exact ⟨rfl, still⟩

theorem carryOut (command : Command) :
    (lesser.carryOut command).1 = (fuller.carryOut command).1 ∧
      Overhears watched start (fuller.carryOut command).2 (lesser.carryOut command).2 := by
  cases command with
  | step number => exact overhears.answer (overhears.step number) _
  | stepAll =>
    unfold Machine.carryOut stepAll
    rw [overhears.processors_eq]
    obtain ⟨running, still⟩ := overhears.stepEach (List.range fuller.processors.length)
    exact ⟨congrArg Reply.running running, still⟩
  | tick elapsed => exact ⟨rfl, overhears.tick elapsed⟩
  | raise number condition => exact overhears.answer (overhears.raise number condition) _
  | deadstart number address => exact overhears.answer (overhears.deadstart number address) _
  | save address word =>
    obtain ⟨within, rfl⟩ := overhears
    exact ⟨rfl, within, rfl⟩
  | _ => exact overhears.answer (overhears.run _ _) _

end Overhears

/-! ## Runs -/

/-- The second machine is the first with fewer of its processors watched, whatever either has
recorded before. -/
structure Matches (watched : Nat → Bool) (fuller lesser : Machine) : Prop where
  within : ∀ number, watched number = true → fuller.watched number = true
  eq : lesser = { fuller with watched, journal := lesser.journal }

namespace Matches

theorem refl (machine : Machine) : Matches machine.watched machine machine :=
  ⟨fun _ => id, rfl⟩

variable (alike : Matches watched fuller lesser)

include alike

theorem overhears : Overhears watched lesser.journal fuller.emptied lesser := by
  refine ⟨alike.within, ?_⟩
  unfold emptied
  rw [List.filter_nil, List.append_nil]
  exact alike.eq

theorem emptied : Overhears watched [] fuller.emptied lesser.emptied := by
  refine ⟨alike.within, ?_⟩
  rw [alike.eq]
  rfl

theorem journal_emptied (command : Command) :
    (lesser.emptied.carryOut command).2.journal =
      (fuller.emptied.carryOut command).2.journal.filter fun notice => watched notice.processor := by
  rw [(alike.emptied.carryOut command).2.eq]
  rfl

end Matches

theorem carryOut_emptied (machine : Machine) (command : Command) :
    machine.carryOut command =
      let (reply, after) := machine.emptied.carryOut command
      (reply, { after with journal := machine.journal ++ after.journal }) := by
  have same := Matches.refl machine
  obtain ⟨reply, after⟩ := same.overhears.carryOut command
  have watched : (machine.emptied.carryOut command).2.watched = machine.watched :=
    (congrArg Machine.watched (same.emptied.carryOut command).2.eq).trans rfl
  refine Prod.ext reply (after.eq.trans ?_)
  rw [← same.journal_emptied command, ← watched]

theorem Matches.carryOut (alike : Matches watched fuller lesser) (command : Command) :
    (lesser.carryOut command).1 = (fuller.carryOut command).1 ∧
      Matches watched (fuller.carryOut command).2 (lesser.carryOut command).2 := by
  obtain ⟨reply, after⟩ := alike.emptied.carryOut command
  rw [carryOut_emptied fuller, carryOut_emptied lesser]
  refine ⟨reply, after.within, ?_⟩
  dsimp only
  rw [after.eq]

theorem Matches.course (alike : Matches watched fuller lesser) (commands : List Command) :
    (lesser.course commands).map Stage.shown = (fuller.course commands).map Stage.shown ∧
      (lesser.course commands).map Stage.recorded = (fuller.course commands).map fun stage =>
        stage.recorded.filter fun notice => watched notice.processor := by
  induction commands generalizing fuller lesser with
  | nil => exact ⟨rfl, rfl⟩
  | cons command rest ih =>
    obtain ⟨reply, after⟩ := alike.carryOut command
    obtain ⟨shown, recorded⟩ := ih after
    unfold Machine.course
    simp only [List.map_cons, shown, recorded]
    constructor
    · unfold Stage.shown
      dsimp only
      rw [reply, after.eq]
    · unfold Stage.recorded
      dsimp only
      rw [alike.journal_emptied command]

theorem journal_afterAll (machine : Machine) (commands : List Command) :
    (machine.afterAll commands).journal =
      machine.journal ++ (machine.course commands).flatMap Stage.recorded := by
  induction commands generalizing machine with
  | nil => exact (List.append_nil _).symm
  | cons command rest ih =>
    change ((machine.carryOut command).2.afterAll rest).journal = _
    rw [ih]
    change _ = machine.journal ++ ((machine.emptied.carryOut command).2.journal ++ _)
    rw [← List.append_assoc]
    congr 1
    rw [carryOut_emptied]

/-- Watching changes nothing that a run shows. The journal grows by what each command records on
its own, which is what those who are watched give out of all that happens. -/
theorem watching_inert (machine : Machine) (watched : Nat → Bool) (commands : List Command) :
    ((machine.watch watched).course commands).map Stage.shown =
        ((machine.watch fun _ => false).course commands).map Stage.shown ∧
      ((machine.watch watched).afterAll commands).journal =
        machine.journal ++ ((machine.watch watched).course commands).flatMap Stage.recorded ∧
      ((machine.watch watched).course commands).map Stage.recorded =
        ((machine.watch fun _ => true).course commands).map fun stage =>
          stage.recorded.filter fun notice => watched notice.processor := by
  have unwatched : Matches (fun _ => false) (machine.watch watched) (machine.watch fun _ => false) :=
    ⟨nofun, rfl⟩
  have all : Matches watched (machine.watch fun _ => true) (machine.watch watched) :=
    ⟨fun _ _ => rfl, rfl⟩
  exact ⟨(unwatched.course commands).1.symm, journal_afterAll _ commands, (all.course commands).2⟩

/-- The fetch is of the sender, and the interrupt is raised on the other processor. -/
theorem interruptedPair_watched :
    let fetched : Notice := ⟨0, .translated ⟨11, 0, 0⟩ .forExecute (.ok 0x2000)⟩
    let interrupted : Notice := ⟨1, .raised (.monitor .externalInterrupt) .exchange⟩
    ((interruptedPair.watch fun _ => true).course [.step 0]).map Stage.recorded =
        [[fetched, interrupted]] ∧
      ((interruptedPair.watch (· == 1)).course [.step 0]).map Stage.recorded = [[interrupted]] ∧
      ((interruptedPair.watch fun _ => false).course [.step 0]).map Stage.recorded = [[]] ∧
      ((interruptedPair.watch (· == 1)).course [.step 0]).map Stage.shown =
        ((interruptedPair.watch fun _ => false).course [.step 0]).map Stage.shown := by
  intro fetched interrupted
  have all : ((interruptedPair.watch fun _ => true).course [.step 0]).map Stage.recorded =
      [[fetched, interrupted]] := by decide +kernel
  have heard (watched : Nat → Bool) :
      ((interruptedPair.watch watched).course [.step 0]).map Stage.recorded =
        [[fetched, interrupted].filter fun notice => watched notice.processor] := by
    obtain ⟨-, -, selected⟩ := watching_inert interruptedPair watched [.step 0]
    have each := congrArg (List.map (List.filter fun notice => watched notice.processor)) all
    rw [List.map_map] at each
    exact selected.trans each
  obtain ⟨shown, -, -⟩ := watching_inert interruptedPair (· == 1) [.step 0]
  exact ⟨all, heard _, heard _, shown⟩

end Mainframe.Machine
