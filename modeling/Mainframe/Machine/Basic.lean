import Mainframe.Machine.Settings
import Mainframe.Processor.Step
import Mainframe.Processor.Timer

/-! A machine: central memory and the processors that share it. Whoever drives the machine steps
its processors one at a time; interrupts between processors are delivered after each step. -/

set_option autoImplicit false

namespace Mainframe

namespace Processor

def initial (number : Nat) (settings : ProcessorSettings) : Processor :=
  let start : VirtualAddress := ⟨settings.startRing.setWidth 4, 0, 0⟩
  { number
    p := start
    key := 0
    a := Vector.replicate 16 .zero
    x := Vector.replicate 16 0
    virtualMachine := 0
    flags := .clear
    trapControl := ⟨true, false, false⟩
    userMask := settings.userMask
    monitorMask := settings.monitorMask
    userConditions := 0
    monitorConditions := 0
    monitorMode := true
    translation := { TranslationUnit.initial with
      pageSizeMask := settings.pageSizeMask.setWidth 7 }
    monitorPackage := settings.monitorPackage.getD 0
    jobPackage := settings.jobPackage.getD 0
    processTimer := 0
    systemTimer := 0
    baseConstant := 0
    trapPointer := 0
    debugList := 0
    debugMask := 0
    keypointMask := 0
    keypointCode := 0
    lastProcessor := 0
    largestRing := 0
    stackTops := Vector.replicate 15 .zero
    pending := .proceed
    instruction := default
    currentAddress := start
    nextAddress := start
    nextKey := 0
    stopped := settings.startHalted
    freeRunning := 0
    retired := 0
    interruptRequest := none
    instructionSet := .native
    engine := none }

end Processor

/-- Notices of the watched processors are kept in the journal, oldest first. -/
structure Machine where
  settings : Settings
  memory : RealMemory
  processors : List Processor
  watched : Nat → Bool
  journal : List Notice

inductive MachineError where
  | noSuchProcessor (number : Nat)
  | package (error : PackageError)
  deriving DecidableEq

def MachineError.message : MachineError → String
  | .noSuchProcessor number => "no processor " ++ toString number
  | .package error => error.message

namespace Machine

def create (settings : Settings) : Except SettingsError Machine := do
  settings.validate
  let memory ← (RealMemory.create settings.memory).mapError .memory
  return {
    settings
    memory
    processors := (List.range settings.processors.count).map
      fun number => .initial number settings.processors
    watched := fun _ => false
    journal := [] }

def processor (machine : Machine) (number : Nat) : Except MachineError Processor :=
  match machine.processors[number]? with
  | some processor => .ok processor
  | none => .error (.noSuchProcessor number)

def withProcessor (machine : Machine) (number : Nat) (processor : Processor) : Machine :=
  { machine with processors := machine.processors.set number processor }

def record (machine : Machine) (notices : List Notice) : Machine :=
  { machine with
    journal := machine.journal ++ notices.filter fun notice => machine.watched notice.processor }

def watch (machine : Machine) (watched : Nat → Bool) : Machine := { machine with watched }

def runOn {μ α : Type} [Bus μ] (machine : Machine) (memory : μ) (number : Nat)
    (routine : Routine α) : Except MachineError (α × μ × Machine) := do
  let activity := routine.run (← machine.processor number)
  let ((result, processor), changed) := activity.perform memory
  return (result, changed,
    (machine.withProcessor number processor).record (activity.notices memory))

def run {α : Type} (machine : Machine) (number : Nat) (routine : Routine α) :
    Except MachineError (α × Machine) := do
  let (result, memory, ran) ← machine.runOn machine.memory number routine
  return (result, { ran with memory })

def runIfPresent (machine : Machine) (number : Nat) (routine : Routine Unit) : Machine :=
  match machine.run number routine with
  | .ok ((), ran) => ran
  | .error _ => machine

def takeInterruptRequest : Routine (Option Nat) := do
  let processor ← get
  set { processor with interruptRequest := none }
  return processor.interruptRequest

/-- Step a processor, then deliver the interrupt that it asked for. One for a processor that does
not exist is lost. -/
def step (machine : Machine) (number : Nat) : Except MachineError (StepExit × Machine) := do
  let ((exit, request), ran) ← machine.run number do
    let exit ← Routine.step
    return (exit, ← takeInterruptRequest)
  match request with
  | none => return (exit, ran)
  | some target => return (exit, ran.runIfPresent target (Routine.raise (.monitor .externalInterrupt)))

/-- Step the numbered processors in turn. The result is how many are still running. -/
def stepEach : List Nat → Machine → Nat × Machine
  | [], machine => (0, machine)
  | number :: rest, machine =>
    match machine.step number with
    | .error _ => stepEach rest machine
    | .ok (exit, stepped) =>
      let (running, after) := stepEach rest stepped
      (if exit = .halted then running else running + 1, after)

def stepAll (machine : Machine) : Nat × Machine :=
  stepEach (List.range machine.processors.length) machine

def tick (machine : Machine) (elapsed : HalfWord) : Machine :=
  (List.range machine.processors.length).foldl
    (fun ticking number => ticking.runIfPresent number (Routine.tick elapsed)) machine

def raise (machine : Machine) (number : Nat) (condition : Condition) :
    Except MachineError Machine := do
  return (← machine.run number (Routine.raise condition)).2

/-- Start a processor in monitor mode from the package at an address, or else from the monitor
package of the settings. -/
def deadstart (machine : Machine) (number : Nat) (address : Option HalfWord) :
    Except MachineError Machine := do
  let source := (address.or machine.settings.processors.monitorPackage).getD 0
  let (outcome, started) ← machine.run number do
    let outcome ← Routine.loadPackage source true
    if outcome.isOk then modify Processor.restarted
    return outcome
  match outcome with
  | .ok () => return started
  | .error error => throw (.package error)

end Machine

end Mainframe
