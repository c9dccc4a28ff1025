import Mainframe.Activation.Trap
import Mainframe.Exchange.Swap
import Mainframe.Execute.Dispatch

/-! One step of a processor: what is pending is dealt with, an instruction is fetched, carried out
and committed. -/

set_option autoImplicit false

namespace Mainframe

inductive StepExit where
  | executed
  | aborted
  | resolved
  | halted
  | legacy
  deriving DecidableEq

namespace Processor

def beginInstruction (processor : Processor) : Processor :=
  { processor with
    currentAddress := processor.p
    nextAddress := processor.p
    nextKey := processor.key }

def withInstruction (processor : Processor) (instruction : Instruction) : Processor :=
  { processor with
    instruction
    nextAddress := processor.p.offset instruction.length }

/-- Go on to the next instruction. The one that ends here counts if it was completed. -/
def commit (processor : Processor) (completed : Bool) : Processor :=
  { processor with
    p := processor.nextAddress
    key := processor.nextKey
    retired := if completed then processor.retired + 1 else processor.retired }

end Processor

namespace Execution

def fetchParcel (address : VirtualAddress) : Execution Parcel := do
  if address.byteNumber.getLsbD 0 then faultAt address .addressSpecification
  let real ← translate address .forExecute
  let word ← Activity.readWord real
  return word.extractLsb' (16 * (3 - real.toNat % 8 / 2)) 16

def fetchInstruction : Execution Instruction := do
  let address := (← get).p
  let first ← fetchParcel address
  let format := formatOf (Instruction.opcodeOf first)
  let second ← if format.hasSecondParcel then fetchParcel (address.offset 2) else pure 0
  return .decode format first second

end Execution

namespace Routine

def resolvePending : Routine Unit := do
  let processor ← get
  set { processor with pending := .proceed }
  match processor.pending with
  | .proceed | .stack => return
  | .trap => enterTrap
  | .exchange => exchange
  | .halt => modify fun processor => { processor with stopped := true }

def dispatch (instruction : Instruction) : Routine Unit := do
  modify fun processor => processor.withInstruction instruction
  match ← (Execution.execute instruction).run with
  | .ok () => modify fun processor => processor.commit true
  | .error condition =>
    fault condition
    modify fun processor => processor.commit condition.policy.completes

def stepNative : Routine StepExit := do
  modify Processor.beginInstruction
  match ← Execution.fetchInstruction.run with
  | .error condition =>
    raise condition
    return .aborted
  | .ok instruction =>
    dispatch instruction
    return .executed

def stepLegacy (registers : LegacyRegisters) : Routine StepExit := do
  match (← get).engine with
  | none => return .legacy
  | some engine =>
    let turn ← engine.turn engine.memo registers
    modify fun processor => { processor with
      p := processor.p.withByteNumber turn.registers.byteNumber
      instructionSet := .legacy turn.registers
      engine := some { engine with memo := turn.memo } }
    match turn.exit with
    | .proceed => modify fun processor => { processor with retired := processor.retired + 1 }
    | .exchangeJump =>
      modify fun processor => { processor with retired := processor.retired + 1 }
      raise (.monitor .systemCall)
    | .halt => modify fun processor => processor.escalate .halt
    return .executed

def stepInstruction : Routine StepExit := do
  match (← get).instructionSet with
  | .native => stepNative
  | .legacy registers => stepLegacy registers

/-- One step. It ends early if the processor is or becomes stopped, or if dealing with the
pending action has left another one that interrupts. -/
def step : Routine StepExit := do
  if (← get).stopped then return .halted
  -- The counter also counts steps that carry out no instruction.
  modify fun processor => { processor with freeRunning := processor.freeRunning + 1 }
  resolvePending
  let processor ← get
  if processor.stopped then return .halted
  if processor.pending.Interrupts then return .resolved
  stepInstruction

end Routine

end Mainframe
