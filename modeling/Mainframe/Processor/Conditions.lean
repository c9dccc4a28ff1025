import Mainframe.Processor.Routine

/-! Raising conditions: a bit in the register of the class, and an action that may outrank the
one already pending. -/

set_option autoImplicit false

namespace Mainframe

namespace Processor

def selects (processor : Processor) : Condition → Bool
  | .monitor condition => (processor.monitorMask &&& ordinalBit condition.ordinal) != 0
  | .user condition => (processor.userMask &&& ordinalBit condition.ordinal) != 0

def actionOf (processor : Processor) (condition : Condition) : Action :=
  condition.policy.action (processor.selects condition) processor.monitorMode
    processor.trapControl.enabled

def holds (processor : Processor) : Condition → Bool
  | .monitor condition => (processor.monitorConditions &&& ordinalBit condition.ordinal) != 0
  | .user condition => (processor.userConditions &&& ordinalBit condition.ordinal) != 0

def withCondition (processor : Processor) : Condition → Processor
  | .monitor condition => { processor with
      monitorConditions := processor.monitorConditions ||| ordinalBit condition.ordinal }
  | .user condition => { processor with
      userConditions := processor.userConditions ||| ordinalBit condition.ordinal }

def withoutCondition (processor : Processor) : Condition → Processor
  | .monitor condition => { processor with
      monitorConditions := processor.monitorConditions &&& ~~~ ordinalBit condition.ordinal }
  | .user condition => { processor with
      userConditions := processor.userConditions &&& ~~~ ordinalBit condition.ordinal }

def escalate (processor : Processor) (action : Action) : Processor :=
  { processor with pending := max processor.pending action }

def raise (processor : Processor) (condition : Condition) : Processor :=
  (processor.withCondition condition).escalate (processor.actionOf condition)

/-- Raise a condition that ends the running instruction. Where its policy says so, the
instruction is the next one again. -/
def fault (processor : Processor) (condition : Condition) : Processor :=
  if condition.policy.retainsAddress ∧ (processor.actionOf condition).Interrupts then
    { processor.raise condition with
      nextAddress := processor.currentAddress
      nextKey := processor.key }
  else processor.raise condition

def conditions (processor : Processor) : List Condition := Condition.all.filter processor.holds

def delivers (processor : Processor) (condition : Condition) : Bool :=
  processor.holds condition && decide (processor.actionOf condition).Interrupts

end Processor

def conditionBits (conditions : List Condition) (test : Condition → Bool) : ConditionBits :=
  (conditions.filter test).foldl (fun bits condition => bits ||| condition.bit) 0

namespace Processor

def deliverableMonitor (processor : Processor) : ConditionBits :=
  conditionBits (MonitorCondition.all.map .monitor) processor.delivers

def deliverableUser (processor : Processor) : ConditionBits :=
  conditionBits (UserCondition.all.map .user) processor.delivers

end Processor

namespace Routine

def raise (condition : Condition) : Routine Unit := do
  let processor ← get
  set (processor.raise condition)
  report (.raised condition (processor.actionOf condition))

def fault (condition : Condition) : Routine Unit := do
  let processor ← get
  set (processor.fault condition)
  report (.raised condition (processor.actionOf condition))

/-- Raise again every condition whose bit is set, so that a change of masks or modes takes
effect. -/
def rescan : Routine Unit := do
  (← get).conditions.forM raise

end Routine

namespace Execution

def monitorFault {α : Type} (condition : MonitorCondition) : Execution α :=
  throw (.monitor condition)

def userFault {α : Type} (condition : UserCondition) : Execution α :=
  throw (.user condition)

/-- End the instruction with a monitor condition and leave the address that led to it. -/
def faultAt {α : Type} (address : VirtualAddress) (condition : MonitorCondition) : Execution α := do
  modify fun processor => { processor with
    translation := { processor.translation with untranslatable := address } }
  monitorFault condition

end Execution

end Mainframe
