import Mainframe.Memory.Activity
import Mainframe.Processor.State

/-! Routines: activities that read and change the state of a processor. A routine that carries
out an instruction may instead end in a fault, which is the condition to be raised. The state
reached before a fault is kept. -/

set_option autoImplicit false

namespace Mainframe

abbrev Routine (α : Type) := StateT Processor Activity α

abbrev Execution (α : Type) := ExceptT Condition Routine α

namespace Routine

def report (happening : Happening) : Routine Unit := do
  let processor ← get
  Activity.give { processor := processor.number, happening }

end Routine

end Mainframe
