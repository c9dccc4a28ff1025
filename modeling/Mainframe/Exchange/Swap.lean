import Mainframe.Activation.Frame
import Mainframe.Exchange.Package
import Mainframe.Processor.Conditions

/-! The exchange between job and monitor: the state of the one is left in its package and the
state of the other loaded from its own. -/

set_option autoImplicit false

namespace Mainframe

namespace Processor

def package (processor : Processor) : ExchangePackage :=
  let view := processor.nativeView
  { p := view.p
    key := processor.key.setWidth 6
    instructionMachine := processor.instructionSet.virtualMachine
    virtualMachine := processor.virtualMachine.setWidth 4
    a := view.a
    flags := processor.flags
    trapControl := processor.trapControl
    userMask := processor.userMask
    monitorMask := processor.monitorMask
    userConditions := processor.userConditions
    monitorConditions := processor.monitorConditions
    lastProcessor := processor.lastProcessor
    keypointMask := processor.keypointMask
    x := view.x
    monitorPackage := processor.monitorPackage
    keypointCode := processor.keypointCode
    segmentLimit := processor.translation.segmentLimit
    segmentTable := processor.translation.segmentTable
    baseConstant := processor.baseConstant
    processTimer := processor.processTimer
    untranslatable := processor.translation.untranslatable
    trapPointer := processor.trapPointer
    debugList := processor.debugList
    debugMask := processor.debugMask
    largestRing := processor.largestRing.setWidth 4
    stackTops := processor.stackTops }

def load (processor : Processor) (package : ExchangePackage) (address : HalfWord)
    (toMonitor : Bool) : Processor :=
  { processor with
    p := package.p
    key := package.key.setWidth 8
    a := package.a
    x := package.x
    virtualMachine := package.virtualMachine.setWidth 8
    flags := package.flags
    trapControl := package.trapControl
    userMask := package.userMask
    monitorMask := package.monitorMask
    userConditions := package.userConditions
    monitorConditions := package.monitorConditions
    monitorMode := toMonitor
    translation := { processor.translation with
      segmentTable := package.segmentTable
      segmentLimit := package.segmentLimit
      untranslatable := package.untranslatable }
    monitorPackage := if toMonitor then address else package.monitorPackage
    processTimer := package.processTimer
    baseConstant := package.baseConstant
    trapPointer := package.trapPointer
    debugList := package.debugList
    debugMask := package.debugMask
    keypointMask := package.keypointMask
    keypointCode := package.keypointCode
    lastProcessor := package.lastProcessor
    largestRing := package.largestRing.setWidth 8
    stackTops := package.stackTops
    currentAddress := package.p
    nextAddress := package.p
    nextKey := package.key.setWidth 8
    instructionSet :=
      if package.instructionMachine = 1 then .legacy (.ofNative ⟨package.p, package.a, package.x⟩)
      else .native }

end Processor

namespace Routine

def storePackage (address : HalfWord) : Routine Unit := do
  Activity.writePackage address (← get).package

/-- Change between job and monitor. A package that the monitor cannot be loaded from stops the
processor; one that a job cannot be loaded from is a condition for the monitor. Either leaves
memory and the rest of the state alone. The package is read again after the present state has
been written, which may have overlapped it, but its instruction set is the one found valid. -/
def exchange : Routine Unit := do
  let left ← get
  let toMonitor := !left.monitorMode
  let source := if toMonitor then left.monitorPackage else left.jobPackage
  let destination := if toMonitor then left.jobPackage else left.monitorPackage
  let candidate ← Activity.readPackage source
  match candidate.validate source toMonitor with
  | .error _ =>
    if toMonitor then set { left with stopped := true }
    else raise (.monitor .environmentSpecification)
  | .ok () =>
    storePackage destination
    -- The two areas may overlap.
    let package ← Activity.readPackage source
    let entered := left.load { package with instructionMachine := candidate.instructionMachine }
      source toMonitor
    set entered
    if left.instructionSet.isLegacy || entered.instructionSet.isLegacy then
      report .legacyCodeChanged
    report (.exchanged toMonitor candidate.instructionMachine)
    rescan

def loadPackage (address : HalfWord) (toMonitor : Bool) : Routine (Except PackageError Unit) := do
  if address.extractLsb' 0 3 ≠ 0 then return .error (.misaligned address)
  let package ← Activity.readPackage address
  match package.validate address toMonitor with
  | .error error => return .error error
  | .ok () =>
    let entered := (← get).load package address toMonitor
    set { entered with pending := .proceed }
    if entered.instructionSet.isLegacy then report .legacyCodeChanged
    return .ok ()

end Routine

end Mainframe
