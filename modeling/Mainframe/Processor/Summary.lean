import Mainframe.Instruction.Mnemonic
import Mainframe.Processor.State

/-! One line of text about the state of a processor. -/

set_option autoImplicit false

namespace Mainframe

def VirtualAddress.marked (address : VirtualAddress) : String := "Pva(" ++ address.text ++ ")"

def Processor.summary (processor : Processor) : String :=
  "Cpu \x7b id: " ++ toString processor.number ++
    ", p: " ++ processor.p.marked ++
    ", key: " ++ toString processor.key.toNat ++
    ", monitor_mode: " ++ toString processor.monitorMode ++
    ", vmid: " ++ toString processor.instructionSet.virtualMachine.toNat ++
    ", mcr: 0x" ++ hexPadded 4 processor.monitorConditions.toNat ++
    ", ucr: 0x" ++ hexPadded 4 processor.userConditions.toNat ++
    ", pending: " ++ processor.pending.name ++
    ", stopped: " ++ toString processor.stopped ++ ", .. \x7d"

def opcodeSummary (opcode : Byte) : String :=
  "OpcodeEntry \x7b format: " ++ (formatOf opcode).name ++ ", mnemonic: \"" ++
    mnemonicOf opcode ++ "\" \x7d"

end Mainframe
