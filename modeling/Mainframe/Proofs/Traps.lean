import Mainframe.Activation.Trap
import Mainframe.Proofs.Transfers

/-! The conduct of traps. Until the whole interrupted activation has been saved, entering the
handler changes nothing but what translations leave behind; if it fails, nothing else has
changed. -/

set_option autoImplicit false

namespace Mainframe

variable {μ : Type}

namespace Processor

def trapArea (interrupted : Processor) (monitorBits userBits : ConditionBits) : SaveArea where
  returnAddress := interrupted.nativeView.p
  key := interrupted.key
  virtualMachine := interrupted.instructionSet.virtualMachine
  flags := interrupted.flags
  userMask := interrupted.userMask
  a := interrupted.nativeView.a
  x := interrupted.nativeView.x
  range := .all
  delivered := some (monitorBits, userBits)

def handling (interrupted : Processor) (entry : EntryPoint) (top : VirtualAddress) : Processor :=
  let view := interrupted.nativeView
  let native := { interrupted with instructionSet := .native, a := view.a, x := view.x }
  { (native.activate (native.addressRegister 0) top view.p.ring entry.target.ring).bound entry.binding with
    p := entry.target
    nextAddress := entry.target
    currentAddress := entry.target }

theorem handling_eq (interrupted : Processor) (entry : EntryPoint) (top : VirtualAddress) :
    ∃ a stackTops largestRing, interrupted.handling entry top = { interrupted with
      instructionSet := .native, x := interrupted.nativeView.x
      a, stackTops, largestRing
      flags := .clear
      p := entry.target
      nextAddress := entry.target
      currentAddress := entry.target } := by
  unfold handling
  extract_lets view native handler
  obtain ⟨a, stackTops, largestRing, activated⟩ :=
    native.activate_eq (native.addressRegister 0) top view.p.ring entry.target.ring
  obtain ⟨a, same⟩ := bound_eq
    { native with a, stackTops, largestRing, flags := .clear } entry.binding
  have started : handler = { native with a, stackTops, largestRing, flags := .clear } :=
    (congrArg (·.bound entry.binding) activated).trans same
  rw [started]
  exact ⟨a, stackTops, largestRing, rfl⟩

def withoutTraps (processor : Processor) : Processor :=
  { processor with trapControl := { processor.trapControl with enabled := false } }

def delivered (processor : Processor) (monitorBits userBits : ConditionBits) : Processor :=
  { processor with
    monitorConditions := processor.monitorConditions &&& ~~~ monitorBits
    userConditions := processor.userConditions &&& ~~~ userBits }

end Processor

namespace Execution

variable [Bus μ] {processor : Processor} {memory : μ}

theorem enterHandler_orderly (monitorBits userBits : ConditionBits) :
    (enterHandler monitorBits userBits).Orderly processor memory fun handler left kept =>
      ∃ entry top between,
        (resolveEntry (.ofWord processor.trapPointer)
          (min (VirtualAddress.ofWord processor.trapPointer).ring.toNat
            processor.nativeView.p.ring.toNat) false).ending processor memory =
          ((.ok entry, processor), between) ∧
        (storeWords (processor.trapArea monitorBits userBits).words
          ((processor.trapArea monitorBits userBits).address 0)).ending processor between =
            ((.ok top, processor), kept) ∧
        handler = entry.target ∧ left = processor.handling entry top := by
  refine .get ?_
  extract_lets view pointer ring
  refine .bind ((resolveEntry_orderly _ _ _).with_ending.mono
    fun entry left between resolved => ?_)
  obtain ⟨⟨rfl, -⟩, resolving⟩ := resolved
  refine ⟨.refl _, ?_⟩
  refine (storeWords_stores _ _ _ _).andThen fun top kept storing => ?_
  extract_lets finish
  have entered : (finish ()).Settles left entry.target (left.handling entry top) :=
    .bind (.modified _) (.pure _)
  refine .of_settles ?_ ⟨entry, top, between, resolving, storing, rfl, rfl⟩
  split
  · exact .bind (.report _) entered
  · exact entered

end Execution

namespace Routine

theorem perform_enterTrap [Bus μ] (interrupted : Processor) (memory : μ) :
    (enterTrap.run interrupted).perform memory =
      match (Execution.enterHandler interrupted.deliverableMonitor
          interrupted.deliverableUser).ending interrupted.withoutTraps memory with
      | ((.ok _, left), kept) =>
        (((), left.delivered interrupted.deliverableMonitor interrupted.deliverableUser), kept)
      | ((.error condition, left), kept) =>
        (((), (left.raise condition).raise (.monitor .trapException)), kept) := by
  unfold enterTrap
  rw [StateT.run_bind, StateT.run_get, pure_bind]
  dsimp only
  rw [StateT.run_bind, StateT.run_set, pure_bind, StateT.run_bind, Activity.perform_bind]
  unfold Execution.ending Execution.course Processor.withoutTraps
  rcases ((Execution.enterHandler interrupted.deliverableMonitor
    interrupted.deliverableUser).run.run { interrupted with
      trapControl := { interrupted.trapControl with enabled := false } }).perform memory with
    ⟨⟨condition | handler, left⟩, kept⟩
  · rfl
  · rfl

end Routine

end Mainframe
