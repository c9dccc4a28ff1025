import Mainframe.Proofs.Assertions
import Mainframe.Proofs.Delivery
import Mainframe.Proofs.TrapTransparency

/-! Traps that fail. If the handler cannot be entered, the step fetches nothing, takes nothing from
the interrupted activation and forgets no condition. It leaves an exchange or a halt pending, so
the failure is never answered by another trap. -/

set_option autoImplicit false

namespace Mainframe

variable {μ : Type}

/-! ## The way to the handler -/

def Happening.Fetches : Happening → Prop
  | .translated _ modes _ => modes.execute = true
  | _ => False

def Allowance.ofData : Allowance where
  gives happening := ¬ happening.Fetches
  fails condition := ∃ failure, condition = .monitor failure ∧ failure.policy = .monitorError

instance : Allowance.ofData.Accesses where
  gives address modes outcome fetching := by
    intro fetches
    cases fetching.symm.trans fetches
  fails condition error := ⟨condition, rfl, error⟩

namespace Execution

/-- No instruction is fetched on the way to the handler, and no condition ends it that a trap
might be asked to deliver. -/
theorem enterHandler_ensures (monitorBits userBits : ConditionBits) :
    (enterHandler monitorBits userBits).Ensures .ofData (fun _ => True) fun _ _ => True := by
  refine .get fun interrupted _ => ?_
  extract_lets view pointer ring
  have small : ring < 16 := Nat.lt_of_le_of_lt (Nat.min_le_left _ _) (BitVec.isLt _)
  refine .bind ((resolveEntry_ensures _ small _).mono
    fun _ _ ends => ends.1) fun entry => ?_
  refine .bind ((storeWords_ensures _ _).mono fun _ _ ends => ends.1) fun top => ?_
  extract_lets finish
  have finished : (finish ()).Ensures .ofData (fun _ => True) fun _ _ => True :=
    .bind (.modified fun _ => id) fun _ => .pure fun _ => id
  split
  · exact .bind (.report id) fun _ => finished
  · exact finished

end Execution

/-! ## What a failed trap leaves -/

namespace Processor

variable {before after left : Processor} {condition : Condition}

theorem holds_raise (processor : Processor) (raised : Condition) :
    (processor.raise raised).holds condition = true ↔
      processor.holds condition = true ∨ condition = raised := by
  constructor
  · exact holds_withCondition
  · rw [holds_eq, holds_eq]
    rintro (held | rfl)
    · cases raised <;> cases condition <;>
        simp_all [raise, escalate, withCondition, recorded]
    · cases condition <;>
        simp [raise, escalate, withCondition, recorded, Condition.ordinal, getLsbD_ordinalBit]

theorem raise_monitor (processor : Processor) (raised : MonitorCondition) :
    processor.raise (.monitor raised) = { processor with
      monitorConditions := processor.monitorConditions ||| ordinalBit raised.ordinal
      pending := max processor.pending (processor.actionOf (.monitor raised)) } := rfl

/-- The trap that was pending has failed. Traps are off, and the failure is recorded beside what
was recorded before. It is up to the monitor, or else the processor is to stop. -/
structure TrapFails (before : Processor) (failure : MonitorCondition) (after : Processor) :
    Prop where
  unchanged : ∃ untranslatable executePrivilege, after = { before with
    freeRunning := before.freeRunning + 1
    trapControl := { before.trapControl with enabled := false }
    monitorConditions := after.monitorConditions
    pending := after.pending
    translation := { before.translation with untranslatable, executePrivilege } }
  recorded : ∀ condition, after.holds condition = true ↔ before.holds condition = true ∨
    condition = .monitor failure ∨ condition = .monitor .trapException
  pending : after.pending =
    if before.monitorMode = false ∧ before.selects (.monitor failure) = true ∧
      before.selects (.monitor .trapException) = true then .exchange else .halt

/-- With traps off, an error for the monitor and the failure of the trap together ask for no
trap. -/
theorem max_actions_of_failure {failure : MonitorCondition}
    (error : failure.policy = .monitorError) :
    ∀ selected excepted monitorMode,
      max (max .proceed (failure.policy.action selected monitorMode false))
          (MonitorCondition.trapException.policy.action excepted monitorMode false) =
        if monitorMode = false ∧ selected = true ∧ excepted = true then Action.exchange
        else .halt := by
  rw [error]
  decide

theorem trapFails_raise (alike : before.attending.withoutTraps.Resembles left)
    {failure : MonitorCondition} (error : failure.policy = .monitorError) :
    before.TrapFails failure
      ((left.raise (.monitor failure)).raise (.monitor .trapException)) := by
  obtain ⟨untranslatable, privilege, rfl⟩ := alike
  constructor
  case unchanged =>
    refine ⟨untranslatable, privilege, ?_⟩
    rw [raise_monitor, raise_monitor]
    rfl
  case recorded =>
    intro condition
    rw [holds_raise, holds_raise, or_assoc]
    cases condition <;> rfl
  case pending =>
    rw [pending_raise, pending_raise, actionOf_raise]
    exact max_actions_of_failure error _ _ _

end Processor

namespace Routine

variable [Bus μ] {before left : Processor} {memory kept : μ} {condition : Condition}

theorem run_step_of_trap (running : before.stopped = false) (trapping : before.pending = .trap) :
    step.run before = enterTrap.run before.attending >>= fun ended =>
      if ended.2.stopped then pure (.halted, ended.2)
      else if ended.2.pending.Interrupts then pure (.resolved, ended.2)
      else stepInstruction.run ended.2 := by
  -- The step is counted before the trap is entered, as it is in the state that attends to it.
  have resolving : resolvePending.run { before with freeRunning := before.freeRunning + 1 } =
      enterTrap.run before.attending := by
    unfold resolvePending
    rw [StateT.run_bind, StateT.run_get, pure_bind]
    dsimp only
    rw [trapping]
    rfl
  rw [run_step_of_running running, resolving]

omit [Bus μ] in
theorem enterTrap_gives (interrupted : Processor) :
    (enterTrap.run interrupted).Gives (¬ ·.happening.Fetches) fun _ => True := by
  unfold enterTrap
  rw [StateT.run_bind, StateT.run_get, pure_bind]
  dsimp only
  rw [StateT.run_bind, StateT.run_set, pure_bind, StateT.run_bind]
  apply (Execution.enterHandler_ensures _ _ interrupted.withoutTraps trivial).bind
  rintro ⟨condition | handler, left⟩ -
  · exact .notify id (.notify id (.done trivial))
  · exact .notify id (.done trivial)

/-- A trap that fails is answered by an exchange or by a halt, never by another trap, and neither
the interrupted activation nor a recorded condition is lost by it. -/
theorem trap_failure_escalates (running : before.stopped = false)
    (trapping : before.pending = .trap)
    (fails : (Execution.enterHandler before.attending.deliverableMonitor
      before.attending.deliverableUser).ending before.attending.withoutTraps memory =
        ((.error condition, left), kept)) :
    ∃ failure after, condition = .monitor failure ∧
      (step.run before).perform memory = ((.resolved, after), kept) ∧
      before.TrapFails failure after ∧
      ∀ moment ∈ (step.run before).history memory, ∀ notice,
        moment.request = .notify notice → ¬ notice.happening.Fetches := by
  have conduct : (Execution.enterHandler before.attending.deliverableMonitor
      before.attending.deliverableUser).Orderly before.attending.withoutTraps memory _ :=
    Execution.enterHandler_orderly _ _
  obtain ⟨-, alike⟩ := conduct.failed fails
  obtain ⟨failure, rfl, error⟩ := (Execution.enterHandler_ensures _ _).failed trivial fails
  have failed := Processor.trapFails_raise alike error
  have tried := perform_enterTrap before.attending memory
  rw [fails] at tried
  dsimp only at tried
  revert failed tried
  generalize (left.raise (.monitor failure)).raise (.monitor .trapException) = after
  intro failed tried
  -- The condition of the failed trap calls for an exchange or a halt, so the step ends before an
  -- instruction is fetched.
  have going : ¬ after.stopped = true := by
    obtain ⟨_, _, same⟩ := failed.unchanged
    rw [same]
    simp [running]
  have interrupts : after.pending.Interrupts := by
    rw [failed.pending]
    split <;> decide
  refine ⟨failure, after, rfl, ?_, failed, ?_⟩
  · rw [run_step_of_trap running trapping, Activity.perform_bind, tried]
    dsimp only
    rw [if_neg going, if_pos interrupts]
    rfl
  · intro moment member notice given
    rw [run_step_of_trap running trapping, Activity.history_bind, tried] at member
    dsimp only at member
    rw [if_neg going, if_pos interrupts, Activity.history_pure, List.append_nil] at member
    exact (enterTrap_gives _).permits member given

/-- The stack of the job ends where its only page ends, in the middle of the save area. -/
def crowdedJob : Processor :=
  { trappedJob with a := Vector.replicate 16 ⟨11, 0, 0x1E0⟩, pending := .trap }

/-- Part of the area was written before the failure. -/
theorem crowdedJob_escalates :
    crowdedJob.stopped = false ∧ crowdedJob.pending = .trap ∧
      ∃ after kept, (step.run crowdedJob).perform trapMemory = ((.resolved, after), kept) ∧
        crowdedJob.TrapFails .pageTableSearchWithoutFind after ∧
        after.holds (.user .arithmeticOverflow) = true ∧ after.pending = .exchange ∧
        Bus.readWord kept 0x21E0 = 0x0009B00000000040 := by
  have failed : ((Execution.enterHandler crowdedJob.attending.deliverableMonitor
      crowdedJob.attending.deliverableUser).ending crowdedJob.attending.withoutTraps
        trapMemory).1.1 = .error (.monitor .pageTableSearchWithoutFind) := by decide +kernel
  have saved : Bus.readWord ((Execution.enterHandler crowdedJob.attending.deliverableMonitor
      crowdedJob.attending.deliverableUser).ending crowdedJob.attending.withoutTraps trapMemory).2
        0x21E0 = 0x0009B00000000040 := by decide +kernel
  rcases ending : (Execution.enterHandler crowdedJob.attending.deliverableMonitor
    crowdedJob.attending.deliverableUser).ending crowdedJob.attending.withoutTraps trapMemory with
    ⟨⟨outcome, left⟩, kept⟩
  rw [ending] at failed saved
  cases failed
  obtain ⟨failure, after, same, steps, fails, -⟩ := trap_failure_escalates rfl rfl ending
  cases same
  refine ⟨rfl, rfl, after, kept, steps, fails, ?_, ?_, saved⟩
  · exact (fails.recorded _).mpr (.inl (by decide))
  · rw [fails.pending]
    decide

end Routine

end Mainframe
