import Mainframe.Proofs.Transfers

/-! Every instruction is orderly: it ends in an error with the processor as it was, or completes
in one of a few ways. -/

set_option autoImplicit false

namespace Mainframe.Execution

variable {μ : Type} [Bus μ] {processor : Processor} {memory kept : μ}
  {instruction : Instruction}

theorem transfer_completes (operation : Transfer)
    (assigned : Operation.ofOpcode instruction.opcode = some (.transfer operation)) :
    (transfer operation instruction).Completes instruction processor memory memory := by
  cases operation with
  | branch reading relation => exact branch_completes reading relation
  | branchCounting => exact branchCounting_completes
  | branchSegment => exact .get (branchIf_completes _)
  | branchCondition => exact branchCondition_completes
  | branchRelative => exact branchRelative_completes
  | branchDirect => exact branchDirect_completes
  | callRelative =>
    refine .get ((call_orderly _ _ _).mono fun _ left _ entered => ?_)
    obtain ⟨top, -, rfl⟩ := entered
    exact .calledNear none top _
  | callSegment =>
    apply callSegment_orderly.mono
    intro _ left _ entered
    obtain ⟨entry, word, segment, top, argument, resolves, rfl⟩ := entered
    exact .calledFar entry word segment top argument assigned resolves
  | returnFromCall => exact returnFromCall_completes assigned
  | popFrame => exact popFrame_completes

/-! ## Governing the processor -/

theorem requirePrivilege_checks (level : ExecutePrivilege) :
    (requirePrivilege level).Checks processor memory fun _ => processor.mayUse level = true := by
  apply Orderly.get
  split
  · exact Orderly.userFault rfl
  · next allowed => exact Checks.done (by simpa using allowed)

theorem Completes.privileged {level : ExecutePrivilege} {continuation : Unit → Execution Unit}
    (rest : processor.mayUse level = true →
      (continuation ()).Completes instruction processor memory kept) :
    (requirePrivilege level >>= continuation).Completes instruction processor memory kept :=
  (requirePrivilege_checks level).andThen fun _ permitted => rest permitted

theorem stateRegisterOperand_checks :
    (stateRegisterOperand instruction).Checks processor memory fun register =>
      register.isPrivileged = true → processor.mayUse .localPrivileged = true := by
  apply Orderly.get
  split
  · exact Orderly.monitorFault rfl
  next register _ =>
  split
  · apply (requirePrivilege_checks _).andThen
    intro _ permitted
    exact Checks.done fun _ => permitted
  · next open_ => exact Checks.done fun isPrivileged => absurd isPrivileged open_

omit [Bus μ] in
theorem setStateRegister_reports (processor : Processor) (register : StateRegister) (word : Word) :
    let written := processor.withStateRegister register word
    ((Routine.setStateRegister register word).run processor).Reports
      ((), if register.governsActions then written.rescanned else written) := by
  intro written
  change ((if register.governsActions then Routine.rescan else pure () :
    Routine Unit).run written).Reports _
  split
  · exact forM_raise_reports written.conditions written
  · exact .done _

theorem setStateRegister_settles (register : StateRegister) (word : Word) :
    (liftM (Routine.setStateRegister register word) : Execution Unit).Settles processor ()
      (let written := processor.withStateRegister register word
      if register.governsActions then written.rescanned else written) :=
  .routine (setStateRegister_reports processor register word)

theorem askPageTable_completes (answer : Option PageLookup → Word) :
    (askPageTable answer instruction).Completes instruction processor memory kept := by
  refine .privileged fun _ => .get ?_
  refine .after (.reading (processor.translation.probe_reads _)) fun found later => ?_
  exact .of_settles (.modified _) (Completes.registers _ _)

theorem keypoint_completes :
    (keypoint instruction).Completes instruction processor memory kept := by
  refine .get ?_
  by_cases watched : processor.watchesKeypoint instruction = true
  · refine .of_settles (.bind (.report _) ?_)
      (.noted ((instruction.j ++ processor.keypointOperand instruction).setWidth 64))
    rw [if_pos watched]
    exact .bind (.modified fun _ => _) (.routine (.notify _ (.done _)))
  · refine .of_settles (.bind (.report _) ?_) (Completes.registers processor.a processor.x)
    rw [if_neg watched]
    exact .pure ()

theorem control_completes (operation : Control)
    (assigned : Operation.ofOpcode instruction.opcode = some (.control operation)) :
    (control operation instruction).Completes instruction processor memory kept := by
  cases operation with
  | halt => exact .privileged fun permitted => .of_settles (.modified _) (.halted permitted)
  | synchronize =>
    exact .of_settles (.pure ()) (Completes.registers processor.a processor.x)
  | exchange =>
    refine .get ?_
    split
    · next monitor => exact .of_settles (.modified _) (.exchanged monitor)
    · next job =>
      exact .of_settles (.routine (.notify _ (.done _))) (.calledMonitor (by simpa using job))
  | interruptProcessor =>
    exact .privileged fun permitted => .of_settles (.modified _) (.interrupted assigned permitted)
  | readStateRegister =>
    apply stateRegisterOperand_checks.andThen
    intro register _
    exact .of_settles (.modified _) (Completes.registers _ _)
  | writeStateRegister =>
    apply stateRegisterOperand_checks.andThen
    intro register permitted
    exact .get (.of_settles (setStateRegister_settles _ _) (.governed _ _ permitted))
  | purge =>
    apply Orderly.mono (requirePrivilege_checks _)
    intro _ left later required
    rw [required.1]
    exact Completes.registers processor.a processor.x
  | testPage =>
    unfold control testPage
    exact askPageTable_completes _
  | locatePage =>
    unfold control locatePage
    exact askPageTable_completes _
  | keypoint => exact keypoint_completes
  | executeAlgorithm => exact Orderly.monitorFault rfl

/-! ## All instructions -/

theorem execute_completes (instruction : Instruction) (processor : Processor) (memory : μ) :
    (execute instruction).Completes instruction processor memory memory := by
  unfold execute
  split
  · next operation assigned =>
    cases operation with
    | compute operation => exact compute_completes operation
    | transfer operation => exact transfer_completes operation assigned
    | storage operation => exact storage_completes operation
    | block operation => exact block_completes operation
    | control operation => exact control_completes operation assigned
  · exact Orderly.userFault rfl

omit [Bus μ] in
theorem execute_transfer {operation : Transfer}
    (assigned : Operation.ofOpcode instruction.opcode = some (.transfer operation)) :
    execute instruction = transfer operation instruction := by
  unfold execute
  rw [assigned]
  rfl

end Mainframe.Execution
