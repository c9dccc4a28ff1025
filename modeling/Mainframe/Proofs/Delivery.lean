import Mainframe.Proofs.Coverage
import Mainframe.Proofs.PendingActions

/-! Conditions are delivered. From a state in which every recorded condition is covered, a step
leads to such a state again, with two exceptions: a return to a caller does not look at the
conditions that the caller's mask selects anew, and an exchange that is refused is not tried
again. -/

set_option autoImplicit false

namespace Mainframe

variable {μ : Type}

/-! ## Policies -/

namespace Condition

/-- No condition comes to interrupt because traps are turned off. -/
theorem interrupts_of_trapsOff (condition : Condition) :
    ∀ selected monitorMode trapEnabled,
      (condition.policy.action selected monitorMode false).Interrupts →
        (condition.policy.action selected monitorMode trapEnabled).Interrupts := by
  cases condition with
  | monitor condition => cases condition <;> decide
  | user condition => cases condition <;> decide

theorem trapsOff_le_trapException (condition : Condition) :
    ∀ selected failing monitorMode trapEnabled,
      condition.policy.action selected monitorMode trapEnabled ≤ .trap →
        condition.policy.action selected monitorMode false ≤
          MonitorCondition.trapException.policy.action failing monitorMode false := by
  cases condition with
  | monitor condition => cases condition <;> decide
  | user condition => cases condition <;> decide

/-- In monitor mode only a system call that the mask does not select asks for an exchange. -/
theorem le_trap_of_monitorMode (condition : Condition) :
    ∀ selected trapEnabled, (condition = .monitor .systemCall → selected = true) →
      condition.policy.action selected true trapEnabled ≤ .exchange →
        condition.policy.action selected true trapEnabled ≤ .trap := by
  cases condition with
  | monitor condition => cases condition <;> decide
  | user condition => cases condition <;> decide

theorem unselected_le_selected (condition : UserCondition) :
    ∀ monitorMode trapEnabled, (condition.policy.action false monitorMode trapEnabled).Interrupts →
      condition.policy.action false monitorMode trapEnabled ≤
        condition.policy.action true monitorMode trapEnabled := by
  cases condition <;> decide

end Condition

/-! ## Traps -/

theorem getLsbD_foldl_or (conditions : List Condition) (bits : ConditionBits) (position : Nat) :
    (conditions.foldl (fun bits condition => bits ||| condition.bit) bits).getLsbD position =
      (bits.getLsbD position || conditions.any (·.bit.getLsbD position)) := by
  induction conditions generalizing bits with
  | nil => simp
  | cons condition rest ih =>
    rw [List.foldl_cons, ih, BitVec.getLsbD_or, List.any_cons, Bool.or_assoc]

theorem getLsbD_conditionBits {conditions : List Condition} {test : Condition → Bool}
    {condition : Condition} (member : condition ∈ conditions)
    (alone : ∀ other ∈ conditions, other.ordinal = condition.ordinal → other = condition) :
    (conditionBits conditions test).getLsbD (15 - condition.ordinal.val) = test condition := by
  unfold conditionBits
  rw [getLsbD_foldl_or, BitVec.ofNat_eq_ofNat, BitVec.getLsbD_zero, Bool.false_or,
    Bool.eq_iff_iff, List.any_eq_true]
  simp only [Condition.bit, getLsbD_ordinalBit, decide_eq_true_eq]
  constructor
  · rintro ⟨other, listed, same⟩
    obtain ⟨listed, passes⟩ := List.mem_filter.mp listed
    rwa [← alone other listed same]
  · exact fun passes => ⟨condition, List.mem_filter.mpr ⟨member, passes⟩, rfl⟩

namespace Processor

variable {before after : Processor} {condition : Condition}

def deliverable (processor : Processor) : Condition → ConditionBits
  | .monitor _ => processor.deliverableMonitor
  | .user _ => processor.deliverableUser

theorem getLsbD_deliverable (processor : Processor) (condition : Condition) :
    (processor.deliverable condition).getLsbD (15 - condition.ordinal.val) =
      processor.delivers condition := by
  cases condition with
  | monitor condition =>
    refine getLsbD_conditionBits (List.mem_map_of_mem condition.mem_all) fun other listed same => ?_
    obtain ⟨other, -, rfl⟩ := List.mem_map.mp listed
    exact congrArg _ (MonitorCondition.ordinal_injective same)
  | user condition =>
    refine getLsbD_conditionBits (List.mem_map_of_mem condition.mem_all) fun other listed same => ?_
    obtain ⟨other, -, rfl⟩ := List.mem_map.mp listed
    exact congrArg _ (UserCondition.ordinal_injective same)

theorem holds_delivered (interrupted : Processor) {left : Processor}
    (recorded : left.recorded condition = interrupted.recorded condition) :
    (left.delivered interrupted.deliverableMonitor interrupted.deliverableUser).holds condition =
      (interrupted.holds condition && !interrupted.delivers condition) := by
  have clears : (left.delivered interrupted.deliverableMonitor
      interrupted.deliverableUser).recorded condition =
        interrupted.recorded condition &&& ~~~ interrupted.deliverable condition := by
    rw [← recorded]
    cases condition <;> rfl
  have inside : 15 - condition.ordinal.val < 16 := by omega
  rw [holds_eq, clears, BitVec.getLsbD_and, BitVec.getLsbD_not, getLsbD_deliverable,
    decide_eq_true inside, Bool.true_and, ← holds_eq]

/-- What a trap does not deliver does not interrupt its handler. -/
theorem calm_entered (interrupted : Processor) (entry : EntryPoint) (top : VirtualAddress)
    (held : ((interrupted.withoutTraps.handling entry top).delivered interrupted.deliverableMonitor
      interrupted.deliverableUser).holds condition = true) :
    ¬ (((interrupted.withoutTraps.handling entry top).delivered interrupted.deliverableMonitor
      interrupted.deliverableUser).actionOf condition).Interrupts := by
  obtain ⟨a, stackTops, largestRing, same⟩ := interrupted.withoutTraps.handling_eq entry top
  rw [same] at held ⊢
  intro interrupts
  rw [holds_delivered interrupted (by cases condition <;> rfl), Bool.and_eq_true,
    Bool.not_eq_true'] at held
  obtain ⟨recorded, undelivered⟩ := held
  have off : (condition.policy.action (interrupted.selects condition) interrupted.monitorMode
      false).Interrupts := by
    cases condition <;> exact interrupts
  -- What interrupts with traps off has interrupted with traps on, and was delivered.
  have delivers : interrupted.delivers condition = true := by
    unfold delivers
    rw [recorded, Bool.true_and, decide_eq_true_eq]
    exact condition.interrupts_of_trapsOff _ _ _ off
  rw [delivers] at undelivered
  exact Bool.noConfusion undelivered

/-- A trap that fails asks for no less than any condition that it would have delivered. -/
theorem covered_unentered {interrupted left : Processor}
    (taken : ∀ condition, interrupted.holds condition = true →
      interrupted.actionOf condition ≤ .trap)
    (alike : interrupted.withoutTraps.Resembles left) (raised : Condition) :
    ((left.raise raised).raise (.monitor .trapException)).Covered := by
  intro condition
  by_cases failure : condition = .monitor .trapException
  · rw [failure]
    exact covers_raise _ _
  by_cases again : condition = raised
  · rw [again]
    exact (covers_raise left raised).raise _
  intro held _
  obtain ⟨_, _, rfl⟩ := alike
  have recorded : interrupted.holds condition = true := by
    have held := (holds_withCondition held).resolve_right failure
    have held := (holds_withCondition held).resolve_right again
    cases condition <;> exact held
  have failed := condition.trapsOff_le_trapException (interrupted.selects condition)
    (interrupted.selects (.monitor .trapException)) _ _ (taken condition recorded)
  rw [pending_raise, actionOf_raise, actionOf_raise, actionOf_raise]
  refine Action.le_trans ?_ (Action.le_max_right _ _)
  cases condition <;> exact failed

/-! ## Exchanges -/

/-- A system call that the monitor's mask does not select has asked for an exchange with a job
that cannot be loaded. -/
structure SystemCallRefused [Bus μ] (before : Processor) (memory : μ) (condition : Condition) :
    Prop where
  pending : before.pending = .exchange
  monitor : before.monitorMode = true
  refused : ∃ error, (before.candidate memory).validate before.jobPackage false = .error error
  systemCall : condition = .monitor .systemCall
  unselected : before.selects condition = false

theorem interrupts_refused {processor : Processor} (monitor : processor.monitorMode = true) :
    processor.refused.pending.Interrupts := by
  unfold refused
  rw [if_pos monitor, pending_raise]
  refine Action.le_trans ?_ (Action.le_max_right _ _)
  unfold actionOf
  rw [monitor]
  generalize processor.selects _ = selected
  generalize processor.trapControl.enabled = enabled
  revert selected enabled
  decide

theorem covers_refused {processor : Processor} (monitor : processor.monitorMode = true)
    (meets : processor.Meets .exchange condition)
    (selected : condition = .monitor .systemCall → processor.selects condition = true) :
    processor.refused.Covers condition := by
  have interrupting := interrupts_refused monitor
  unfold refused at interrupting ⊢
  rw [if_pos monitor] at interrupting ⊢
  by_cases again : condition = .monitor .environmentSpecification
  · rw [again]
    exact covers_raise _ _
  intro held interrupts
  rw [actionOf_raise] at interrupts ⊢
  have within := meets ((holds_withCondition held).resolve_right again) interrupts
  unfold actionOf at within ⊢
  rw [monitor] at within ⊢
  exact Action.le_trans (condition.le_trap_of_monitorMode _ _ selected within) interrupting

/-! ## Instructions -/

/-- The frame that the second address register designates was saved by a call and not by a
trap. -/
def DesignatesCall [Bus μ] (processor : Processor) (memory : μ) : Prop :=
  ∃ count zeroth first second rest kept,
    (Execution.loadWords count (processor.addressRegister 2)).ending processor memory =
      ((.ok (zeroth :: first :: second :: rest), processor), kept) ∧
    (FrameDescriptor.ofBits (tagOf second)).isTrap = false

theorem Covers.of_userMask (covers : before.Covers condition)
    (recorded : after.holds condition = before.holds condition)
    (alike : after.actionOf condition = condition.policy.action (after.selects condition)
      before.monitorMode before.trapControl.enabled)
    (masked : condition.isMonitor = true → after.selects condition = before.selects condition)
    (pending : after.pending = before.pending) :
    after.Covers condition ∨ before.holds condition = true ∧ condition.isMonitor = false ∧
      before.selects condition = false ∧ after.selects condition = true := by
  by_cases held : before.holds condition = true
  swap
  · exact .inl fun present => absurd (recorded ▸ present) held
  have unchanged (same : after.selects condition = before.selects condition) :
      after.Covers condition := covers.of_eq recorded (by rw [alike, same, actionOf]) pending
  cases condition with
  | monitor condition => exact .inl (unchanged (masked rfl))
  | user condition =>
    rcases old : before.selects (.user condition) with _ | _ <;>
      rcases new : after.selects (.user condition) with _ | _
    · exact .inl (unchanged (new.trans old.symm))
    · exact .inr ⟨held, rfl, rfl, rfl⟩
    · -- The mask no longer selects the condition, which asks for no more than before.
      left
      intro _ interrupts
      rw [alike, new] at interrupts ⊢
      have less : condition.policy.action false before.monitorMode before.trapControl.enabled ≤
          before.actionOf (.user condition) := by
        rw [actionOf, old]
        exact Condition.unselected_le_selected condition _ _ interrupts
      rw [pending]
      exact Action.le_trans less (covers held (Action.le_trans interrupts less))
    · exact .inl (unchanged (new.trans old.symm))

theorem Covers.withStateRegister (covers : before.Covers condition) {register : StateRegister}
    (ungoverned : ¬ register.governsActions = true) (word : Word) :
    (before.withStateRegister register word).Covers condition := by
  cases register
  case userMask | userConditions | monitorMask | monitorConditions | trapControl =>
    exact absurd rfl ungoverned
  all_goals exact covers.of_standing rfl

theorem holds_of_withoutCondition {cleared : Condition}
    (held : (before.withoutCondition cleared).holds condition = true) :
    before.holds condition = true := by
  have weakened {bits kept : ConditionBits} {position : Nat}
      (held : (bits &&& kept).getLsbD position = true) : bits.getLsbD position = true := by
    rw [BitVec.getLsbD_and, Bool.and_eq_true] at held
    exact held.1
  rw [holds_eq] at held ⊢
  cases cleared <;> cases condition
  · exact weakened held
  · exact held
  · exact held
  · exact weakened held

theorem Covers.withoutCondition (covers : before.Covers condition) (cleared : Condition) :
    (before.withoutCondition cleared).Covers condition :=
  Meets.mono covers holds_of_withoutCondition (by cases cleared <;> cases condition <;> rfl)
    (by cases cleared <;> exact Nat.le_refl _)

/-- A frame that a trap has saved leaves all covered; one that a call has saved brings back the
user mask of the caller. -/
theorem Covers.leaving [Bus μ] {memory : μ} {zeroth first second third : Word}
    {addresses words : List Word} {kept : μ} (covers : before.Covers condition)
    (returns : ReturnsBy before memory zeroth first second third addresses words kept) :
    (before.leaving zeroth first second third addresses words).Covers condition ∨
      before.DesignatesCall memory ∧ before.holds condition = true ∧ condition.isMonitor = false ∧
        before.selects condition = false ∧
        (before.leaving zeroth first second third addresses words).selects condition = true := by
  unfold Processor.leaving
  dsimp only
  split
  · exact .inl (covered_rescanned _ condition)
  · next ordinary =>
    obtain ⟨a, x, stackTops, nextKey, instructionSet, left⟩ :=
      before.returned_eq zeroth first second third addresses words
    rw [left]
    have frame : before.DesignatesCall memory :=
      ⟨_, _, _, _, _, _, returns.loaded, by simpa using ordinary⟩
    refine (Covers.of_userMask covers ?_ ?_ ?_ ?_).imp_right fun unmasked => ⟨frame, unmasked⟩
    · cases condition <;> rfl
    · cases condition <;> rfl
    · intro monitor
      cases condition with
      | monitor condition => rfl
      | user condition => exact Bool.noConfusion monitor
    · rfl

end Processor

namespace Completion

variable [Bus μ] {instruction : Instruction} {running left : Processor} {memory : μ}
  {condition : Condition}

open Processor in
theorem covers (completion : Completion instruction running memory left)
    (covers : running.Covers condition) :
    left.Covers condition ∨
      (Operation.ofOpcode instruction.opcode = some (.transfer .returnFromCall) ∧
        running.DesignatesCall memory ∧ running.holds condition = true ∧
        condition.isMonitor = false ∧ running.selects condition = false ∧
        left.selects condition = true) := by
  have called (entry : EntryPoint) (top argument : VirtualAddress) :
      (running.called entry top argument).Covers condition := by
    obtain ⟨a, stackTops, largestRing, left⟩ := running.called_eq entry top argument
    rw [left]
    exact covers.of_standing rfl
  cases completion with
  | moved a x target outward => exact .inl (covers.of_standing rfl)
  | raised raised => exact .inl (covers.raise _)
  | cleared target permitted outward =>
    exact .inl ((covers.withoutCondition (conditionOperand instruction)).of_standing rfl)
  | calledNear binding top argument => exact .inl (called _ _ _)
  | calledFar entry word segment top argument operation resolves => exact .inl (called _ _ _)
  | returned zeroth first second third addresses words kept operation returns =>
    exact (covers.leaving returns).imp_right fun unmasked => ⟨operation, unmasked⟩
  | halted permitted => exact .inl (covers.escalate _)
  | exchanged monitor => exact .inl (covers.escalate _)
  | calledMonitor job => exact .inl (covers.raise _)
  | interrupted operation permitted => exact .inl (covers.of_standing rfl)
  | governed register word permitted =>
    left
    dsimp only
    split
    · exact covered_rescanned _ condition
    · next ungoverned => exact covers.withStateRegister ungoverned word
  | noted code =>
    have noted : ({ running with keypointCode := code } : Processor).Covers condition :=
      covers.of_standing rfl
    exact .inl (noted.raise _)

end Completion

/-! ## Steps -/

/-- The native instruction that a step carries out returns to a caller, whose mask selects a user
condition that is recorded and that the mask before it did not select. -/
structure UnmaskedByReturn [Bus μ] (before : Processor) (memory : μ) (after : Processor)
    (condition : Condition) : Prop where
  returns : ∃ instruction running middle left kept, Runs before memory instruction running middle ∧
    Operation.ofOpcode instruction.opcode = some (.transfer .returnFromCall) ∧
    running.DesignatesCall middle ∧
    (Execution.execute instruction).ending running middle = ((.ok (), left), kept) ∧
    after = left.commit true
  user : condition.isMonitor = false
  recorded : before.holds condition = true
  masked : before.selects condition = false
  selected : after.selects condition = true

namespace Routine

variable [Bus μ] {before : Processor} {condition : Condition}

open Processor

theorem covers_stepNative (covers : before.Covers condition) (memory : μ) :
    let after := ((stepNative.run before).perform memory).1.2
    after.Covers condition ∨ UnmaskedByReturn before memory after condition := by
  intro after
  -- A fetch leaves alone all that coverage depends on.
  have resembling {left : Processor} (alike : before.beginInstruction.Resembles left) :
      left.Covers condition := by
    obtain ⟨_, _, rfl⟩ := alike
    exact covers.of_standing rfl
  have running {instruction : Instruction} {running : Processor} {middle : μ}
      (runs : Runs before memory instruction running middle) :
      running.Covers condition ∧ running.holds condition = before.holds condition ∧
        running.selects condition = before.selects condition := by
    obtain ⟨untranslatable, privilege, rfl⟩ := runs.begun
    have fetched := resembling ⟨untranslatable, privilege, rfl⟩
    exact ⟨fetched.of_standing rfl, holds_of_standing rfl condition,
      selects_of_standing rfl condition⟩
  have committed {left : Processor} (covers : left.Covers condition) (completed : Bool) :
      (left.commit completed).Covers condition := covers.of_standing rfl
  cases stepNative_ends before memory with
  | unfetched raised left error alike recorded =>
    rw [show after = left.raise raised from recorded]
    exact .inl ((resembling alike).raise raised)
  | faulted instruction ready middle raised left runs error alike recorded =>
    rw [show after = (left.fault raised).commit raised.policy.completes from recorded]
    refine .inl (committed ?_ _)
    have covers : left.Covers condition := by
      obtain ⟨_, _, rfl⟩ := alike
      exact (running runs).1.of_standing rfl
    unfold Processor.fault
    split
    · exact (covers.raise raised).of_standing rfl
    · exact covers.raise raised
  | completed instruction ready middle left kept runs ending completion last =>
    have last : after = left.commit true := last
    obtain ⟨covers, recorded, same⟩ := running runs
    rcases completion.covers covers with covers |
      ⟨operation, frame, held, user, masked, selected⟩
    · rw [last]
      exact .inl (committed covers true)
    · right
      exact {
        returns := ⟨instruction, ready, middle, left, kept, runs, operation, frame, ending, last⟩
        user
        recorded := recorded ▸ held
        masked := same ▸ masked
        selected := by
          rw [last]
          cases condition <;> exact selected }

theorem covered_stepLegacy (covered : before.Covered) (registers : LegacyRegisters)
    (memory : μ) : (((stepLegacy registers).run before).perform memory).1.2.Covered := by
  cases stepLegacy_ends before registers memory with
  | absent none same =>
    rw [same]
    exact covered
  | turned engine left retired counted same signals =>
    have covered : counted.Covered := by
      subst same
      exact covered.of_standing rfl
    rcases signals with proceeds | calls | halts
    · rw [proceeds]
      exact covered
    · rw [calls]
      exact fun condition => (covered condition).raise _
    · rw [halts]
      exact fun condition => (covered condition).escalate .halt

/-- An exchange that is refused stops a processor in job mode. In monitor mode it asks for a trap or
more, which covers all but a system call that is not selected. -/
theorem covers_refusal {memory : μ} {error : PackageError} (pending : before.pending = .exchange)
    (invalid : (before.candidate memory).validate before.exchangeSource (!before.monitorMode) =
      .error error)
    (meets : ∀ condition, before.attending.Meets .exchange condition) :
    before.attending.refused.stopped = true ∨ before.attending.refused.pending.Interrupts ∧
      ∀ condition, before.attending.refused.Covers condition ∨
        before.SystemCallRefused memory condition := by
  rcases mode : before.monitorMode with _ | _
  · left
    rw [refused, if_neg (by simp [attending, mode])]
  have monitor : before.attending.monitorMode = true := mode
  right
  refine ⟨interrupts_refused monitor, fun condition => ?_⟩
  by_cases selected : condition = .monitor .systemCall →
      before.attending.selects condition = true
  · exact .inl (covers_refused monitor (meets condition) selected)
  · right
    rw [Classical.not_imp, Bool.not_eq_true] at selected
    obtain ⟨systemCall, unselected⟩ := selected
    have source : before.exchangeSource = before.jobPackage := if_pos mode
    rw [source, mode] at invalid
    exact {
      pending, systemCall
      monitor := mode
      refused := ⟨error, invalid⟩
      unselected := by cases condition <;> exact unselected }

theorem covered_resolved (covered : before.Covered) (memory : μ) :
    let ready := (resolved before memory).1
    ready.stopped = true ∨ ready.Covered ∨
      ready.pending.Interrupts ∧ ∀ condition,
        ready.Covers condition ∨ before.SystemCallRefused memory condition := by
  -- Conditions ask for no more than was pending before.
  have meets (condition : Condition) : before.attending.Meets before.pending condition :=
    Meets.mono (covered condition) (fun held => by cases condition <;> exact held)
      (by cases condition <;> rfl) (Nat.le_refl _)
  intro ready
  cases resolved_ends before memory with
  | idle calm same =>
    rw [show ready = before.attending from same]
    refine .inr (.inl fun condition held interrupts => ?_)
    exact absurd (Action.le_trans interrupts (meets condition held interrupts)) calm
  | trapped pending ends =>
    right; left
    rw [pending] at meets
    cases ends with
    | failed raised left error alike recorded =>
      rw [show ready = (left.raise raised).raise (.monitor .trapException) from recorded]
      refine covered_unentered (fun condition held => ?_) alike raised
      by_cases interrupts : (before.attending.actionOf condition).Interrupts
      · exact meets condition held interrupts
      · exact Nat.le_of_not_le interrupts
    | entered entry top handed =>
      rw [show ready = _ from handed]
      exact fun condition held interrupts => absurd interrupts (calm_entered _ entry top held)
  | refused error pending invalid same =>
    rw [show ready = before.attending.refused from same]
    rw [pending] at meets
    exact (covers_refusal pending invalid meets).imp_right .inr
  | exchanged pending valid same =>
    rw [show ready = _ from same]
    exact .inr (.inl (covered_rescanned _))
  | halted pending same =>
    rw [show ready = _ from same]
    exact .inl rfl

theorem covers_stepInstruction (covered : before.Covered) (memory : μ) (condition : Condition) :
    let after := ((stepInstruction.run before).perform memory).1.2
    after.Covers condition ∨ UnmaskedByReturn before memory after condition := by
  cases form : before.instructionSet with
  | native =>
    rw [run_stepInstruction form]
    exact covers_stepNative (covered condition) memory
  | legacy registers =>
    rw [run_stepInstruction_legacy form]
    exact .inl (covered_stepLegacy covered registers memory condition)

theorem covers_step (running : before.stopped = false) (covered : before.Covered) (memory : μ) :
    let after := ((step.run before).perform memory).1.2
    after.stopped = true ∨ ∀ condition, after.Covers condition ∨
      before.SystemCallRefused memory condition ∨
      UnmaskedByReturn (resolved before memory).1 (resolved before memory).2 after condition := by
  rw [perform_step_of_running running]
  have dealt := covered_resolved covered memory
  revert dealt
  rcases resolved before memory with ⟨ready, middle⟩
  intro dealt
  dsimp only at dealt ⊢
  by_cases stopped : ready.stopped = true
  · rw [if_pos stopped]
    exact .inl stopped
  rw [if_neg stopped]
  replace dealt := dealt.resolve_left stopped
  right
  intro condition
  by_cases interrupts : ready.pending.Interrupts
  · rw [if_pos interrupts]
    rcases dealt with covered | ⟨-, covers⟩
    · exact .inl (covered condition)
    · exact (covers condition).imp_right .inl
  · rw [if_neg interrupts]
    have covered := dealt.resolve_right fun refused => interrupts refused.1
    exact (covers_stepInstruction covered middle condition).imp_right .inr

/-- The routine ends, without looking at memory, in a state in which all is covered. -/
def EndsCovered {α : Type} (routine : Routine α) (before : Processor) : Prop :=
  ∃ result left, (routine.run before).Reports (result, left) ∧ left.Covered

omit [Bus μ] in
theorem EndsCovered.bind {α β : Type} {routine : Routine α} {continuation : α → Routine β}
    {result : α} {between : Processor} (first : (routine.run before).Reports (result, between))
    (rest : (continuation result).EndsCovered between) :
    (routine >>= continuation).EndsCovered before := by
  obtain ⟨final, left, reports, covered⟩ := rest
  exact ⟨final, left, by rw [StateT.run_bind]; exact .bind first reports, covered⟩

omit [Bus μ] in
theorem done_endsCovered (covered : before.Covered) :
    (pure () : Routine Unit).EndsCovered before := ⟨(), before, .done _, covered⟩

omit [Bus μ] in
theorem raise_endsCovered (covered : before.Covered) (condition : Condition) :
    (raise condition).EndsCovered before :=
  ⟨(), before.raise condition, .notify _ (.done _), fun other => (covered other).raise condition⟩

theorem tick_endsCovered (covered : before.Covered) (elapsed : HalfWord) :
    (tick elapsed).EndsCovered before := by
  unfold tick
  split
  · exact done_endsCovered covered
  refine .bind (.done _) ?_
  rcases countDown before.systemTimer elapsed with ⟨systemTimer, systemExpired⟩
  refine .bind (.done _) ?_
  beta_reduce
  extract_lets rest
  -- The process timer runs whether or not the system timer has expired.
  have finished {between : Processor} (covered : between.Covered) :
      (rest ()).EndsCovered between := by
    refine .bind (.done _) ?_
    dsimp only
    split
    · rcases countDown between.processTimer elapsed with ⟨processTimer, processExpired⟩
      refine .bind (.done _) ?_
      have timed : Processor.Covered { between with processTimer } :=
        covered.of_standing rfl
      dsimp only
      split
      · exact raise_endsCovered timed _
      · exact done_endsCovered timed
    · exact done_endsCovered covered
  have timed : Processor.Covered { before with systemTimer } :=
    covered.of_standing rfl
  split
  · exact .bind (.notify _ (.done _)) (finished fun condition => (timed condition).raise _)
  · exact finished timed

theorem setStateRegister_endsCovered (covered : before.Covered) (register : StateRegister)
    (word : Word) : (setStateRegister register word).EndsCovered before := by
  refine ⟨(), _, Execution.setStateRegister_reports before register word, ?_⟩
  split
  · exact covered_rescanned _
  · next ungoverned => exact fun condition => (covered condition).withStateRegister ungoverned word

theorem EndsCovered.perform {α : Type} {routine : Routine α} (ends : routine.EndsCovered before)
    (memory : μ) : ((routine.run before).perform memory).1.2.Covered := by
  obtain ⟨_, _, reports, covered⟩ := ends
  rw [reports.perform_eq]
  exact covered

/-- No recorded condition that calls for a trap or more is left without an action pending that is
at least as severe, but for a user condition that a return to a caller unmasks, and for a system
call of the monitor whose exchange is refused. -/
theorem deliverable_reported (running : before.stopped = false) (covered : before.Covered)
    (memory : μ) :
    (∀ condition, (((raise condition).run before).perform memory).1.2.Covered) ∧
    (∀ action, (before.escalate action).Covered) ∧
    (∀ register word,
      (((setStateRegister register word).run before).perform memory).1.2.Covered) ∧
    (∀ elapsed, (((tick elapsed).run before).perform memory).1.2.Covered) ∧
    let after := ((step.run before).perform memory).1.2
    after.stopped = true ∨ ∀ condition, after.Covers condition ∨
      before.SystemCallRefused memory condition ∨
      UnmaskedByReturn (resolved before memory).1 (resolved before memory).2 after condition := by
  refine ⟨fun condition => ?_, fun action condition => ?_, fun register word => ?_,
    fun elapsed => ?_, covers_step running covered memory⟩
  · exact (raise_endsCovered covered condition).perform memory
  · exact (covered condition).escalate action
  · exact (setStateRegister_endsCovered covered register word).perform memory
  · exact (tick_endsCovered covered elapsed).perform memory

/-- A callee whose caller has the mask bit of a recorded overflow. -/
def overflowedJob : Processor :=
  { smallJob with userMask := 0, userConditions := 0x0040, trapControl := ⟨true, false, false⟩ }

def overflowedMemory : CyclicMemory :=
  ⟨4096, ((((((WordStore.empty.set 0 0x6ABB000000000000).set 512 0x8000000000000010).set 1024
    0x0400000000000000).set 1056 0x0000B00000000040).set 1057 0x0000B00000000100).set 1058
    0x0200B00000000100).set 1059 0xFFFFB00000000100⟩

/-- A monitor about to load a job for a system call that its mask does not select. -/
def refusingMonitor : Processor :=
  { smallJob with
    monitorMode := true
    monitorMask := 0xFFDF
    monitorConditions := 0x0020
    trapControl := ⟨true, false, false⟩
    jobPackage := 0x2000
    pending := .exchange }

def refusedMemory : CyclicMemory := ⟨4096, WordStore.empty.set 1025 0x2000000000000000⟩

theorem overflowedJob_unmasks :
    overflowedJob.stopped = false ∧ overflowedJob.Covered ∧
      UnmaskedByReturn (resolved overflowedJob overflowedMemory).1
        (resolved overflowedJob overflowedMemory).2
        ((step.run overflowedJob).perform overflowedMemory).1.2 (.user .arithmeticOverflow) := by
  have covered : overflowedJob.Covered := by decide +kernel
  obtain ⟨-, -, -, -, steps⟩ := deliverable_reported rfl covered overflowedMemory
  refine ⟨rfl, covered, ?_⟩
  rcases steps with stopped | covers
  · exact absurd stopped (by decide +kernel)
  rcases covers (.user .arithmeticOverflow) with covers | refused | unmasked
  · exact absurd covers (by decide +kernel)
  · exact absurd refused.pending (by decide)
  · exact unmasked

/-- Either exception leaves a condition without the action that it calls for. -/
theorem step_leaves_unreported :
    (overflowedJob.stopped = false ∧ overflowedJob.Covered ∧
      let after := ((step.run overflowedJob).perform overflowedMemory).1.2
      after.stopped = false ∧ ¬ after.Covered) ∧
    (refusingMonitor.stopped = false ∧ refusingMonitor.Covered ∧
      let after := ((step.run refusingMonitor).perform refusedMemory).1.2
      after.stopped = false ∧ ¬ after.Covered) := by
  decide +kernel

end Routine

end Mainframe
