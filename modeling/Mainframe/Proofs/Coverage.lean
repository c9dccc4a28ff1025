import Mainframe.Proofs.PreciseFaults

/-! Coverage. A recorded condition that calls for a trap or more is covered when an action at least
as severe as its own is pending, so that it cannot wait for ever. Raising conditions keeps what is
covered, and covers what is raised. -/

set_option autoImplicit false

namespace Mainframe

namespace Action

theorem le_trans {first second third : Action} (before : first ≤ second) (after : second ≤ third) :
    first ≤ third := Nat.le_trans before after

theorem le_max_left (left right : Action) : left ≤ max left right := by
  change left.severity ≤ (max left right).severity
  rw [severity_max]
  exact Nat.le_max_left _ _

theorem le_max_right (left right : Action) : right ≤ max left right := by
  change right.severity ≤ (max left right).severity
  rw [severity_max]
  exact Nat.le_max_right _ _

end Action

/-! ## The bits of conditions -/

theorem ordinalBit_eq (ordinal : Fin 16) :
    ordinalBit ordinal = BitVec.twoPow 16 (15 - ordinal.val) := by
  revert ordinal
  decide

theorem and_ordinalBit_ne_zero (bits : ConditionBits) (ordinal : Fin 16) :
    ((bits &&& ordinalBit ordinal) != 0) = bits.getLsbD (15 - ordinal.val) := by
  have single : BitVec.twoPow 16 (15 - ordinal.val) ≠ 0 := by
    revert ordinal
    decide
  rw [ordinalBit_eq, BitVec.and_twoPow]
  cases bits.getLsbD (15 - ordinal.val)
  · rfl
  · simpa using single

theorem getLsbD_ordinalBit (ordinal other : Fin 16) :
    (ordinalBit ordinal).getLsbD (15 - other.val) = decide (ordinal = other) := by
  revert ordinal other
  decide

theorem MonitorCondition.ordinal_injective {left right : MonitorCondition}
    (same : left.ordinal = right.ordinal) : left = right := by
  rw [← ofOrdinal_ordinal left, same, ofOrdinal_ordinal]

theorem UserCondition.ordinal_injective {left right : UserCondition}
    (same : left.ordinal = right.ordinal) : left = right := by
  rw [← ofOrdinal_ordinal left, same, ofOrdinal_ordinal]

namespace Processor

variable {processor before after : Processor} {condition : Condition}

theorem holds_withCondition {raised : Condition}
    (held : (processor.withCondition raised).holds condition = true) :
    processor.holds condition = true ∨ condition = raised := by
  cases raised with
  | monitor raised =>
    cases condition with
    | monitor condition =>
      rw [holds, and_ordinalBit_ne_zero] at held ⊢
      rw [withCondition, BitVec.getLsbD_or, getLsbD_ordinalBit, Bool.or_eq_true,
        decide_eq_true_eq] at held
      exact held.imp_right fun same => congrArg _ (MonitorCondition.ordinal_injective same.symm)
    | user condition => exact .inl held
  | user raised =>
    cases condition with
    | monitor condition => exact .inl held
    | user condition =>
      rw [holds, and_ordinalBit_ne_zero] at held ⊢
      rw [withCondition, BitVec.getLsbD_or, getLsbD_ordinalBit, Bool.or_eq_true,
        decide_eq_true_eq] at held
      exact held.imp_right fun same => congrArg _ (UserCondition.ordinal_injective same.symm)

def recorded (processor : Processor) : Condition → ConditionBits
  | .monitor _ => processor.monitorConditions
  | .user _ => processor.userConditions

theorem holds_eq (processor : Processor) (condition : Condition) :
    processor.holds condition =
      (processor.recorded condition).getLsbD (15 - condition.ordinal.val) := by
  cases condition with
  | monitor condition => exact and_ordinalBit_ne_zero _ _
  | user condition => exact and_ordinalBit_ne_zero _ _

/-! ## Covered conditions -/

/-- If the condition is recorded and calls for a trap or more, the action asks for no less. -/
def Meets (processor : Processor) (action : Action) (condition : Condition) : Prop :=
  processor.holds condition = true → (processor.actionOf condition).Interrupts →
    processor.actionOf condition ≤ action

/-- The pending action is at least the one that the condition calls for. -/
def Covers (processor : Processor) (condition : Condition) : Prop :=
  processor.Meets processor.pending condition

def Covered (processor : Processor) : Prop := ∀ condition, processor.Covers condition

instance (processor : Processor) (action : Action) (condition : Condition) :
    Decidable (processor.Meets action condition) := inferInstanceAs (Decidable (_ → _ → _))

instance (processor : Processor) (condition : Condition) : Decidable (processor.Covers condition) :=
  inferInstanceAs (Decidable (processor.Meets _ _))

instance (processor : Processor) : Decidable processor.Covered :=
  decidable_of_iff (∀ condition ∈ Condition.all, processor.Covers condition)
    ⟨fun covers condition => covers condition condition.mem_all, fun covered condition _ =>
      covered condition⟩

theorem Meets.mono {action : Action} (meets : before.Meets action condition)
    (recorded : after.holds condition = true → before.holds condition = true)
    (same : after.actionOf condition = before.actionOf condition) {wider : Action}
    (widens : action ≤ wider) : after.Meets wider condition := by
  intro held interrupts
  rw [same] at interrupts ⊢
  exact Action.le_trans (meets (recorded held) interrupts) widens

theorem Covers.of_eq (covers : before.Covers condition)
    (recorded : after.holds condition = before.holds condition)
    (same : after.actionOf condition = before.actionOf condition)
    (pending : after.pending = before.pending) : after.Covers condition :=
  Meets.mono covers (fun held => recorded ▸ held) same (pending ▸ Nat.le_refl _)

structure Standing where
  monitorConditions : ConditionBits
  userConditions : ConditionBits
  monitorMask : ConditionBits
  userMask : ConditionBits
  monitorMode : Bool
  trapEnabled : Bool
  pending : Action

def standing (processor : Processor) : Standing :=
  { monitorConditions := processor.monitorConditions
    userConditions := processor.userConditions
    monitorMask := processor.monitorMask
    userMask := processor.userMask
    monitorMode := processor.monitorMode
    trapEnabled := processor.trapControl.enabled
    pending := processor.pending }

theorem selects_of_standing (same : after.standing = before.standing) (condition : Condition) :
    after.selects condition = before.selects condition := by
  have monitorMask : after.monitorMask = before.monitorMask := congrArg Standing.monitorMask same
  have userMask : after.userMask = before.userMask := congrArg Standing.userMask same
  cases condition with
  | monitor condition => rw [selects, monitorMask, selects]
  | user condition => rw [selects, userMask, selects]

theorem holds_of_standing (same : after.standing = before.standing) (condition : Condition) :
    after.holds condition = before.holds condition := by
  have recorded : after.recorded condition = before.recorded condition := by
    cases condition with
    | monitor condition => exact congrArg Standing.monitorConditions same
    | user condition => exact congrArg Standing.userConditions same
  rw [holds_eq, recorded, holds_eq]

theorem Covers.of_standing (covers : before.Covers condition)
    (same : after.standing = before.standing) : after.Covers condition := by
  have mode : after.monitorMode = before.monitorMode := congrArg Standing.monitorMode same
  have traps : after.trapControl.enabled = before.trapControl.enabled :=
    congrArg Standing.trapEnabled same
  refine covers.of_eq (holds_of_standing same condition) ?_ (congrArg Standing.pending same)
  rw [actionOf, selects_of_standing same, mode, traps, actionOf]

theorem pending_raise (processor : Processor) (raised : Condition) :
    (processor.raise raised).pending = max processor.pending (processor.actionOf raised) := by
  cases raised <;> rfl

theorem actionOf_raise (processor : Processor) (raised condition : Condition) :
    (processor.raise raised).actionOf condition = processor.actionOf condition := by
  cases raised <;> rfl

theorem covers_raise (processor : Processor) (condition : Condition) :
    (processor.raise condition).Covers condition := by
  intro _ _
  rw [actionOf_raise, pending_raise]
  exact Action.le_max_right _ _

theorem Covers.raise (covers : processor.Covers condition) (raised : Condition) :
    (processor.raise raised).Covers condition := by
  by_cases again : condition = raised
  · rw [again]
    exact covers_raise processor raised
  · refine Meets.mono covers (fun held => (holds_withCondition held).resolve_right again)
      (processor.actionOf_raise raised condition) ?_
    rw [pending_raise]
    exact Action.le_max_left _ _

theorem Covers.escalate (covers : processor.Covers condition) (action : Action) :
    (processor.escalate action).Covers condition :=
  Meets.mono covers id rfl (Action.le_max_left _ _)

theorem covered_foldl_raise {conditions : List Condition}
    (rest : ∀ condition, condition ∉ conditions → processor.Covers condition) :
    (conditions.foldl Processor.raise processor).Covered := by
  induction conditions generalizing processor with
  | nil => exact fun condition => rest condition List.not_mem_nil
  | cons raised conditions ih =>
    apply ih
    intro condition outside
    by_cases again : condition = raised
    · rw [again]
      exact covers_raise processor raised
    · exact (rest condition (by simp [again, outside])).raise raised

theorem covered_rescanned (processor : Processor) : processor.rescanned.Covered := by
  apply covered_foldl_raise
  intro condition outside held
  exact absurd (List.mem_filter.mpr ⟨condition.mem_all, held⟩) outside

theorem Covered.of_standing (covered : before.Covered) (same : after.standing = before.standing) :
    after.Covered :=
  fun condition => (covered condition).of_standing same

end Processor

end Mainframe
