import Mainframe.Proofs.Observation
import Mainframe.Proofs.TrapFailure

/-! Signals that reach a processor between two instructions: conditions are raised, actions are asked
for, recorded conditions are looked at again. What they leave is told by which signals there were.
It makes no difference in which order they came, or how often one of them did. -/

set_option autoImplicit false

namespace Mainframe

namespace Action

theorem le_antisymm {left right : Action} (below : left ≤ right) (above : right ≤ left) :
    left = right := by
  have same : left.severity = right.severity := Nat.le_antisymm below above
  cases left <;> cases right <;> first | rfl | cases same

theorem max_eq_or (left right : Action) : max left right = left ∨ max left right = right := by
  change (if left ≤ right then right else left) = left ∨
    (if left ≤ right then right else left) = right
  split
  · exact .inr rfl
  · exact .inl rfl

end Action

/-- What can reach a processor that carries out no instruction. -/
inductive Signal where
  | raise (condition : Condition)
  | escalate (action : Action)
  | rescan
  deriving DecidableEq

namespace Signal

def routine : Signal → Routine Unit
  | .raise condition => Routine.raise condition
  | .escalate action => modify fun processor => processor.escalate action
  | .rescan => Routine.rescan

def command (number : Nat) : Signal → Machine.Command
  | .raise condition => .raise number condition
  | .escalate action => .adjust number fun processor => processor.escalate action
  | .rescan => .rescan number

def condition? : Signal → Option Condition
  | .raise condition => some condition
  | .escalate _ | .rescan => none

end Signal

def raisedBy (signals : List Signal) : List Condition := signals.filterMap Signal.condition?

theorem mem_raisedBy {signals : List Signal} {condition : Condition} :
    condition ∈ raisedBy signals ↔ .raise condition ∈ signals := by
  rw [raisedBy, List.mem_filterMap]
  constructor
  · rintro ⟨signal, member, found⟩
    cases signal with
    | raise raised =>
      cases found
      exact member
    | escalate | rescan => cases found
  · exact fun member => ⟨_, member, rfl⟩

/-! ## Bits of conditions -/

theorem Condition.eq_of_ordinal {left right : Condition} (alike : left.isMonitor = right.isMonitor)
    (same : left.ordinal = right.ordinal) : left = right := by
  cases left with
  | monitor left =>
    cases right with
    | monitor right => exact congrArg _ (MonitorCondition.ordinal_injective same)
    | user right => cases alike
  | user left =>
    cases right with
    | monitor right => cases alike
    | user right => exact congrArg _ (UserCondition.ordinal_injective same)

theorem getLsbD_conditionBits_iff (conditions : List Condition) {test : Condition → Bool}
    {condition : Condition}
    (ofClass : ∀ other, test other = true ↔ other.isMonitor = condition.isMonitor) :
    (conditionBits conditions test).getLsbD (15 - condition.ordinal.val) = true ↔
      condition ∈ conditions := by
  rw [conditionBits, getLsbD_foldl_or, BitVec.ofNat_eq_ofNat, BitVec.getLsbD_zero, Bool.false_or,
    List.any_eq_true]
  simp only [List.mem_filter, Condition.bit, getLsbD_ordinalBit, decide_eq_true_eq, ofClass]
  constructor
  · rintro ⟨other, ⟨member, alike⟩, same⟩
    rwa [← Condition.eq_of_ordinal alike same]
  · exact fun member => ⟨condition, ⟨member, rfl⟩, rfl⟩

theorem conditionBits_congr {conditions others : List Condition} (test : Condition → Bool)
    (same : ∀ condition, condition ∈ conditions ↔ condition ∈ others) :
    conditionBits conditions test = conditionBits others test := by
  apply BitVec.eq_of_getLsbD_eq
  intro position _
  rw [conditionBits, conditionBits, getLsbD_foldl_or, getLsbD_foldl_or]
  congr 1
  rw [Bool.eq_iff_iff, List.any_eq_true, List.any_eq_true]
  simp only [List.mem_filter, same]

theorem conditionBits_ext {left right : ConditionBits}
    (same : ∀ ordinal : Fin 16,
      left.getLsbD (15 - ordinal.val) = true ↔ right.getLsbD (15 - ordinal.val) = true) :
    left = right := by
  apply BitVec.eq_of_getLsbD_eq
  intro position inside
  have found := same ⟨15 - position, by omega⟩
  rw [Nat.sub_sub_self (Nat.le_of_lt_succ inside)] at found
  exact Bool.eq_iff_iff.mpr found

def Routine.receive (signals : List Signal) : Routine Unit := signals.forM Signal.routine

namespace Processor

def signalled (processor : Processor) : Signal → Processor
  | .raise condition => processor.raise condition
  | .escalate action => processor.escalate action
  | .rescan => processor.rescanned

def afterSignals (processor : Processor) (signals : List Signal) : Processor :=
  signals.foldl signalled processor

variable (processor before : Processor)

theorem afterSignals_append (signals more : List Signal) :
    processor.afterSignals (signals ++ more) = (processor.afterSignals signals).afterSignals more :=
  List.foldl_append

/-! ## One signal -/

theorem signalled_eq (signal : Signal) :
    ∃ monitorConditions userConditions pending, processor.signalled signal = { processor with
      monitorConditions, userConditions, pending } := by
  cases signal with
  | raise condition => cases condition <;> exact ⟨_, _, _, rfl⟩
  | escalate action => exact ⟨_, _, _, rfl⟩
  | rescan =>
    obtain ⟨monitor, user, pending, same⟩ := processor.rescanned_eq
    exact ⟨_, _, _, same⟩

theorem holds_foldl_raise (conditions : List Condition) (condition : Condition) :
    (conditions.foldl raise processor).holds condition = true ↔
      processor.holds condition = true ∨ condition ∈ conditions := by
  induction conditions generalizing processor with
  | nil => simp
  | cons raised rest ih => rw [List.foldl_cons, ih, holds_raise, List.mem_cons, or_assoc]

theorem holds_signalled (signal : Signal) (condition : Condition) :
    (processor.signalled signal).holds condition = true ↔
      processor.holds condition = true ∨ signal = .raise condition := by
  cases signal with
  | raise raised =>
    change (processor.raise raised).holds condition = true ↔ _
    rw [holds_raise, Signal.raise.injEq, eq_comm (a := condition)]
  | escalate action =>
    have same : (processor.escalate action).holds condition = processor.holds condition := by
      cases condition <;> rfl
    change (processor.escalate action).holds condition = true ↔ _
    simp [same]
  | rescan =>
    -- Only conditions that are recorded already are raised again.
    change (processor.conditions.foldl raise processor).holds condition = true ↔ _
    rw [holds_foldl_raise, conditions, List.mem_filter]
    simp

theorem pending_foldl_raise (conditions : List Condition) :
    let last := (conditions.foldl raise processor).pending
    (processor.pending ≤ last ∧ ∀ condition ∈ conditions, processor.actionOf condition ≤ last) ∧
      (last = processor.pending ∨ ∃ condition ∈ conditions, last = processor.actionOf condition) := by
  induction conditions generalizing processor with
  | nil => exact ⟨⟨Nat.le_refl _, nofun⟩, .inl rfl⟩
  | cons raised rest ih =>
    obtain ⟨⟨first, others⟩, reached⟩ := ih (processor.raise raised)
    simp only [actionOf_raise] at others reached
    rw [pending_raise] at first reached
    refine ⟨⟨Action.le_trans (Action.le_max_left _ _) first, fun condition member => ?_⟩, ?_⟩
    · rcases List.mem_cons.mp member with rfl | member
      · exact Action.le_trans (Action.le_max_right _ _) first
      · exact others condition member
    · rcases reached with same | ⟨condition, member, same⟩
      · rcases Action.max_eq_or processor.pending (processor.actionOf raised) with kept | risen
        · exact .inl (same.trans kept)
        · exact .inr ⟨raised, List.mem_cons_self, same.trans risen⟩
      · exact .inr ⟨condition, List.mem_cons_of_mem _ member, same⟩

theorem pending_le_signalled (signal : Signal) :
    processor.pending ≤ (processor.signalled signal).pending := by
  cases signal with
  | raise condition =>
    change _ ≤ (processor.raise condition).pending
    rw [pending_raise]
    exact Action.le_max_left _ _
  | escalate action => exact Action.le_max_left _ _
  | rescan => exact (processor.pending_foldl_raise _).1.1

/-! ## Signals one after another -/

theorem afterSignals_eq (signals : List Signal) :
    ∃ monitorConditions userConditions pending, processor.afterSignals signals = { processor with
      monitorConditions, userConditions, pending } := by
  induction signals generalizing processor with
  | nil => exact ⟨_, _, _, rfl⟩
  | cons signal rest ih =>
    obtain ⟨monitorConditions, userConditions, pending, same⟩ := processor.signalled_eq signal
    rw [afterSignals, List.foldl_cons, same]
    exact ih _

theorem actionOf_afterSignals (signals : List Signal) (condition : Condition) :
    (processor.afterSignals signals).actionOf condition = processor.actionOf condition := by
  obtain ⟨_, _, _, same⟩ := processor.afterSignals_eq signals
  rw [same]
  cases condition <;> rfl

theorem holds_afterSignals (signals : List Signal) (condition : Condition) :
    (processor.afterSignals signals).holds condition = true ↔
      processor.holds condition = true ∨ .raise condition ∈ signals := by
  induction signals generalizing processor with
  | nil => simp [afterSignals]
  | cons signal rest ih =>
    change ((processor.signalled signal).afterSignals rest).holds condition = true ↔ _
    rw [ih, holds_signalled, List.mem_cons, or_assoc, eq_comm (a := signal)]

theorem pending_le_afterSignals (signals : List Signal) :
    processor.pending ≤ (processor.afterSignals signals).pending := by
  induction signals generalizing processor with
  | nil => exact Nat.le_refl _
  | cons signal rest ih =>
    exact Action.le_trans (processor.pending_le_signalled signal) (ih _)

theorem recorded_congr {condition other : Condition}
    (alike : other.isMonitor = condition.isMonitor) :
    processor.recorded other = processor.recorded condition := by
  cases condition <;> cases other <;> first | rfl | cases alike

theorem recorded_afterSignals (signals : List Signal) (condition : Condition)
    {test : Condition → Bool}
    (ofClass : ∀ other, test other = true ↔ other.isMonitor = condition.isMonitor) :
    (processor.afterSignals signals).recorded condition =
      processor.recorded condition ||| conditionBits (raisedBy signals) test := by
  apply conditionBits_ext
  intro ordinal
  obtain ⟨other, alike, rfl⟩ : ∃ other : Condition,
      other.isMonitor = condition.isMonitor ∧ other.ordinal = ordinal := by
    cases condition with
    | monitor => exact ⟨.monitor (.ofOrdinal ordinal), rfl, MonitorCondition.ordinal_ofOrdinal _⟩
    | user => exact ⟨.user (.ofOrdinal ordinal), rfl, UserCondition.ordinal_ofOrdinal _⟩
  have raised : (conditionBits (raisedBy signals) test).getLsbD (15 - other.ordinal.val) = true ↔
      .raise other ∈ signals := by
    rw [getLsbD_conditionBits_iff _ (by rwa [alike]), mem_raisedBy]
  rw [BitVec.getLsbD_or, Bool.or_eq_true, raised, ← recorded_congr _ alike,
    ← recorded_congr _ alike, ← holds_eq, ← holds_eq, holds_afterSignals]

/-- An action that is called for when signals have come: the one that was pending, one that they ask
for, that of a condition that they raise, and that of a condition recorded when they come to look at
conditions again. -/
inductive CallsFor (signals : List Signal) : Action → Prop where
  | pending : CallsFor signals before.pending
  | escalated {action : Action} : .escalate action ∈ signals → CallsFor signals action
  | raised {condition : Condition} :
    .raise condition ∈ signals → CallsFor signals (before.actionOf condition)
  | rescanned {earlier later : List Signal} {condition : Condition} :
    signals = earlier ++ .rescan :: later →
    (before.afterSignals earlier).holds condition = true →
    CallsFor signals (before.actionOf condition)

namespace CallsFor

variable {before} {signals others : List Signal} {action : Action}

theorem append (calls : before.CallsFor signals action) (more : List Signal) :
    before.CallsFor (signals ++ more) action := by
  cases calls with
  | pending => exact .pending
  | escalated member => exact .escalated (List.mem_append_left _ member)
  | raised member => exact .raised (List.mem_append_left _ member)
  | @rescanned earlier later condition split held =>
    have longer : signals ++ more = earlier ++ .rescan :: (later ++ more) := by
      rw [split, List.append_assoc]
      rfl
    exact .rescanned longer held

/-- Which actions are called for depends on which signals there are. A condition that is recorded
only because it was raised before is called for by that. -/
theorem congr (calls : before.CallsFor signals action)
    (same : ∀ signal, signal ∈ signals → signal ∈ others) : before.CallsFor others action := by
  cases calls with
  | pending => exact .pending
  | escalated member => exact .escalated (same _ member)
  | raised member => exact .raised (same _ member)
  | @rescanned earlier later condition split held =>
    rcases (before.holds_afterSignals earlier condition).mp held with recorded | raised
    · obtain ⟨first, last, there⟩ := List.append_of_mem (same .rescan (by rw [split]; simp))
      exact .rescanned there ((before.holds_afterSignals first condition).mpr (.inl recorded))
    · exact .raised (same _ (by rw [split]; exact List.mem_append_left _ raised))

end CallsFor

theorem callsFor_pending (signals : List Signal) :
    before.CallsFor signals (before.afterSignals signals).pending := by
  -- The last signal decides whether the action was pending already or is one it calls for.
  induction signals using List.reverseRecOn with
  | nil => exact .pending
  | append_singleton signals last ih =>
    rw [afterSignals_append]
    change before.CallsFor _ ((before.afterSignals signals).signalled last).pending
    cases last with
    | raise condition =>
      change before.CallsFor _ ((before.afterSignals signals).raise condition).pending
      rw [pending_raise, actionOf_afterSignals]
      rcases Action.max_eq_or (before.afterSignals signals).pending
        (before.actionOf condition) with kept | risen
      · rw [kept]
        exact ih.append _
      · rw [risen]
        exact .raised (by simp)
    | escalate action =>
      change before.CallsFor _ (max (before.afterSignals signals).pending action)
      rcases Action.max_eq_or (before.afterSignals signals).pending action with kept | risen
      · rw [kept]
        exact ih.append _
      · rw [risen]
        exact .escalated (by simp)
    | rescan =>
      change before.CallsFor _ (before.afterSignals signals).rescanned.pending
      rcases ((before.afterSignals signals).pending_foldl_raise _).2 with
        kept | ⟨condition, member, same⟩
      · rw [rescanned, kept]
        exact ih.append _
      · rw [rescanned, same, actionOf_afterSignals]
        exact .rescanned rfl (List.mem_filter.mp member).2

theorem le_afterSignals {earlier later : List Signal} {signal : Signal} {action : Action}
    (reached : action ≤ ((before.afterSignals earlier).signalled signal).pending) :
    action ≤ (before.afterSignals (earlier ++ signal :: later)).pending := by
  rw [afterSignals_append]
  exact Action.le_trans reached (pending_le_afterSignals _ later)

theorem CallsFor.le_pending {signals : List Signal} {action : Action}
    (calls : before.CallsFor signals action) : action ≤ (before.afterSignals signals).pending := by
  cases calls with
  | pending => exact before.pending_le_afterSignals signals
  | escalated member =>
    obtain ⟨earlier, later, rfl⟩ := List.append_of_mem member
    exact before.le_afterSignals (Action.le_max_right _ _)
  | @raised condition member =>
    obtain ⟨earlier, later, rfl⟩ := List.append_of_mem member
    apply before.le_afterSignals
    change _ ≤ ((before.afterSignals earlier).raise condition).pending
    rw [pending_raise, actionOf_afterSignals]
    exact Action.le_max_right _ _
  | @rescanned earlier later condition split held =>
    subst split
    apply before.le_afterSignals
    rw [← before.actionOf_afterSignals earlier]
    exact ((before.afterSignals earlier).pending_foldl_raise _).1.2 condition
      (List.mem_filter.mpr ⟨condition.mem_all, held⟩)

/-- What signals leave behind. The registers of conditions take up what was raised, the most severe
action that is called for is pending, and nothing else has changed. -/
structure Accumulates (signals : List Signal) (after : Processor) : Prop where
  monitorConditions : after.monitorConditions =
    before.monitorConditions ||| conditionBits (raisedBy signals) Condition.isMonitor
  userConditions : after.userConditions =
    before.userConditions ||| conditionBits (raisedBy signals) fun condition => !condition.isMonitor
  called : before.CallsFor signals after.pending
  severest : ∀ action, before.CallsFor signals action → action ≤ after.pending
  others : ∃ monitorConditions userConditions pending, after = { before with
    monitorConditions, userConditions, pending }

theorem accumulates_afterSignals (signals : List Signal) :
    before.Accumulates signals (before.afterSignals signals) where
  monitorConditions := before.recorded_afterSignals signals (.monitor .notAssigned)
    (by simp [Condition.isMonitor])
  userConditions := before.recorded_afterSignals signals (.user .debug)
    (by simp [Condition.isMonitor])
  called := before.callsFor_pending signals
  severest _ calls := calls.le_pending
  others := before.afterSignals_eq signals

variable {before} in
/-- Signals that are the same but for their order and number leave the same behind. -/
theorem Accumulates.unique {signals others : List Signal} {after other : Processor}
    (first : before.Accumulates signals after) (second : before.Accumulates others other)
    (same : ∀ signal, signal ∈ others ↔ signal ∈ signals) : other = after := by
  have listed : ∀ condition, condition ∈ raisedBy others ↔ condition ∈ raisedBy signals := by
    intro condition
    rw [mem_raisedBy, mem_raisedBy, same]
  have monitorBits : other.monitorConditions = after.monitorConditions := by
    rw [first.monitorConditions, second.monitorConditions, conditionBits_congr _ listed]
  have userBits : other.userConditions = after.userConditions := by
    rw [first.userConditions, second.userConditions, conditionBits_congr _ listed]
  have pending : other.pending = after.pending := Action.le_antisymm
    (first.severest _ (second.called.congr fun signal => (same signal).mp))
    (second.severest _ (first.called.congr fun signal => (same signal).mpr))
  obtain ⟨_, _, _, rfl⟩ := first.others
  obtain ⟨_, _, _, rfl⟩ := second.others
  cases monitorBits
  cases userBits
  cases pending
  rfl

end Processor

/-! ## Processors and machines -/

theorem Signal.reports (signal : Signal) (processor : Processor) :
    (signal.routine.run processor).Reports ((), processor.signalled signal) := by
  cases signal with
  | raise condition => exact .notify _ (.done _)
  | escalate action => exact .done _
  | rescan => exact Execution.forM_raise_reports processor.conditions processor

theorem Routine.receive_reports (signals : List Signal) (processor : Processor) :
    ((receive signals).run processor).Reports ((), processor.afterSignals signals) := by
  induction signals generalizing processor with
  | nil => exact .done _
  | cons signal rest ih => exact .bind (signal.reports processor) (ih _)

namespace Machine

variable {machine : Machine} {number : Nat} {sender : Processor}

theorem run_reports {routine : Routine Unit} {change : Processor → Processor}
    (reports : ∀ processor, (routine.run processor).Reports ((), change processor))
    (found : machine.processors[number]? = some sender) :
    ∃ journal, machine.run number routine = .ok ((), { machine with
      processors := machine.processors.modify number change, journal }) := by
  rw [run_present found, (reports sender).perform_eq, List.modify_eq_set_getElem?, found]
  exact ⟨_, rfl⟩

theorem carryOut_signal (machine : Machine) (number : Nat) (signal : Signal) :
    ∃ journal, (machine.carryOut (signal.command number)).2 = { machine with
      processors := machine.processors.modify number (·.signalled signal), journal } := by
  have carries : (machine.carryOut (signal.command number)).2 =
      (machine.answer (fun _ => .done) (machine.run number signal.routine)).2 := by
    cases signal with
    | raise condition =>
      change (machine.answer (fun _ => .done) (((), ·) <$> machine.raise number condition)).2 =
        (machine.answer (fun _ => .done) (machine.run number (Routine.raise condition))).2
      unfold Machine.raise
      cases machine.run number (Routine.raise condition) <;> rfl
    | escalate | rescan => rfl
  rw [carries]
  rcases found : machine.processors[number]? with _ | sender
  · rw [run_missing found, List.modify_eq_self (List.getElem?_eq_none_iff.mp found)]
    exact ⟨_, rfl⟩
  · obtain ⟨journal, runs⟩ := run_reports signal.reports found
    rw [runs]
    exact ⟨journal, rfl⟩

theorem afterAll_signals (machine : Machine) (number : Nat) (signals : List Signal) :
    ∃ journal, machine.afterAll (signals.map (Signal.command number)) = { machine with
      processors := machine.processors.modify number (·.afterSignals signals), journal } := by
  induction signals generalizing machine with
  | nil =>
    have same : machine.processors.modify number (·.afterSignals []) = machine.processors :=
      List.modify_id _ _
    exact ⟨machine.journal, by rw [same]; rfl⟩
  | cons signal rest ih =>
    obtain ⟨_, first⟩ := machine.carryOut_signal number signal
    rw [List.map_cons, afterAll, List.foldl_cons, first]
    obtain ⟨journal, others⟩ := ih { machine with
      processors := machine.processors.modify number (·.signalled signal), journal := _ }
    refine ⟨journal, others.trans ?_⟩
    dsimp only
    rw [List.modify_modify_eq]
    rfl

end Machine

namespace Routine

variable {μ : Type} [Bus μ]

/-- Between instructions, signals accumulate whatever their order and number. To look at conditions
again directly after that has been done changes nothing. -/
theorem signals_order_free (before : Processor) (memory : μ) (signals : List Signal) :
    ((receive signals).run before).perform memory = (((), before.afterSignals signals), memory) ∧
      before.Accumulates signals (before.afterSignals signals) ∧
      (∀ others : List Signal, (∀ signal, signal ∈ others ↔ signal ∈ signals) →
        ((receive others).run before).perform memory =
          ((receive signals).run before).perform memory) ∧
      ((do rescan; rescan : Routine Unit).run before).perform memory =
        (rescan.run before).perform memory ∧
      ∀ (machine : Machine) (number : Nat),
        let last := machine.afterAll (signals.map (Signal.command number))
        last.processors = machine.processors.modify number (·.afterSignals signals) ∧
          last.memory = machine.memory := by
  have goes (signals : List Signal) := (receive_reports signals before).perform_eq memory
  have merges {signals others : List Signal}
      (same : ∀ signal, signal ∈ others ↔ signal ∈ signals) :
      before.afterSignals others = before.afterSignals signals :=
    (before.accumulates_afterSignals signals).unique (before.accumulates_afterSignals others) same
  refine ⟨goes signals, before.accumulates_afterSignals signals, fun others same => ?shuffled,
    ?again, fun machine number => ?machines⟩
  case shuffled => rw [goes, goes, merges same]
  case again =>
    have merged : before.afterSignals [.rescan, .rescan] = before.afterSignals [.rescan] :=
      merges (by simp)
    have twice : ((do rescan; rescan : Routine Unit).run before).Reports
        ((), before.afterSignals [.rescan, .rescan]) :=
      .bind (Signal.reports .rescan before) (Signal.reports .rescan _)
    rw [twice.perform_eq, merged]
    exact ((Signal.reports .rescan before).perform_eq memory).symm
  case machines =>
    obtain ⟨journal, same⟩ := machine.afterAll_signals number signals
    rw [same]
    exact ⟨rfl, rfl⟩

def overflownJob : Processor :=
  { smallJob with monitorMask := 0, userMask := 0x0040, userConditions := 0x0040 }

/-- The flag and the interrupt are not selected. The trap is for the overflow. -/
theorem overflownJob_signalled :
    let signals : List Signal :=
      [.raise (.user .freeFlag), .rescan, .raise (.monitor .externalInterrupt), .escalate .stack]
    let others : List Signal :=
      [.escalate .stack, .raise (.monitor .externalInterrupt), .rescan, .rescan,
        .raise (.user .freeFlag), .raise (.monitor .externalInterrupt)]
    (∀ signal, signal ∈ others ↔ signal ∈ signals) ∧
      ((receive others).run overflownJob).perform smallMemory =
        ((receive signals).run overflownJob).perform smallMemory ∧
      overflownJob.Accumulates signals (overflownJob.afterSignals signals) ∧
      (overflownJob.afterSignals signals).pending = .trap ∧
      (overflownJob.afterSignals signals).monitorConditions = 0x0080 ∧
      (overflownJob.afterSignals signals).userConditions = 0x2040 := by
  intro signals others
  have same : ∀ signal, signal ∈ others ↔ signal ∈ signals := by
    intro signal
    simp only [signals, others, List.mem_cons, List.not_mem_nil]
    tauto
  obtain ⟨-, accumulates, shuffles, -⟩ :=
    signals_order_free overflownJob smallMemory signals
  exact ⟨same, shuffles others same, accumulates, by decide +kernel, by decide +kernel,
    by decide +kernel⟩

end Routine

end Mainframe
