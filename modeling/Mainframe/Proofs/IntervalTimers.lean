import Mainframe.Proofs.Signals

/-! The interval timers over a stretch of time. How the time is divided into ticks makes no
difference, since a timer that has expired does not come round to zero again before 2³² counts. -/

set_option autoImplicit false

namespace Mainframe

/-- To count down in two parts is to count down at once. The timer expires in one of the parts if it
does so at all. -/
theorem countDown_add (timer first second : HalfWord)
    (fits : first.toNat + second.toNat < 2 ^ 32) :
    countDown timer (first + second) =
      ((countDown (countDown timer first).1 second).1,
        (countDown timer first).2 || (countDown (countDown timer first).1 second).2) := by
  have whole : timer - (first + second) = timer - first - second := by
    rw [BitVec.sub_sub]
  have inside := timer.isLt
  have left : (timer - first).toNat = (2 ^ 32 - first.toNat + timer.toNat) % 2 ^ 32 :=
    BitVec.toNat_sub _ _
  have total : (first + second).toNat = first.toNat + second.toNat := by
    rw [BitVec.toNat_add, Nat.mod_eq_of_lt fits]
  simp only [countDown_eq]
  rw [whole, total, ← Bool.decide_or]
  congr 2
  rw [left, eq_iff_iff]
  -- A timer that has expired is left with more than the counts to come.
  by_cases expired : timer.toNat ≤ first.toNat
  · omega
  · rw [show 2 ^ 32 - first.toNat + timer.toNat = timer.toNat - first.toNat + 2 ^ 32 by omega,
      Nat.add_mod_right, Nat.mod_eq_of_lt (by omega)]
    omega

theorem Action.max_proceed (action : Action) : max action .proceed = action := by
  cases action <;> rfl

namespace Processor

variable (processor : Processor)

/-- The timers count down. In monitor mode the process timer stands still. -/
def counted (elapsed : HalfWord) : Processor :=
  { processor with
    systemTimer := processor.systemTimer - elapsed
    processTimer :=
      if processor.monitorMode then processor.processTimer else processor.processTimer - elapsed }

def expiring (elapsed : HalfWord) : List Condition :=
  (if elapsed ≠ 0 ∧ (countDown processor.systemTimer elapsed).2
    then [.monitor .systemIntervalTimer] else []) ++
  (if elapsed ≠ 0 ∧ processor.monitorMode = false ∧ (countDown processor.processTimer elapsed).2
    then [.user .processIntervalTimer] else [])

def ticked (elapsed : HalfWord) : Processor :=
  (processor.expiring elapsed).foldl raise (processor.counted elapsed)

theorem mem_expiring (elapsed : HalfWord) (condition : Condition) :
    condition ∈ processor.expiring elapsed ↔
      (elapsed ≠ 0 ∧ (countDown processor.systemTimer elapsed).2) ∧
          condition = .monitor .systemIntervalTimer ∨
        (elapsed ≠ 0 ∧ processor.monitorMode = false ∧
            (countDown processor.processTimer elapsed).2) ∧
          condition = .user .processIntervalTimer := by
  rw [expiring, List.mem_append, List.mem_ite_nil_right, List.mem_ite_nil_right,
    List.mem_singleton, List.mem_singleton]

theorem counted_foldl_raise (conditions : List Condition) (elapsed : HalfWord) :
    (conditions.foldl raise processor).counted elapsed =
      conditions.foldl raise (processor.counted elapsed) := by
  refine (List.foldl_hom (counted · elapsed) fun processor condition => ?_).symm
  cases condition <;> rfl

theorem expiring_foldl_raise (conditions : List Condition) (elapsed : HalfWord) :
    (conditions.foldl raise processor).expiring elapsed = processor.expiring elapsed := by
  obtain ⟨_, _, _, same⟩ := foldl_raise_eq conditions processor
  rw [same]
  rfl

theorem foldl_raise_congr {conditions others : List Condition}
    (same : ∀ condition, condition ∈ conditions ↔ condition ∈ others) :
    conditions.foldl raise processor = others.foldl raise processor := by
  have signals (conditions : List Condition) :
      conditions.foldl raise processor = processor.afterSignals (conditions.map .raise) := by
    rw [afterSignals, List.foldl_map]
    rfl
  rw [signals, signals]
  apply (processor.accumulates_afterSignals _).unique (processor.accumulates_afterSignals _)
  intro signal
  cases signal with
  | raise condition => simp [same]
  | escalate | rescan => simp

theorem ticked_zero : processor.ticked 0 = processor := by
  have stand : processor.counted 0 = processor := by simp [counted]
  rw [ticked, stand]
  rfl

theorem mem_expiring_add {first second : HalfWord} (running : first ≠ 0) (more : second ≠ 0)
    (fits : first.toNat + second.toNat < 2 ^ 32) (condition : Condition) :
    condition ∈ processor.expiring first ++ (processor.counted first).expiring second ↔
      condition ∈ processor.expiring (first + second) := by
  have both : first + second ≠ 0 := by
    intro stands
    apply running
    apply BitVec.eq_of_toNat_eq
    have total := congrArg BitVec.toNat stands
    rw [BitVec.toNat_add, Nat.mod_eq_of_lt fits] at total
    exact Nat.eq_zero_of_add_eq_zero_right total
  have systemTimer :
      (processor.counted first).systemTimer = (countDown processor.systemTimer first).1 := rfl
  have mode : (processor.counted first).monitorMode = processor.monitorMode := rfl
  simp only [List.mem_append, mem_expiring, countDown_add _ _ _ fits, Bool.or_eq_true,
    systemTimer, mode]
  cases job : processor.monitorMode with
  | false =>
    have processTimer :
        (processor.counted first).processTimer = (countDown processor.processTimer first).1 := by
      rw [counted, job]
      rfl
    rw [processTimer]
    tauto
  | true =>
    simp only [Bool.true_eq_false, false_and, and_false, or_false]
    tauto

theorem ticked_ticked {first second : HalfWord} (fits : first.toNat + second.toNat < 2 ^ 32) :
    (processor.ticked first).ticked second = processor.ticked (first + second) := by
  by_cases running : first = 0
  · rw [running, ticked_zero, zero_add]
  by_cases more : second = 0
  · rw [more, ticked_zero, add_zero]
  have counts : (processor.counted first).counted second = processor.counted (first + second) := by
    unfold counted
    cases processor.monitorMode <;> simp [BitVec.sub_sub]
  rw [ticked, ticked, counted_foldl_raise, expiring_foldl_raise, counts, ← List.foldl_append]
  exact foldl_raise_congr _ (processor.mem_expiring_add running more fits)

theorem toNat_sum {counts : List HalfWord} (fits : (counts.map BitVec.toNat).sum < 2 ^ 32) :
    counts.sum.toNat = (counts.map BitVec.toNat).sum := by
  induction counts with
  | nil => rfl
  | cons first rest ih =>
    rw [List.map_cons, List.sum_cons] at fits
    rw [List.sum_cons, BitVec.toNat_add, ih (by omega), Nat.mod_eq_of_lt fits, List.map_cons,
      List.sum_cons]

theorem foldl_ticked {counts : List HalfWord} (fits : (counts.map BitVec.toNat).sum < 2 ^ 32) :
    counts.foldl ticked processor = processor.ticked counts.sum := by
  induction counts generalizing processor with
  | nil => exact processor.ticked_zero.symm
  | cons first rest ih =>
    rw [List.map_cons, List.sum_cons] at fits
    have later : (rest.map BitVec.toNat).sum < 2 ^ 32 := by omega
    rw [List.foldl_cons, ih _ later, ticked_ticked _ (by rwa [toNat_sum later]), List.sum_cons]

/-- What the passing of time leaves of a processor. The system timer has counted down, and so has the
process timer in job mode. The condition of a timer is raised if this took it to zero or past it, and
with it the action that it calls for. Nothing else has changed. -/
structure TimePasses (before : Processor) (elapsed : HalfWord) (after : Processor) : Prop where
  systemTimer : after.systemTimer = before.systemTimer - elapsed
  processTimer : after.processTimer =
    if before.monitorMode then before.processTimer else before.processTimer - elapsed
  monitorConditions : after.monitorConditions = before.monitorConditions |||
    if elapsed ≠ 0 ∧ before.systemTimer.toNat ≤ elapsed.toNat
    then ordinalBit MonitorCondition.systemIntervalTimer.ordinal else 0
  userConditions : after.userConditions = before.userConditions |||
    if elapsed ≠ 0 ∧ before.monitorMode = false ∧ before.processTimer.toNat ≤ elapsed.toNat
    then ordinalBit UserCondition.processIntervalTimer.ordinal else 0
  pending : after.pending = max
    (max before.pending
      (if elapsed ≠ 0 ∧ before.systemTimer.toNat ≤ elapsed.toNat
        then before.actionOf (.monitor .systemIntervalTimer) else .proceed))
    (if elapsed ≠ 0 ∧ before.monitorMode = false ∧ before.processTimer.toNat ≤ elapsed.toNat
      then before.actionOf (.user .processIntervalTimer) else .proceed)
  others : ∃ systemTimer processTimer monitorConditions userConditions pending,
    after = { before with
      systemTimer, processTimer, monitorConditions, userConditions, pending }

theorem foldl_raise_ite (expires : Prop) [Decidable expires] (condition : Condition) :
    (if expires then [condition] else []).foldl raise processor =
      { processor with
        monitorConditions := processor.monitorConditions |||
          if expires ∧ condition.isMonitor = true then condition.bit else 0
        userConditions := processor.userConditions |||
          if expires ∧ condition.isMonitor = false then condition.bit else 0
        pending := max processor.pending
          (if expires then processor.actionOf condition else .proceed) } := by
  by_cases raised : expires
  · cases condition with
    | monitor condition =>
      simp only [raised, Condition.isMonitor, Bool.true_eq_false, and_false, and_true, if_true,
        if_false, BitVec.ofNat_eq_ofNat, BitVec.or_zero]
      rfl
    | user condition =>
      simp only [raised, Condition.isMonitor, Bool.false_eq_true, and_false, and_true, if_true,
        if_false, BitVec.ofNat_eq_ofNat, BitVec.or_zero]
      rfl
  · simp only [raised, false_and, if_false, BitVec.ofNat_eq_ofNat, BitVec.or_zero,
      Action.max_proceed]
    rfl

theorem timePasses_ticked (elapsed : HalfWord) :
    processor.TimePasses elapsed (processor.ticked elapsed) := by
  have expires (timer : HalfWord) :
      (countDown timer elapsed).2 = true ↔ timer.toNat ≤ elapsed.toNat := by
    rw [countDown_eq, decide_eq_true_iff]
  rw [ticked, expiring, List.foldl_append, foldl_raise_ite, foldl_raise_ite]
  simp only [expires, Condition.isMonitor, Bool.true_eq_false, Bool.false_eq_true, and_false,
    and_true, if_false, BitVec.ofNat_eq_ofNat, BitVec.or_zero]
  exact ⟨rfl, rfl, rfl, rfl, rfl, _, _, _, _, _, rfl⟩

end Processor

/-! ## Processors and machines -/

namespace Routine

theorem raise_if_reports (expired : Bool) (condition : Condition) (before : Processor) :
    ((if expired then raise condition else pure () : Routine Unit).run before).Reports
      ((), (if expired then [condition] else []).foldl Processor.raise before) := by
  cases expired with
  | false => exact .done _
  | true => exact .notify _ (.done _)

theorem tick_reports_ticked (elapsed : HalfWord) (before : Processor) :
    ((tick elapsed).run before).Reports ((), before.ticked elapsed) := by
  by_cases stands : elapsed = 0
  · rw [stands, Processor.ticked_zero]
    exact .done _
  unfold tick
  rw [if_neg stands, StateT.run_bind, StateT.run_get, pure_bind]
  extract_lets rest
  -- The process timer counts down when the system timer has done so.
  have finished (between : Processor) : ((rest ()).run between).Reports ((),
      (if elapsed ≠ 0 ∧ between.monitorMode = false ∧
          (countDown between.processTimer elapsed).2 then [.user .processIntervalTimer]
        else []).foldl Processor.raise
        { between with processTimer :=
            if between.monitorMode then between.processTimer
            else between.processTimer - elapsed }) := by
    unfold rest
    rw [StateT.run_bind, StateT.run_get, pure_bind]
    dsimp only
    by_cases monitor : between.monitorMode = true
    · have frozen : ¬ (elapsed ≠ 0 ∧ between.monitorMode = false ∧
          (countDown between.processTimer elapsed).2 = true) := by simp [monitor]
      rw [if_neg (by simp [monitor]), if_neg frozen, if_pos monitor]
      exact .done _
    · have job : between.monitorMode = false := by simpa using monitor
      rw [if_pos (by simp [job])]
      simp only [job, stands, ne_eq, not_false_eq_true, true_and]
      exact raise_if_reports _ _ _
  rw [Processor.ticked, Processor.expiring, List.foldl_append]
  rcases counted : countDown before.systemTimer elapsed with ⟨systemTimer, systemExpired⟩
  obtain rfl : before.systemTimer - elapsed = systemTimer := congrArg Prod.fst counted
  dsimp only
  rw [StateT.run_bind, StateT.run_modify, pure_bind]
  dsimp only
  cases systemExpired with
  | false =>
    have runs : ¬ (elapsed ≠ 0 ∧ false = true) := fun expires => Bool.false_ne_true expires.2
    rw [if_neg runs]
    exact finished _
  | true =>
    have expires : elapsed ≠ 0 ∧ true = true := ⟨stands, rfl⟩
    rw [if_pos expires]
    exact .notify _ (finished _)

end Routine

namespace Machine

theorem runIfPresent_reports {routine : Routine Unit} {change : Processor → Processor}
    (reports : ∀ processor, (routine.run processor).Reports ((), change processor))
    (machine : Machine) (number : Nat) :
    ∃ journal, machine.runIfPresent number routine = { machine with
      processors := machine.processors.modify number change, journal } := by
  unfold runIfPresent
  rcases found : machine.processors[number]? with _ | sender
  · rw [run_missing found, List.modify_eq_self (List.getElem?_eq_none_iff.mp found)]
    exact ⟨_, rfl⟩
  · obtain ⟨journal, runs⟩ := run_reports reports found
    rw [runs]
    exact ⟨journal, rfl⟩

theorem getElem?_foldl_modify {α : Type} (items : List α) (change : α → α) (count index : Nat) :
    ((List.range count).foldl (fun items number => items.modify number change) items)[index]? =
      items[index]?.map fun item => if index < count then change item else item := by
  induction count with
  | zero => simp
  | succ count ih =>
    rw [List.range_succ, List.foldl_append, List.foldl_cons, List.foldl_nil, List.getElem?_modify,
      ih, Option.map_eq_map, Option.map_map]
    congr 1
    funext item
    dsimp only [Function.comp_apply]
    rcases Nat.lt_trichotomy index count with earlier | same | later
    · rw [if_neg (Nat.ne_of_gt earlier), if_pos earlier, if_pos (Nat.lt_succ_of_lt earlier)]
    · subst same
      rw [if_pos rfl, if_neg (Nat.lt_irrefl _), if_pos (Nat.lt_succ_self _)]
    · rw [if_neg (Nat.ne_of_lt later), if_neg (Nat.not_lt_of_gt later), if_neg (by omega)]

theorem tick_eq (machine : Machine) (elapsed : HalfWord) :
    ∃ journal, machine.tick elapsed = { machine with
      processors := machine.processors.map (·.ticked elapsed), journal } := by
  -- The induction is on the processors that are still to be told of the time, since a report of
  -- one goes to the journal before the next is told.
  have each (numbers : List Nat) (machine : Machine) : ∃ journal,
      numbers.foldl (fun ticking number => ticking.runIfPresent number (Routine.tick elapsed))
          machine = { machine with
        processors := numbers.foldl
          (fun processors number => processors.modify number (·.ticked elapsed)) machine.processors
        journal } := by
    induction numbers generalizing machine with
    | nil => exact ⟨_, rfl⟩
    | cons number rest ih =>
      obtain ⟨_, first⟩ :=
        runIfPresent_reports (Routine.tick_reports_ticked elapsed) machine number
      rw [List.foldl_cons, first]
      exact ih _
  obtain ⟨journal, ticks⟩ := each (List.range machine.processors.length) machine
  refine ⟨journal, ticks.trans ?_⟩
  congr 1
  apply List.ext_getElem?
  intro index
  rw [getElem?_foldl_modify, List.getElem?_map]
  rcases found : machine.processors[index]? with _ | processor
  · rfl
  · obtain ⟨inside, -⟩ := List.getElem?_eq_some_iff.mp found
    simp [inside]

theorem foldl_tick_eq (machine : Machine) (counts : List HalfWord) :
    ∃ journal, counts.foldl tick machine = { machine with
      processors := machine.processors.map (counts.foldl Processor.ticked ·), journal } := by
  induction counts generalizing machine with
  | nil => exact ⟨machine.journal, by simp⟩
  | cons first rest ih =>
    obtain ⟨_, once⟩ := machine.tick_eq first
    obtain ⟨journal, others⟩ := ih (machine.tick first)
    refine ⟨journal, others.trans ?_⟩
    rw [once]
    simp

/-- Time that passes in several ticks leaves the machine as it would be after one. Each processor
shows how much time has passed. -/
theorem ticks_additive (machine : Machine) (counts : List HalfWord)
    (fits : (counts.map BitVec.toNat).sum < 2 ^ 32) :
    ∃ total : HalfWord, total.toNat = (counts.map BitVec.toNat).sum ∧
      (∃ journal, counts.foldl tick machine = { machine.tick total with journal }) ∧
      List.Forall₂ (Processor.TimePasses · total) machine.processors
        (counts.foldl tick machine).processors := by
  obtain ⟨journal, ticks⟩ := machine.foldl_tick_eq counts
  obtain ⟨_, once⟩ := machine.tick_eq counts.sum
  have same : machine.processors.map (counts.foldl Processor.ticked ·) =
      machine.processors.map (·.ticked counts.sum) :=
    List.map_congr_left fun processor _ => processor.foldl_ticked fits
  refine ⟨counts.sum, Processor.toNat_sum fits, ⟨journal, by rw [ticks, once, same]⟩, ?_⟩
  rw [ticks, same, List.forall₂_map_right_iff]
  exact List.forall₂_same.mpr fun processor _ => processor.timePasses_ticked _

def timedPair : Machine :=
  { interruptedPair with
    processors := [
      { interruptingMonitor with systemTimer := 5, processTimer := 3 },
      { Routine.smallJob with number := 1, systemTimer := 9, processTimer := 6 }] }

/-- The system timer of the monitor wraps round on the way. The process timer of the job comes
to zero. -/
theorem timedPair_ticks :
    let counts : List HalfWord := [4, 0, 2]
    (counts.map BitVec.toNat).sum < 2 ^ 32 ∧
      (∃ total : HalfWord, total.toNat = 6 ∧
        List.Forall₂ (Processor.TimePasses · total) timedPair.processors
          (counts.foldl tick timedPair).processors) ∧
      (counts.foldl tick timedPair).processors.map (fun processor =>
          (processor.systemTimer, processor.processTimer, processor.monitorConditions,
            processor.userConditions)) =
        [(0xFFFFFFFF, 3, 0x0010, 0), (3, 0, 0, 0x1000)] := by
  intro counts
  have fits : (counts.map BitVec.toNat).sum < 2 ^ 32 := by decide
  obtain ⟨total, exactly, -, passes⟩ := timedPair.ticks_additive counts fits
  exact ⟨fits, ⟨total, exactly, passes⟩, by decide +kernel⟩

end Machine

end Mainframe
