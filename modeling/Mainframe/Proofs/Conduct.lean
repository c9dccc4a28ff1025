import Mainframe.Proofs.Confinement

/-! The conduct of executions. Up to the point where it can no longer fail, an orderly execution
changes nothing in the processor but what translations leave behind, and every write is confined
to pages that it may write. What a completed execution leaves is said by a postcondition. -/

set_option autoImplicit false

namespace Mainframe

variable {α β μ : Type}

/-- Conditions with which instructions end: no mask and no mode lets the program go on. -/
def Condition.IsError (condition : Condition) : Prop :=
  condition.policy = .monitorError ∨ condition.policy = .userFault

namespace Execution

variable (execution : Execution α) (processor : Processor)

def course : Activity (Except Condition α × Processor) := execution.run.run processor

def ending [Bus μ] (memory : μ) : (Except Condition α × Processor) × μ :=
  (execution.course processor).perform memory

def history [Bus μ] (memory : μ) : List (Moment μ) := (execution.course processor).history memory

theorem course_bind (continuation : α → Execution β) :
    (execution >>= continuation).course processor =
      execution.course processor >>= fun ended =>
        match ended with
        | (.ok result, left) => (continuation result).course left
        | (.error condition, left) => pure (.error condition, left) := by
  unfold course
  rw [ExceptT.run_bind, StateT.run_bind]
  congr
  funext ended
  rcases ended with ⟨_ | _, left⟩ <;> rfl

theorem course_get (continuation : Processor → Execution β) :
    (MonadState.get >>= continuation : Execution β).course processor =
      (continuation processor).course processor := rfl

theorem course_liftM (activity : Activity α) :
    (liftM activity : Execution α).course processor =
      activity >>= fun result => pure (.ok result, processor) := by
  have lifted : (liftM activity : Execution α).course processor =
      (activity >>= fun result => pure (result, processor)) >>= fun ended =>
        pure (Except.ok ended.1, ended.2) := rfl
  rw [lifted, bind_assoc]
  rfl

theorem ending_bind [Bus μ] (continuation : α → Execution β) (memory : μ) :
    (execution >>= continuation).ending processor memory =
      match execution.ending processor memory with
      | ((.ok result, left), kept) => (continuation result).ending left kept
      | ((.error condition, left), kept) => ((.error condition, left), kept) := by
  unfold ending
  rw [course_bind, Activity.perform_bind]
  rcases (execution.course processor).perform memory with ⟨⟨_ | _, _⟩, _⟩ <;> rfl

theorem history_bind [Bus μ] (continuation : α → Execution β) (memory : μ) :
    (execution >>= continuation).history processor memory =
      execution.history processor memory ++
        match execution.ending processor memory with
        | ((.ok result, left), kept) => (continuation result).history left kept
        | ((.error _, _), _) => [] := by
  unfold history ending
  rw [course_bind, Activity.history_bind]
  rcases (execution.course processor).perform memory with ⟨⟨_ | _, _⟩, _⟩ <;> rfl

theorem ending_liftM [Bus μ] (activity : Activity α) (memory : μ) :
    (liftM activity : Execution α).ending processor memory =
      ((.ok (activity.perform memory).1, processor), (activity.perform memory).2) := by
  rw [ending, course_liftM, Activity.perform_bind]
  rfl

theorem history_liftM [Bus μ] (activity : Activity α) (memory : μ) :
    (liftM activity : Execution α).history processor memory = activity.history memory := by
  rw [history, course_liftM, Activity.history_bind]
  exact List.append_nil _

/-! ## Executions that cannot fail -/

/-- The execution completes without touching memory, whatever memory it has. -/
def Settles (result : α) (left : Processor) : Prop :=
  (execution.course processor).Reports (.ok result, left)

variable {execution processor}

namespace Settles

theorem pure (result : α) : (Pure.pure result : Execution α).Settles processor result processor :=
  .done _

theorem modified (change : Processor → Processor) :
    (modify change : Execution Unit).Settles processor () (change processor) := .done _

theorem bind {continuation : α → Execution β} {result : α} {between left : Processor} {final : β}
    (first : execution.Settles processor result between)
    (rest : (continuation result).Settles between final left) :
    (execution >>= continuation).Settles processor final left := by
  unfold Settles
  rw [course_bind]
  exact Activity.Reports.bind first rest

theorem get {continuation : Processor → Execution β} {left : Processor} {final : β}
    (rest : (continuation processor).Settles processor final left) :
    (MonadState.get >>= continuation : Execution β).Settles processor final left := rest

theorem routine {routine : Routine α} {result : α} {left : Processor}
    (reports : (routine.run processor).Reports (result, left)) :
    (liftM routine : Execution α).Settles processor result left :=
  Activity.Reports.bind reports (.done _)

theorem report (happening : Happening) :
    (liftM (Routine.report happening) : Execution Unit).Settles processor () processor :=
  routine (.notify _ (.done _))

end Settles

/-! ## Orderly executions -/

/-- Writes are confined. A fault is an error of the instruction and leaves the processor as it
was, but for what translations leave behind. A completed execution satisfies the postcondition. -/
structure Orderly [Bus μ] (execution : Execution α) (processor : Processor) (memory : μ)
    (post : α → Processor → μ → Prop) : Prop where
  confined : processor.Confines (execution.history processor memory)
  ended : match execution.ending processor memory with
    | ((.ok result, left), kept) => post result left kept
    | ((.error condition, left), _) => condition.IsError ∧ processor.Resembles left

namespace Orderly

variable [Bus μ] {memory : μ} {post : α → Processor → μ → Prop}

theorem completed {result : α} {left : Processor} {kept : μ}
    (orderly : execution.Orderly processor memory post)
    (ending : execution.ending processor memory = ((.ok result, left), kept)) :
    post result left kept := by
  have ended := orderly.ended
  rwa [ending] at ended

theorem failed {condition : Condition} {left : Processor} {kept : μ}
    (orderly : execution.Orderly processor memory post)
    (ending : execution.ending processor memory = ((.error condition, left), kept)) :
    condition.IsError ∧ processor.Resembles left := by
  have ended := orderly.ended
  rwa [ending] at ended

theorem of_settles {result : α} {left : Processor} (settles : execution.Settles processor result left)
    (holds : post result left memory) : execution.Orderly processor memory post where
  confined := .of_not_writes fun _ member _ _ => Activity.Reports.not_writes settles member
  ended := by
    have ended : execution.ending processor memory = ((.ok result, left), memory) :=
      Activity.Reports.perform_eq settles memory
    rw [ended]
    exact holds

theorem done {result : α} (holds : post result processor memory) :
    (Pure.pure result : Execution α).Orderly processor memory post :=
  .of_settles (.pure result) holds

theorem mono {wider : α → Processor → μ → Prop} (orderly : execution.Orderly processor memory post)
    (weakens : ∀ result left kept, post result left kept → wider result left kept) :
    execution.Orderly processor memory wider where
  confined := orderly.confined
  ended := by
    rcases ending : execution.ending processor memory with ⟨⟨_ | result, left⟩, kept⟩
    · exact orderly.failed ending
    · exact weakens result left kept (orderly.completed ending)

theorem with_ending (orderly : execution.Orderly processor memory post) :
    execution.Orderly processor memory fun result left kept =>
      post result left kept ∧
        execution.ending processor memory = ((.ok result, left), kept) where
  confined := orderly.confined
  ended := by
    rcases ending : execution.ending processor memory with ⟨⟨_ | result, left⟩, kept⟩
    · exact orderly.failed ending
    · exact ⟨orderly.completed ending, rfl⟩

theorem bind {continuation : α → Execution β} {final : β → Processor → μ → Prop}
    (orderly : execution.Orderly processor memory fun result left kept =>
      processor.Resembles left ∧ (continuation result).Orderly left kept final) :
    (execution >>= continuation).Orderly processor memory final := by
  have ended := orderly.ended
  constructor
  · -- The processor that goes on may write where the one before it may.
    rw [history_bind]
    refine orderly.confined.append ?_
    revert ended
    rcases execution.ending processor memory with ⟨⟨condition | result, left⟩, kept⟩
    · exact fun _ => .nil
    · exact fun ⟨alike, rest⟩ => alike.confines rest.confined
  · -- A fault of the first part ends the whole.
    rw [ending_bind]
    revert ended
    rcases execution.ending processor memory with ⟨⟨condition | result, left⟩, kept⟩
    · exact id
    · rintro ⟨alike, rest⟩
      have after := rest.ended
      dsimp only
      revert after
      rcases (continuation result).ending left kept with ⟨⟨condition | final, last⟩, _⟩
      · exact fun ⟨error, same⟩ => ⟨error, alike.trans same⟩
      · exact id

theorem andThen {continuation : α → Execution β} {final : β → Processor → μ → Prop}
    {found : α → μ → Prop}
    (orderly : execution.Orderly processor memory fun result left kept =>
      left = processor ∧ found result kept)
    (rest : ∀ result kept, found result kept →
      (continuation result).Orderly processor kept final) :
    (execution >>= continuation).Orderly processor memory final :=
  .bind (orderly.mono fun result left kept ⟨same, holds⟩ => by
    subst same
    exact ⟨.refl _, rest result kept holds⟩)

theorem of_course_eq {other : Execution α}
    (same : execution.course processor = other.course processor)
    (orderly : other.Orderly processor memory post) : execution.Orderly processor memory post := by
  have confined := orderly.confined
  have ended := orderly.ended
  unfold history at confined
  unfold ending at ended
  constructor
  · unfold history
    rwa [same]
  · unfold ending
    rwa [same]

theorem get {continuation : Processor → Execution β} {final : β → Processor → μ → Prop}
    (rest : (continuation processor).Orderly processor memory final) :
    (MonadState.get >>= continuation : Execution β).Orderly processor memory final :=
  .of_course_eq (course_get processor continuation) rest

theorem fail {condition : Condition} {left : Processor}
    (course : execution.course processor = .done (.error condition, left))
    (error : condition.IsError) (alike : processor.Resembles left) :
    execution.Orderly processor memory post where
  confined := by
    unfold history
    rw [course]
    exact .nil
  ended := by
    unfold ending
    rw [course]
    exact ⟨error, alike⟩

theorem monitorFault {condition : MonitorCondition} (error : condition.policy = .monitorError) :
    (Execution.monitorFault condition : Execution α).Orderly processor memory post :=
  .fail rfl (.inl error) (.refl _)

theorem userFault {condition : UserCondition} (error : condition.policy = .userFault) :
    (Execution.userFault condition : Execution α).Orderly processor memory post :=
  .fail rfl (.inr error) (.refl _)

theorem faultAt {condition : MonitorCondition} (address : VirtualAddress)
    (error : condition.policy = .monitorError) :
    (Execution.faultAt address condition : Execution α).Orderly processor memory post :=
  .fail rfl (.inl error) ⟨address, _, rfl⟩

theorem failThen {continuation : α → Execution β} {final : β → Processor → μ → Prop}
    (fails : execution.Orderly processor memory fun _ _ _ => False) :
    (execution >>= continuation).Orderly processor memory final :=
  .bind (fails.mono fun _ _ _ never => never.elim)

end Orderly

/-! ## Checks -/

/-- The execution fails or finds something out, and changes nothing. -/
def Checks [Bus μ] (execution : Execution α) (processor : Processor) (memory : μ)
    (found : α → Prop) : Prop :=
  execution.Orderly processor memory fun result left kept =>
    left = processor ∧ kept = memory ∧ found result

namespace Checks

variable [Bus μ] {memory : μ} {found : α → Prop}

theorem done {result : α} (holds : found result) :
    (Pure.pure result : Execution α).Checks processor memory found := Orderly.done ⟨rfl, rfl, holds⟩

theorem reading {activity : Activity α} (reads : activity.OnlyReads) :
    (liftM activity : Execution α).Checks processor memory fun result =>
      result = (activity.perform memory).1 := by
  constructor
  · rw [history_liftM]
    exact .of_reads fun moment member => reads.moment_eq member
  · rw [ending_liftM, reads.perform_memory]
    exact ⟨rfl, rfl, rfl⟩

theorem andThen {continuation : α → Execution β} {final : β → Processor → μ → Prop}
    (checks : execution.Checks processor memory found)
    (rest : ∀ result, found result →
      (continuation result).Orderly processor memory final) :
    (execution >>= continuation).Orderly processor memory final := by
  apply Orderly.bind (Orderly.mono checks _)
  intro result left kept ended
  obtain ⟨rfl, rfl, holds⟩ := ended
  exact ⟨.refl _, rest result holds⟩

end Checks

end Execution

end Mainframe
