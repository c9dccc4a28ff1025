import Mathlib
import Mainframe.Memory.Bytes

/-! The history of an activity on a memory: its requests in order, each with the memory that it
met. Activities that only read, that write within bounds, and that do nothing but give notices
are told apart by their shape, so what is said of them holds on every memory. -/

set_option autoImplicit false

namespace Mainframe

inductive Request where
  | read (address : Address)
  | write (address : Address) (word : Word)
  | modify (address : Address) (change : Word → Word)
  | notify (notice : Notice)

/-- A request and the memory just before it. -/
structure Moment (μ : Type) where
  memory : μ
  request : Request

variable {α β μ : Type}

def Moment.Writes [Bus μ] (moment : Moment μ) (address : Address) (word : Word) : Prop :=
  moment.request = .write address word ∨
    ∃ change, moment.request = .modify address change ∧
      word = change (Bus.readWord moment.memory address)

namespace Moment

variable [Bus μ] (memory : μ) {address : Address} {word : Word}

theorem not_writes_read (place : Address) :
    ¬ (Moment.mk memory (.read place)).Writes address word := by simp [Writes]

theorem not_writes_notify (notice : Notice) :
    ¬ (Moment.mk memory (.notify notice)).Writes address word := by simp [Writes]

end Moment

namespace Activity

def history [Bus μ] : Activity α → μ → List (Moment μ)
  | .done _, _ => []
  | .read address next, memory =>
    ⟨memory, .read address⟩ :: (next (Bus.readWord memory address)).history memory
  | .write address word next, memory =>
    ⟨memory, .write address word⟩ :: next.history (Bus.writeWord memory address word)
  | .modify address change next, memory =>
    let (old, changed) := Bus.modifyWord memory address change
    ⟨memory, .modify address change⟩ :: (next old).history changed
  | .notify notice next, memory => ⟨memory, .notify notice⟩ :: next.history memory

@[simp] theorem history_pure [Bus μ] (result : α) (memory : μ) :
    (pure result : Activity α).history memory = [] := rfl

theorem history_bind [Bus μ] (activity : Activity α) (continuation : α → Activity β) (memory : μ) :
    (activity >>= continuation).history memory =
      activity.history memory ++
        (continuation (activity.perform memory).1).history (activity.perform memory).2 := by
  change (activity.bind continuation).history memory = _
  induction activity generalizing memory with
  | done => rfl
  | read address next ih => exact congrArg (_ :: ·) (ih _ memory)
  | write address word next ih => exact congrArg (_ :: ·) (ih _)
  | modify address change next ih => exact congrArg (_ :: ·) (ih _ _)
  | notify notice next ih => exact congrArg (_ :: ·) (ih memory)

@[simp] theorem history_map [Bus μ] (change : α → β) (activity : Activity α) (memory : μ) :
    (change <$> activity).history memory = activity.history memory := by
  rw [map_eq_pure_bind, history_bind, history_pure, List.append_nil]

/-! ## Activities that write only at some addresses -/

/-- No notice is given, and no word is written but at the allowed addresses. -/
inductive WritesOnly (allowed : Address → Prop) : Activity α → Prop where
  | done (result : α) : WritesOnly allowed (.done result)
  | read (address : Address) {next : Word → Activity α} :
      (∀ word, WritesOnly allowed (next word)) → WritesOnly allowed (.read address next)
  | write {address : Address} (word : Word) {next : Activity α} :
      allowed address → WritesOnly allowed next → WritesOnly allowed (.write address word next)
  | modify {address : Address} (change : Word → Word) {next : Word → Activity α} :
      allowed address → (∀ word, WritesOnly allowed (next word)) →
      WritesOnly allowed (.modify address change next)

def OnlyReads (activity : Activity α) : Prop := WritesOnly (fun _ => False) activity

namespace WritesOnly

variable {allowed : Address → Prop}

theorem pure (result : α) : WritesOnly allowed (Pure.pure result : Activity α) := .done result

theorem bind {activity : Activity α} {continuation : α → Activity β}
    (first : WritesOnly allowed activity) (rest : ∀ result, WritesOnly allowed (continuation result)) :
    WritesOnly allowed (activity >>= continuation) := by
  change WritesOnly allowed (activity.bind continuation)
  induction first with
  | done result => exact rest result
  | read address _ ih => exact .read address ih
  | write word permitted _ ih => exact .write word permitted ih
  | modify change permitted _ ih => exact .modify change permitted ih

theorem mono {wider : Address → Prop} {activity : Activity α}
    (widens : ∀ address, allowed address → wider address) (narrow : WritesOnly allowed activity) :
    WritesOnly wider activity := by
  induction narrow with
  | done result => exact .done result
  | read address _ ih => exact .read address ih
  | write word permitted _ ih => exact .write word (widens _ permitted) ih
  | modify change permitted _ ih => exact .modify change (widens _ permitted) ih

theorem readWord (address : Address) : WritesOnly allowed (Activity.readWord address) :=
  .read address fun word => .done word

theorem writeWord {address : Address} (permitted : allowed address) (word : Word) :
    WritesOnly allowed (Activity.writeWord address word) :=
  .write word permitted (.done ())

theorem modifyWord {address : Address} (permitted : allowed address) (change : Word → Word) :
    WritesOnly allowed (Activity.modifyWord address change) :=
  .modify change permitted fun word => .done word

theorem allowed_of_writes [Bus μ] {activity : Activity α} (bounded : WritesOnly allowed activity)
    {memory : μ} {moment : Moment μ} (member : moment ∈ activity.history memory)
    {address : Address} {word : Word} (writes : moment.Writes address word) : allowed address := by
  -- The history has the shape of the activity, on whatever memory it starts.
  induction bounded generalizing memory with
  | done result => cases member
  | read place _ ih =>
    rcases List.mem_cons.mp member with rfl | later
    · exact (Moment.not_writes_read _ _ writes).elim
    · exact ih _ later
  | write content permitted _ ih =>
    rcases List.mem_cons.mp member with rfl | later
    · rcases writes with same | ⟨_, same, _⟩ <;> cases same
      exact permitted
    · exact ih later
  | modify change permitted _ ih =>
    rcases List.mem_cons.mp member with rfl | later
    · rcases writes with same | ⟨_, same, _⟩ <;> cases same
      exact permitted
    · exact ih _ later

end WritesOnly

namespace OnlyReads

theorem perform_memory [Bus μ] {activity : Activity α} (reading : OnlyReads activity)
    (memory : μ) : (activity.perform memory).2 = memory := by
  unfold OnlyReads at reading
  induction reading with
  | done => rfl
  | read _ _ ih => exact ih _
  | write _ permitted => exact permitted.elim
  | modify _ permitted => exact permitted.elim

theorem perform_eq [Bus μ] {activity : Activity α} (reading : OnlyReads activity) (memory : μ) :
    activity.perform memory = ((activity.perform memory).1, memory) :=
  Prod.ext rfl (reading.perform_memory memory)

theorem moment_eq [Bus μ] {activity : Activity α} (reading : OnlyReads activity) {memory : μ}
    {moment : Moment μ} (member : moment ∈ activity.history memory) :
    ∃ address, moment = ⟨memory, .read address⟩ := by
  unfold OnlyReads at reading
  induction reading with
  | done => cases member
  | read address _ ih =>
    rcases List.mem_cons.mp member with rfl | later
    · exact ⟨address, rfl⟩
    · exact ih _ later
  | write _ permitted => exact permitted.elim
  | modify _ permitted => exact permitted.elim

end OnlyReads

/-! ## Activities that only give notices -/

/-- The activity ends with a result after giving some notices, whatever the memory. -/
inductive Reports : Activity α → α → Prop where
  | done (result : α) : Reports (.done result) result
  | notify (notice : Notice) {next : Activity α} {result : α} :
      Reports next result → Reports (.notify notice next) result

namespace Reports

theorem bind {activity : Activity α} {result : α} {continuation : α → Activity β} {final : β}
    (first : Reports activity result) (rest : Reports (continuation result) final) :
    Reports (activity >>= continuation) final := by
  change Reports (activity.bind continuation) final
  induction first with
  | done => exact rest
  | notify notice _ ih => exact .notify notice (ih rest)

theorem perform_eq [Bus μ] {activity : Activity α} {result : α} (reporting : Reports activity result)
    (memory : μ) : activity.perform memory = (result, memory) := by
  induction reporting with
  | done => rfl
  | notify _ _ ih => exact ih

theorem not_writes [Bus μ] {activity : Activity α} {result : α} (reporting : Reports activity result)
    {memory : μ} {moment : Moment μ} (member : moment ∈ activity.history memory)
    {address : Address} {word : Word} : ¬ moment.Writes address word := by
  induction reporting with
  | done => cases member
  | notify notice _ ih =>
    rcases List.mem_cons.mp member with rfl | later
    · exact Moment.not_writes_notify _ _
    · exact ih later

end Reports

end Activity

end Mainframe
