import Mainframe.Proofs.Exchanges
import Mainframe.Proofs.NativeSteps
import Mainframe.Proofs.Traps

/-! What a step does besides native instructions. A trap, the pending action as a whole and a turn of
the legacy engine have few ways to end; what every step is to preserve is shown of each of these, and
no proof has to look into traps, exchanges or engines again. -/

set_option autoImplicit false

namespace Mainframe

variable {μ : Type} [Bus μ]

namespace Processor

/-- The pending action has been taken up and is about to be dealt with. -/
def attending (processor : Processor) : Processor :=
  { processor with freeRunning := processor.freeRunning + 1, pending := .proceed }

@[simp]
theorem candidate_attending (processor : Processor) (memory : μ) :
    processor.attending.candidate memory = processor.candidate memory := rfl

omit [Bus μ] in
@[simp]
theorem package_attending (processor : Processor) :
    processor.attending.package = processor.package := rfl

end Processor

namespace Routine

/-! ## Traps -/

inductive TrapEnds (interrupted after : Processor) : Prop where
  | failed (condition : Condition) (left : Processor) (error : condition.IsError)
      (alike : interrupted.withoutTraps.Resembles left)
      (recorded : after = (left.raise condition).raise (.monitor .trapException))
  | entered (entry : EntryPoint) (top : VirtualAddress)
      (handed : after = (interrupted.withoutTraps.handling entry top).delivered
        interrupted.deliverableMonitor interrupted.deliverableUser)

theorem enterTrap_ends (interrupted : Processor) (memory : μ) :
    TrapEnds interrupted ((enterTrap.run interrupted).perform memory).1.2 := by
  rw [perform_enterTrap]
  have conduct : (Execution.enterHandler interrupted.deliverableMonitor
      interrupted.deliverableUser).Orderly interrupted.withoutTraps memory _ :=
    Execution.enterHandler_orderly _ _
  rcases ending : (Execution.enterHandler interrupted.deliverableMonitor
    interrupted.deliverableUser).ending interrupted.withoutTraps memory with
    ⟨⟨condition | handler, left⟩, kept⟩
  · obtain ⟨error, alike⟩ := conduct.failed ending
    exact .failed condition left error alike rfl
  · obtain ⟨entry, top, between, -, -, -, rfl⟩ := conduct.completed ending
    exact .entered entry top rfl

/-! ## Pending actions -/

theorem resolved_eq (before : Processor) (memory : μ) :
    resolved before memory =
      match before.pending with
      | .proceed | .stack => (before.attending, memory)
      | .trap =>
        let ended := (enterTrap.run before.attending).perform memory
        (ended.1.2, ended.2)
      | .exchange =>
        let ended := (exchange.run before.attending).perform memory
        (ended.1.2, ended.2)
      | .halt => ({ before.attending with stopped := true }, memory) := by
  unfold resolved resolvePending Processor.attending
  rw [StateT.run_bind, StateT.run_get, pure_bind]
  dsimp only
  rw [StateT.run_bind, StateT.run_set, pure_bind]
  cases before.pending with
  | proceed | stack | halt => rfl
  | trap | exchange => dsimp only

/-- How dealing with the pending action ends. The package of an exchange is found and checked as it
was before anything was stored. -/
inductive ResolutionEnds (before : Processor) (memory : μ) (ready : Processor) : Prop where
  | idle (calm : ¬ before.pending.Interrupts) (same : ready = before.attending)
  | trapped (pending : before.pending = .trap) (ends : TrapEnds before.attending ready)
  | refused (error : PackageError) (pending : before.pending = .exchange)
      (invalid : (before.candidate memory).validate before.exchangeSource (!before.monitorMode) =
        .error error)
      (same : ready = before.attending.refused)
  | exchanged (pending : before.pending = .exchange)
      (valid : (before.candidate memory).validate before.exchangeSource (!before.monitorMode) =
        .ok ())
      (same : ready = (before.attending.exchanged memory).rescanned)
  | halted (pending : before.pending = .halt)
      (same : ready = { before.attending with stopped := true })

theorem resolved_ends (before : Processor) (memory : μ) :
    ResolutionEnds before memory (resolved before memory).1 := by
  rw [resolved_eq]
  cases pending : before.pending with
  | proceed | stack => exact .idle (by rw [pending]; decide) rfl
  | trap => exact .trapped pending (enterTrap_ends _ _)
  | exchange =>
    have source : before.attending.exchangeSource = before.exchangeSource := rfl
    have mode : before.attending.monitorMode = before.monitorMode := rfl
    dsimp only
    rw [perform_exchange, Processor.candidate_attending, source, mode]
    rcases found : (before.candidate memory).validate before.exchangeSource
      (!before.monitorMode) with error | _
    · exact .refused error pending found rfl
    · exact .exchanged pending found rfl
  | halt => exact .halted pending rfl

/-! ## Turns of the legacy engine -/

/-- How a turn of the legacy engine ends, if there is an engine. It moves within the segment and
leaves other registers for its next turn; then it counts as an instruction, calls the monitor, or
stops the processor. -/
inductive LegacyStepEnds (before after : Processor) : Prop where
  | absent (none : before.engine = none) (same : after = before)
  | turned (engine : LegacyEngine) (left : LegacyRegisters) (retired : Word)
      (counted : Processor)
      (same : counted = { before with
        p := before.p.withByteNumber left.byteNumber
        instructionSet := .legacy left
        engine := some engine
        retired })
      (signals : after = counted ∨ after = counted.raise (.monitor .systemCall) ∨
        after = counted.escalate .halt)

theorem stepLegacy_ends (before : Processor) (registers : LegacyRegisters) (memory : μ) :
    LegacyStepEnds before (((stepLegacy registers).run before).perform memory).1.2 := by
  unfold stepLegacy
  rw [StateT.run_bind, StateT.run_get, pure_bind]
  dsimp only
  rcases found : before.engine with _ | engine
  · exact .absent found rfl
  dsimp only
  rw [perform_liftM, StateT.run_bind, StateT.run_modify, pure_bind]
  rcases (engine.turn engine.memo registers).perform memory with ⟨⟨exit, left, memo⟩, kept⟩
  cases exit with
  | proceed => exact .turned { engine with memo } left _ _ rfl (.inl rfl)
  | exchangeJump => exact .turned { engine with memo } left _ _ rfl (.inr (.inl rfl))
  | halt => exact .turned { engine with memo } left _ _ rfl (.inr (.inr rfl))

end Routine

end Mainframe
