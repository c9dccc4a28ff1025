import Mainframe.Memory.Cyclic
import Mainframe.Memory.Real
import Mainframe.Proofs.PreciseFaults

/-! The bus behind a processor does not show. Memories that answer every request alike give the
same runs, so central memory with wrapping addresses may be exchanged for a plain array of its
words, which has no way of its own to change a word. -/

set_option autoImplicit false

namespace Mainframe

variable {μ ν α : Type} [Bus μ] [Bus ν]

/-- Memories in the relation answer a request alike, and the relation holds again afterwards. -/
structure RespondsAlike (related : μ → ν → Prop) : Prop where
  readWord {left : μ} {right : ν} (matched : related left right) (address : Address) :
    Bus.readWord left address = Bus.readWord right address
  writeWord {left : μ} {right : ν} (matched : related left right) (address : Address)
    (word : Word) : related (Bus.writeWord left address word) (Bus.writeWord right address word)
  modifyWord {left : μ} {right : ν} (matched : related left right) (address : Address)
    (change : Word → Word) :
    (Bus.modifyWord left address change).1 = (Bus.modifyWord right address change).1 ∧
      related (Bus.modifyWord left address change).2 (Bus.modifyWord right address change).2

namespace RespondsAlike

variable {related : μ → ν → Prop} {left : μ} {right : ν}

theorem of_lawful [LawfulBus μ] [LawfulBus ν]
    (reads : ∀ {left right}, related left right → ∀ address,
      Bus.readWord left address = Bus.readWord right address)
    (writes : ∀ {left right}, related left right → ∀ address word,
      related (Bus.writeWord left address word) (Bus.writeWord right address word)) :
    RespondsAlike related where
  readWord := reads
  writeWord := writes
  modifyWord matched address change := by
    rw [LawfulBus.modifyWord_eq, LawfulBus.modifyWord_eq, reads matched address]
    exact ⟨rfl, writes matched address _⟩

theorem perform (alike : RespondsAlike related) (matched : related left right)
    (activity : Activity α) :
    (activity.perform left).1 = (activity.perform right).1 ∧
      related (activity.perform left).2 (activity.perform right).2 := by
  induction activity generalizing left right with
  | done result => exact ⟨rfl, matched⟩
  | read address next ih =>
    unfold Activity.perform
    rw [alike.readWord matched address]
    exact ih _ matched
  | write address word next ih => exact ih (alike.writeWord matched address word)
  | modify address change next ih =>
    -- The old word selects the continuation, so it has to be the same on both sides.
    obtain ⟨old, changed⟩ := alike.modifyWord matched address change
    unfold Activity.perform
    dsimp only
    rw [old]
    exact ih _ changed
  | notify notice next ih => exact ih matched

end RespondsAlike

/-! ## Runs of steps -/

def Processor.runSteps : Nat → Processor → μ → List StepExit × Processor × μ
  | 0, processor, memory => ([], processor, memory)
  | count + 1, processor, memory =>
    let ((exit, stepped), left) := (Routine.step.run processor).perform memory
    let (exits, last, after) := runSteps count stepped left
    (exit :: exits, last, after)

theorem RespondsAlike.runSteps {related : μ → ν → Prop} (alike : RespondsAlike related)
    {left : μ} {right : ν} (matched : related left right) (count : Nat) (processor : Processor) :
    (processor.runSteps count left).1 = (processor.runSteps count right).1 ∧
      (processor.runSteps count left).2.1 = (processor.runSteps count right).2.1 ∧
      related (processor.runSteps count left).2.2 (processor.runSteps count right).2.2 := by
  induction count generalizing processor left right with
  | zero => exact ⟨rfl, rfl, matched⟩
  | succ count ih =>
    have taken := alike.perform matched (Routine.step.run processor)
    unfold Processor.runSteps
    revert taken
    rcases (Routine.step.run processor).perform left with ⟨⟨exit, stepped⟩, leftAfter⟩
    rcases (Routine.step.run processor).perform right with ⟨ended, rightAfter⟩
    rintro ⟨⟨⟩, matchedAfter⟩
    obtain ⟨exits, last, after⟩ := ih matchedAfter stepped
    exact ⟨congrArg (exit :: ·) exits, last, after⟩

/-! ## Central memory as an array of its words -/

/-- Central memory wraps addresses, and the words within its size are those of the array. -/
structure SameWords (real : RealMemory) (cyclic : CyclicMemory) : Prop where
  present : 0 < real.sizeWords
  wraps : real.wraps = true
  size : cyclic.sizeWords = real.sizeWords
  words : ∀ index < real.sizeWords, real.store.get index = cyclic.store.get index

namespace SameWords

variable {real : RealMemory} {cyclic : CyclicMemory}

theorem slot_eq (same : SameWords real cyclic) (address : Address) :
    real.slot address = some (cyclic.slot address) := by
  unfold RealMemory.slot CyclicMemory.slot
  rw [same.wraps, same.size]
  split
  · next within => rw [Nat.mod_eq_of_lt within]
  · rfl

theorem slot_lt (same : SameWords real cyclic) (address : Address) :
    cyclic.slot address < real.sizeWords := by
  unfold CyclicMemory.slot
  rw [same.size]
  exact Nat.mod_lt _ same.present

theorem readWord (same : SameWords real cyclic) (address : Address) :
    Bus.readWord real address = Bus.readWord cyclic address := by
  change real.load address = cyclic.store.get (cyclic.slot address)
  unfold RealMemory.load
  rw [same.slot_eq address]
  exact same.words _ (same.slot_lt address)

theorem writeWord (same : SameWords real cyclic) (address : Address) (word : Word) :
    SameWords (Bus.writeWord real address word) (Bus.writeWord cyclic address word) := by
  change SameWords (real.save address word) _
  unfold RealMemory.save
  rw [same.slot_eq address]
  refine ⟨same.present, same.wraps, same.size, fun index within => ?_⟩
  change (real.store.set _ word).get index = (cyclic.store.set _ word).get index
  rw [WordStore.get_set, WordStore.get_set, same.words index within]

theorem respondsAlike : RespondsAlike SameWords := .of_lawful readWord writeWord

end SameWords

/-- Any number of steps has the same exits and leaves the same processor and the same words on
central memory with wrapping addresses as on a plain array of its words. -/
theorem runSteps_bus_independent {real : RealMemory} {cyclic : CyclicMemory}
    (same : SameWords real cyclic) (count : Nat) (processor : Processor) :
    (processor.runSteps count real).1 = (processor.runSteps count cyclic).1 ∧
      (processor.runSteps count real).2.1 = (processor.runSteps count cyclic).2.1 ∧
      SameWords (processor.runSteps count real).2.2 (processor.runSteps count cyclic).2.2 :=
  SameWords.respondsAlike.runSteps same count processor

/-- The words of the small memory, with one more beyond the size that no address selects. -/
def wrappingMemory : RealMemory := ⟨4096, true, Routine.smallMemory.store.set 4096 1⟩

theorem runSteps_smallJob_bus_independent :
    SameWords wrappingMemory Routine.smallMemory ∧
      (Routine.smallJob.runSteps 3 Routine.smallMemory).1 = [.executed, .resolved, .resolved] ∧
      (Routine.smallJob.runSteps 3 wrappingMemory).1 =
        (Routine.smallJob.runSteps 3 Routine.smallMemory).1 ∧
      (Routine.smallJob.runSteps 3 wrappingMemory).2.1 =
        (Routine.smallJob.runSteps 3 Routine.smallMemory).2.1 ∧
      SameWords (Routine.smallJob.runSteps 3 wrappingMemory).2.2
        (Routine.smallJob.runSteps 3 Routine.smallMemory).2.2 := by
  have same : SameWords wrappingMemory Routine.smallMemory := by
    refine ⟨by decide, rfl, rfl, fun index within => ?_⟩
    exact (WordStore.get_set _ _ _ _).trans (if_neg (Nat.ne_of_gt within))
  exact ⟨same, by decide +kernel, runSteps_bus_independent same 3 Routine.smallJob⟩

end Mainframe
