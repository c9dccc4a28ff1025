import Mainframe.Proofs.Delivery
import Mainframe.Proofs.Rings
import Mainframe.Proofs.TrapTransparency

/-! Traps hand conditions over. Those that called for the trap leave the condition registers and
are found in the last word of the save area; none is lost, kept twice or raised anew, and the
handler runs at once, in a ring that its segment and its caller allow. -/

set_option autoImplicit false

namespace Mainframe

variable {μ : Type} [Bus μ]

/-! ## The word of the delivered conditions -/

/-- Where the word of delivered conditions has the bit of a condition: the monitor conditions are
above the user conditions. -/
def Condition.position : Condition → Nat
  | .monitor condition => 31 - condition.ordinal.val
  | .user condition => 15 - condition.ordinal.val

theorem Condition.exists_position {position : Nat} (inside : position < 32) :
    ∃ condition : Condition, condition.position = position := by
  by_cases low : position < 16
  · refine ⟨.user (.ofOrdinal ⟨15 - position, by omega⟩), ?_⟩
    rw [Condition.position, UserCondition.ordinal_ofOrdinal]
    dsimp only
    omega
  · refine ⟨.monitor (.ofOrdinal ⟨31 - position, by omega⟩), ?_⟩
    rw [Condition.position, MonitorCondition.ordinal_ofOrdinal]
    dsimp only
    omega

namespace Processor

def deliveredWord (processor : Processor) : Word :=
  SaveArea.conditionWord (processor.deliverableMonitor, processor.deliverableUser)

theorem getLsbD_deliveredWord_position (processor : Processor) (condition : Condition) :
    processor.deliveredWord.getLsbD condition.position = processor.delivers condition := by
  rw [← getLsbD_deliverable, deliveredWord, SaveArea.conditionWord, BitVec.getLsbD_setWidth,
    BitVec.getLsbD_append]
  cases condition with
  | monitor condition =>
    have inside := condition.ordinal.isLt
    have above : ¬ 31 - condition.ordinal.val < 16 := by omega
    have same : 31 - condition.ordinal.val - 16 = 15 - condition.ordinal.val := by omega
    have within : 31 - condition.ordinal.val < 64 := by omega
    simp [Condition.position, Condition.ordinal, deliverable, above, same, within]
  | user condition =>
    have inside := condition.ordinal.isLt
    have below : 15 - condition.ordinal.val < 16 := by omega
    have within : 15 - condition.ordinal.val < 64 := by omega
    simp [Condition.position, Condition.ordinal, deliverable, below, within]

theorem getLsbD_deliveredWord (processor : Processor) (position : Nat) :
    processor.deliveredWord.getLsbD position = true ↔
      ∃ condition : Condition, condition.position = position ∧
        processor.delivers condition = true := by
  constructor
  · intro set
    have inside : position < 32 := by
      by_contra outside
      have clear : processor.deliveredWord.getLsbD position = false := by
        rw [deliveredWord, SaveArea.conditionWord, BitVec.getLsbD_setWidth,
          BitVec.getLsbD_of_ge _ _ (Nat.le_of_not_lt outside), Bool.and_false]
      rw [clear] at set
      exact Bool.noConfusion set
    obtain ⟨condition, rfl⟩ := Condition.exists_position inside
    rw [getLsbD_deliveredWord_position] at set
    exact ⟨condition, rfl, set⟩
  · rintro ⟨condition, rfl, delivers⟩
    rwa [getLsbD_deliveredWord_position]

theorem ring_nativeView (processor : Processor) :
    processor.nativeView.p.ring = processor.p.ring := by
  unfold nativeView
  cases processor.instructionSet <;> rfl

end Processor

/-! ## The end of the save area -/

theorem Execution.storeWords_concat {processor left : Processor} {memory kept : μ}
    {words : List Word} {word : Word} {address top : VirtualAddress}
    (ended : (storeWords (words ++ [word]) address).ending processor memory =
      ((.ok top, left), kept)) :
    ∃ between,
      (storeWords words address).ending processor memory =
        ((.ok (address.offset (8 * words.length)), processor), between) ∧
      (storeWord (address.offset (8 * words.length)) word).ending processor between =
        ((.ok (), processor), kept) := by
  induction words generalizing address memory with
  | nil =>
    obtain ⟨⟨⟩, between, storing, ended⟩ := (storeWord_stores _ _ _ _).of_bind_ok ended
    cases ended
    exact ⟨memory, by simp; rfl, by simpa using storing⟩
  | cons first rest ih =>
    obtain ⟨⟨⟩, between, storing, ended⟩ := (storeWord_stores _ _ _ _).of_bind_ok ended
    obtain ⟨later, others, last⟩ := ih ended
    have sum : (8 : Int) + 8 * rest.length = 8 * (first :: rest).length := by
      rw [List.length_cons]
      omega
    rw [VirtualAddress.offset_offset, sum] at others last
    refine ⟨later, ?_, last⟩
    unfold storeWords
    rw [ending_bind, storing]
    exact others

/-! ## Entering the handler -/

namespace Routine

variable [SlottedBus μ] {before entered : Processor} {memory kept : μ}

/-- A trap whose handler has been found fills its save area, with the word at the end of it. No word
is stored after it, and it is found there if the area is set apart from the translation tables. -/
structure SavesLast (before : Processor) (memory : μ) (handler : VirtualAddress) (kept : μ)
    (word : Word) : Prop where
  stored :
    let interrupted := before.attending.withoutTraps
    let pointer := VirtualAddress.ofWord before.trapPointer
    let frame := before.nativeView.a.get 0
    ∃ entry words between later, words.length + 1 = Processor.trapFrameLength ∧
      (Execution.resolveEntry pointer (min pointer.ring.toNat before.p.ring.toNat) false).ending
        interrupted memory = ((.ok entry, interrupted), between) ∧ entry.target = handler ∧
      (Execution.storeWords words frame).ending interrupted between =
        ((.ok (frame.offset (8 * words.length)), interrupted), later) ∧
      (Execution.storeWord (frame.offset (8 * words.length)) word).ending interrupted later =
        ((.ok (), interrupted), kept)
  found : before.translation.SetsApart memory Processor.trapFrameLength
      (before.nativeView.a.get 0) →
    ∃ words, before.translation.wordsAt kept Processor.trapFrameLength
      (before.nativeView.a.get 0) = some words ∧ words.getLast? = some word

/-- A trap hands over to its handler the conditions that called for it, and no others. The handler
is in a ring that it may be entered in, and goes on at once. -/
structure HandsOver (before : Processor) (memory : μ) (entered : Processor) (kept : μ) : Prop where
  saved : ∃ word, SavesLast before memory entered.p kept word ∧
    ∀ position, word.getLsbD position = true ↔
      ∃ condition : Condition, condition.position = position ∧ before.delivers condition = true
  cleared : ∀ condition,
    entered.holds condition = (before.holds condition && !before.delivers condition)
  ringTo : entered.p.ring ≤ before.p.ring
  pointerRing : entered.p.ring ≤ (VirtualAddress.ofWord before.trapPointer).ring
  ringFrom : ∃ segment, before.translation.descriptorAt memory entered.p.segment.toNat =
    some segment ∧ segment.valid = true ∧ segment.r1.toNat ≤ entered.p.ring.toNat
  trapsOff : entered.trapControl.enabled = false
  calm : ∀ condition, entered.holds condition = true →
    ¬ (entered.actionOf condition).Interrupts
  pending : entered.pending = .proceed
  sameStep : (step.run before).perform memory = (stepNative.run entered).perform kept

omit [SlottedBus μ] in
theorem EntersHandler.parts (enters : EntersHandler before.attending memory entered kept) :
    ∃ entry top between,
      (Execution.resolveEntry (.ofWord before.trapPointer)
          (min (VirtualAddress.ofWord before.trapPointer).ring.toNat before.p.ring.toNat)
          false).ending before.attending.withoutTraps memory =
        ((.ok entry, before.attending.withoutTraps), between) ∧
      (Execution.storeWords (before.attending.withoutTraps.trapArea
          before.attending.deliverableMonitor before.attending.deliverableUser).words
          (before.nativeView.a.get 0)).ending before.attending.withoutTraps between =
        ((.ok top, before.attending.withoutTraps), kept) ∧
      entered = (before.attending.withoutTraps.handling entry top).delivered
        before.attending.deliverableMonitor before.attending.deliverableUser := by
  obtain ⟨handler, left, ending, rfl⟩ := enters
  obtain ⟨entry, top, between, resolving, storing, -, rfl⟩ :=
    (Execution.enterHandler_orderly _ _).completed ending
  rw [Processor.ring_nativeView] at resolving
  exact ⟨entry, top, between, resolving, storing, rfl⟩

theorem EntersHandler.savesLast (enters : EntersHandler before.attending memory entered kept) :
    SavesLast before memory entered.p kept before.attending.deliveredWord := by
  obtain ⟨entry, top, between, resolving, storing, same⟩ := enters.parts
  obtain ⟨a, stackTops, largestRing, handling⟩ :=
    before.attending.withoutTraps.handling_eq entry top
  rw [handling] at same
  obtain ⟨words, split⟩ : ∃ words, (before.attending.withoutTraps.trapArea
      before.attending.deliverableMonitor before.attending.deliverableUser).words =
        words ++ [before.attending.deliveredWord] := ⟨_, rfl⟩
  constructor
  case stored =>
    have length := before.attending.withoutTraps.length_trapArea
      before.attending.deliverableMonitor before.attending.deliverableUser
    rw [split] at storing length
    obtain ⟨later, others, last⟩ := Execution.storeWords_concat storing
    refine ⟨entry, words, between, later, ?_, resolving, ?_, others, last⟩
    · rwa [List.length_append] at length
    · rw [same]
      rfl
  case found =>
    intro apart
    have found := enters.wordsAt apart
    rw [same] at found
    refine ⟨_, found, ?_⟩
    rw [split, List.getLast?_append]
    rfl

/-- No trap that is taken loses a condition, keeps one that it delivers, or leaves one that would
be taken again at once. -/
theorem trap_conserves_conditions [LawfulBus μ] (running : before.stopped = false)
    (trapping : before.pending = .trap)
    (enters : EntersHandler before.attending memory entered kept) :
    HandsOver before memory entered kept := by
  obtain ⟨entry, top, between, resolving, -, same⟩ := enters.parts
  obtain ⟨a, stackTops, largestRing, handling⟩ :=
    before.attending.withoutTraps.handling_eq entry top
  have entered_eq := same
  rw [handling] at entered_eq
  -- The ring of the handler is settled by the code base pointer and the segment it leads to.
  obtain ⟨-, word, _, resolves⟩ :=
    (Execution.resolveEntry_orderly _ _ _).completed resolving
  have small : min (VirtualAddress.ofWord before.trapPointer).ring.toNat before.p.ring.toNat < 16 :=
    Nat.lt_of_le_of_lt (Nat.min_le_right _ _) before.p.ring.isLt
  obtain ⟨inward, segment, here, valid, ringFrom⟩ := resolves.ring_between small
  have handler : entered.p = entry.target := by rw [entered_eq]; rfl
  have alike (condition : Condition) :
      before.attending.holds condition = before.holds condition ∧
        before.attending.delivers condition = before.delivers condition := by
    cases condition <;> exact ⟨rfl, rfl⟩
  have pending : entered.pending = .proceed := by rw [entered_eq]; rfl
  constructor
  case saved =>
    refine ⟨_, enters.savesLast, fun position => ?_⟩
    rw [Processor.getLsbD_deliveredWord]
    simp only [alike]
  case cleared =>
    intro condition
    rw [same, Processor.holds_delivered, (alike condition).1, (alike condition).2]
    rw [handling]
    cases condition <;> rfl
  case ringTo =>
    rw [handler, BitVec.le_def]
    exact Nat.le_trans inward (Nat.min_le_right _ _)
  case pointerRing =>
    rw [handler, BitVec.le_def]
    exact Nat.le_trans inward (Nat.min_le_left _ _)
  case ringFrom => exact handler ▸ ⟨segment, here, valid, ringFrom⟩
  case trapsOff =>
    rw [entered_eq]
    rfl
  case calm =>
    intro condition held
    rw [same] at held ⊢
    exact Processor.calm_entered _ entry top held
  case pending => exact pending
  case sameStep =>
    have going : entered.stopped = false := by rw [entered_eq]; exact running
    have native : entered.instructionSet = .native := by rw [entered_eq]; rfl
    rw [perform_step_of_running running, resolved_eq, trapping]
    dsimp only
    rw [enters.perform_eq]
    dsimp only
    rw [going, pending, if_neg (by decide), if_neg (by decide), run_stepInstruction native]

def flaggedJob : Processor := { trappedJob with userConditions := 0x00C0, pending := .trap }

/-- The overflow goes to the handler, and the debug condition stays. -/
theorem flaggedJob_handsOver :
    flaggedJob.stopped = false ∧ flaggedJob.pending = .trap ∧
      HandsOver flaggedJob trapMemory ((enterTrap.run flaggedJob.attending).perform trapMemory).1.2
        ((enterTrap.run flaggedJob.attending).perform trapMemory).2 ∧
      flaggedJob.delivers (.user .arithmeticOverflow) = true ∧
      ((enterTrap.run flaggedJob.attending).perform trapMemory).1.2.holds (.user .debug) = true := by
  have entered : ((Execution.enterHandler flaggedJob.attending.deliverableMonitor
      flaggedJob.attending.deliverableUser).ending flaggedJob.attending.withoutTraps
        trapMemory).1.1 = .ok ⟨11, 0, 8⟩ := by decide +kernel
  exact ⟨rfl, rfl, trap_conserves_conditions rfl rfl (.of_entered entered), by decide,
    by decide +kernel⟩

end Routine

end Mainframe
