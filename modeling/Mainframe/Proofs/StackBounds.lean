import Mainframe.Proofs.PendingActions
import Mainframe.Proofs.PointerRings

/-! The recorded tops of stacks, and the largest ring that has one. A call or a trap records the
stack that it goes on from together with its ring. A return to a higher ring records the stack that
it leaves and not the ring, so that a ring past the largest may come to have a recorded stack. -/

set_option autoImplicit false

namespace Mainframe

variable {μ : Type}

namespace Processor

def StackBounded (processor : Processor) (ring : Ring) : Prop :=
  processor.stackTop ring.toNat ≠ .zero → ring.toNat ≤ processor.largestRing.toNat

/-- No ring past the largest one has a recorded stack. -/
def StacksBounded (processor : Processor) : Prop := ∀ ring, processor.StackBounded ring

instance (processor : Processor) (ring : Ring) : Decidable (processor.StackBounded ring) :=
  inferInstanceAs (Decidable (_ → _))

instance (processor : Processor) : Decidable processor.StacksBounded :=
  inferInstanceAs (Decidable (∀ ring : Ring, processor.StackBounded ring))

variable {before after : Processor} {ring other : Ring} {top : VirtualAddress}

theorem stackTop_withStackTop (processor : Processor) (ring other : Ring) (top : VirtualAddress) :
    (processor.withStackTop ring.toNat top).stackTop other.toNat =
      if ring = other ∧ 0 < ring.toNat then top else processor.stackTop other.toNat := by
  have small := ring.isLt
  unfold withStackTop
  split
  next positive =>
    unfold stackTop
    by_cases same : ring = other
    · subst same
      simp [positive, show ring.toNat - 1 < 15 by omega]
    · have apart : ring.toNat ≠ other.toNat := fun equal => same (BitVec.eq_of_toNat_eq equal)
      split
      · rw [if_neg (by simp [same])]
        simp [show ring.toNat - 1 ≠ other.toNat - 1 by omega]
      · simp [same]
  next zero => simp [zero]

structure KeepsStacks (before after : Processor) : Prop where
  largest : after.largestRing = before.largestRing
  tops : after.stackTops = before.stackTops

namespace KeepsStacks

variable {first second third : Processor}

theorem trans (before : first.KeepsStacks second) (after : second.KeepsStacks third) :
    first.KeepsStacks third :=
  ⟨after.largest.trans before.largest, after.tops.trans before.tops⟩

theorem bounded (keeps : before.KeepsStacks after) (bounded : before.StackBounded ring) :
    after.StackBounded ring := by
  unfold StackBounded stackTop
  rw [keeps.largest, keeps.tops]
  exact bounded

theorem of_retains (retains : before.Retains after) : before.KeepsStacks after := by
  obtain ⟨_, _, _, _, _, _, _, _, rfl⟩ := retains
  exact ⟨rfl, rfl⟩

theorem withCondition (processor : Processor) (condition : Condition) :
    processor.KeepsStacks (processor.withCondition condition) := by
  cases condition <;> exact ⟨rfl, rfl⟩

theorem raise (processor : Processor) (condition : Condition) :
    processor.KeepsStacks (processor.raise condition) := by
  cases condition <;> exact ⟨rfl, rfl⟩

theorem bound (processor : Processor) (binding : Option VirtualAddress) :
    processor.KeepsStacks (processor.bound binding) := by
  obtain ⟨_, same⟩ := processor.bound_eq binding
  rw [same]
  exact ⟨rfl, rfl⟩

theorem restoreAddresses (processor : Processor) (floor : Nat) (numbers : List RegisterNumber)
    (words : List Word) :
    processor.KeepsStacks (processor.restoreAddresses floor numbers words) := by
  obtain ⟨_, same⟩ := processor.restoreAddresses_eq floor numbers words
  rw [same]
  exact ⟨rfl, rfl⟩

theorem restoreWords (processor : Processor) (numbers : List RegisterNumber)
    (words : List Word) : processor.KeepsStacks (processor.restoreWords numbers words) := by
  obtain ⟨_, same⟩ := processor.restoreWords_eq numbers words
  rw [same]
  exact ⟨rfl, rfl⟩

end KeepsStacks

/-- The stack of a ring has been recorded, and the largest ring is as given. -/
structure Records (before : Processor) (ring : Ring) (top : VirtualAddress) (largest : Nat)
    (after : Processor) : Prop where
  tops : after.stackTops = (before.withStackTop ring.toNat top).stackTops
  largest : after.largestRing.toNat = largest

namespace Records

theorem keeps {largest : Nat} {left : Processor} (records : before.Records ring top largest left)
    (keeps : left.KeepsStacks after) : before.Records ring top largest after where
  tops := keeps.tops.trans records.tops
  largest := (congrArg BitVec.toNat keeps.largest).trans records.largest

theorem of_keeps {largest : Nat} {running : Processor} (keeps : before.KeepsStacks running)
    (records : running.Records ring top largest after) : before.Records ring top largest after where
  tops := by
    rw [records.tops]
    unfold withStackTop
    split
    · exact congrArg (·.setIfInBounds (ring.toNat - 1) top) keeps.tops
    · exact keeps.tops
  largest := records.largest

theorem stackTop_eq {largest : Nat} (records : before.Records ring top largest after)
    (other : Ring) :
    after.stackTop other.toNat =
      if ring = other ∧ 0 < ring.toNat then top else before.stackTop other.toNat := by
  rw [← stackTop_withStackTop]
  unfold stackTop
  rw [records.tops]

theorem bounded_other {largest : Nat} (records : before.Records ring top largest after)
    (grows : before.largestRing.toNat ≤ largest) (bounded : before.StackBounded other)
    (apart : other ≠ ring) : after.StackBounded other := by
  unfold StackBounded at bounded ⊢
  rw [records.stackTop_eq, if_neg fun same => apart same.1.symm, records.largest]
  exact fun recorded => (bounded recorded).trans grows

theorem bounded_iff {largest : Nat} (records : before.Records ring top largest after)
    (grows : before.largestRing.toNat ≤ largest) (bounded : before.StacksBounded) :
    after.StacksBounded ↔ ring.toNat ≤ largest ∨ top = .zero := by
  have here : after.StackBounded ring ↔ ring.toNat ≤ largest ∨ top = .zero := by
    unfold StackBounded
    rw [records.stackTop_eq, records.largest]
    by_cases positive : 0 < ring.toNat
    · rw [if_pos ⟨rfl, positive⟩]
      tauto
    · have zero : ring.toNat ≤ largest := by omega
      simp [zero]
  rw [← here]
  refine ⟨fun all => all ring, fun recorded other => ?_⟩
  by_cases same : other = ring
  · rw [same]
    exact recorded
  · exact records.bounded_other grows (bounded other) same

end Records

/-! ## Calls, traps and returns -/

@[simp] theorem largestRing_withStackTop (processor : Processor) (ring : Nat)
    (top : VirtualAddress) : (processor.withStackTop ring top).largestRing =
      processor.largestRing := by
  obtain ⟨_, same⟩ := processor.withStackTop_eq ring top
  rw [same]

theorem toNat_larger (largest : Byte) (ring : Ring) :
    (if largest < ring.setWidth 8 then ring.setWidth 8 else largest).toNat =
      max largest.toNat ring.toNat := by
  have small := ring.isLt
  have wide : (ring.setWidth 8).toNat = ring.toNat := by
    rw [BitVec.toNat_setWidth, Nat.mod_eq_of_lt (by omega)]
  split
  next smaller =>
    rw [BitVec.lt_def] at smaller
    omega
  next larger =>
    rw [BitVec.lt_def] at larger
    omega

theorem records_activate (processor : Processor) (frame top : VirtualAddress)
    (callerRing newRing : Ring) :
    processor.Records callerRing top (max processor.largestRing.toNat callerRing.toNat)
      (processor.activate frame top callerRing newRing) where
  tops := rfl
  largest := by
    rw [← toNat_larger, ← processor.largestRing_withStackTop callerRing.toNat top]
    rfl

theorem records_called (caller : Processor) (entry : EntryPoint) (top argument : VirtualAddress) :
    caller.Records caller.currentAddress.ring top
      (max caller.largestRing.toNat caller.currentAddress.ring.toNat)
      (caller.called entry top argument) :=
  (caller.records_activate (caller.addressRegister 0) top caller.currentAddress.ring
    entry.target.ring).keeps ((KeepsStacks.bound _ entry.binding).trans ⟨rfl, rfl⟩)

theorem records_handling (interrupted : Processor) (entry : EntryPoint) (top : VirtualAddress) :
    interrupted.Records interrupted.nativeView.p.ring top
      (max interrupted.largestRing.toNat interrupted.nativeView.p.ring.toNat)
      (interrupted.handling entry top) := by
  have records := (records_activate { interrupted with
      instructionSet := .native
      a := interrupted.nativeView.a
      x := interrupted.nativeView.x } (interrupted.nativeView.a.get 0) top
    interrupted.nativeView.p.ring entry.target.ring).keeps (.bound _ entry.binding)
  refine ⟨records.tops.trans ?_, records.largest⟩
  unfold withStackTop
  split <;> rfl

def leavingRing (callee : Processor) (returnAddress : VirtualAddress) : Processor :=
  if returnAddress.ring = callee.currentAddress.ring then callee
  else callee.withStackTop callee.currentAddress.ring.toNat (callee.addressRegister 0)

theorem keepsStacks_leaving (callee : Processor) (zeroth first second third : Word)
    (addresses words : List Word) :
    (callee.leavingRing (.ofWord zeroth)).KeepsStacks
      (callee.leaving zeroth first second third addresses words) := by
  -- What records the stack of the ring that is left comes first; registers are restored after it.
  have resumed : (callee.leavingRing (.ofWord zeroth)).KeepsStacks
      (callee.resume (callee.addressRegister 2) (.ofWord zeroth) first second third addresses
        words) := by
    unfold resume
    extract_lets descriptor floor current left fixed restored
    have registers : left.KeepsStacks restored :=
      (KeepsStacks.restoreAddresses left floor _ _).trans <|
        (KeepsStacks.restoreAddresses fixed floor _ _).trans <|
          .restoreWords _ descriptor.range.wordNumbers words
    exact registers.trans ⟨rfl, rfl⟩
  have returned : (callee.leavingRing (.ofWord zeroth)).KeepsStacks
      (callee.returned zeroth first second third addresses words) := by
    refine resumed.trans ?_
    unfold Processor.returned
    dsimp only
    split <;> exact ⟨rfl, rfl⟩
  obtain ⟨_, _, _, _, same⟩ := callee.leaving_returned zeroth first second third addresses words
  rw [same]
  exact returned.trans ⟨rfl, rfl⟩

theorem records_leaving (callee : Processor) {zeroth : Word}
    (apart : (VirtualAddress.ofWord zeroth).ring ≠ callee.currentAddress.ring)
    (first second third : Word) (addresses words : List Word) :
    callee.Records callee.currentAddress.ring (callee.addressRegister 0) callee.largestRing.toNat
      (callee.leaving zeroth first second third addresses words) := by
  have keeps := callee.keepsStacks_leaving zeroth first second third addresses words
  unfold leavingRing at keeps
  rw [if_neg apart] at keeps
  exact .keeps ⟨rfl, by rw [largestRing_withStackTop]⟩ keeps

end Processor

/-! ## Completed instructions -/

variable [Bus μ] {before running left after : Processor} {memory : μ} {instruction : Instruction}

open Processor

inductive StackEffect (instruction : Instruction) (running : Processor) (memory : μ)
    (left : Processor) : Prop where
  | kept (keeps : running.KeepsStacks left)
  | called (top : VirtualAddress)
      (records : running.Records running.currentAddress.ring top
        (max running.largestRing.toNat running.currentAddress.ring.toNat) left)
  | returned (zeroth first second third : Word) (addresses words : List Word) (kept : μ)
      (operation : Operation.ofOpcode instruction.opcode = some (.transfer .returnFromCall))
      (returns : ReturnsBy running memory zeroth first second third addresses words kept)
      (outward : running.currentAddress.ring < (VirtualAddress.ofWord zeroth).ring)
      (same : left = running.leaving zeroth first second third addresses words)
      (records : running.Records running.currentAddress.ring (running.addressRegister 0)
        running.largestRing.toNat left)

theorem Completion.stackEffect (completion : Completion instruction running memory left) :
    StackEffect instruction running memory left := by
  cases completion with
  | moved | raised | calledMonitor | halted | exchanged | interrupted | noted =>
    exact .kept ⟨rfl, rfl⟩
  | cleared => cases Processor.conditionOperand instruction <;> exact .kept ⟨rfl, rfl⟩
  | calledNear binding top argument => exact .called top (running.records_called _ top argument)
  | calledFar entry word segment top argument =>
    exact .called top (running.records_called entry top argument)
  | returned zeroth first second third addresses words kept operation returns =>
    by_cases apart : (VirtualAddress.ofWord zeroth).ring = running.currentAddress.ring
    · have keeps := running.keepsStacks_leaving zeroth first second third addresses words
      rw [leavingRing, if_pos apart] at keeps
      exact .kept keeps
    · have outward := BitVec.lt_of_le_ne returns.outward fun same => apart same.symm
      exact .returned zeroth first second third addresses words kept operation returns outward rfl
        (running.records_leaving apart first second third addresses words)
  | governed register word =>
    obtain ⟨_, _, _, same⟩ := running.governed_eq register word
    rw [same]
    cases register <;> exact .kept ⟨rfl, rfl⟩

/-! ## Steps -/

theorem Fetches.keepsStacks {fetched : Processor} {middle : μ}
    (fetches : Fetches before memory instruction fetched middle) :
    before.KeepsStacks (fetched.withInstruction instruction) ∧
      (fetched.withInstruction instruction).currentAddress = before.p ∧
      ∀ number, (fetched.withInstruction instruction).addressRegister number =
        before.addressRegister number := by
  obtain ⟨_, _, rfl⟩ := fetches.resembles
  exact ⟨⟨rfl, rfl⟩, rfl, fun _ => rfl⟩

/-- A return has recorded the stack of a ring past the largest one. -/
structure RecordsPastLargest (before : Processor) (memory : μ) (after : Processor) : Prop where
  returns : ∃ instruction fetched middle zeroth first second third addresses words kept,
    Fetches before memory instruction fetched middle ∧
    Operation.ofOpcode instruction.opcode = some (.transfer .returnFromCall) ∧
    ReturnsBy (fetched.withInstruction instruction) middle zeroth first second third addresses
      words kept ∧
    before.p.ring < (VirtualAddress.ofWord zeroth).ring ∧
    after = ((fetched.withInstruction instruction).leaving zeroth first second third addresses
      words).commit true
  past : before.largestRing.toNat < before.p.ring.toNat
  recorded : before.addressRegister 0 ≠ .zero

namespace RecordsPastLargest

theorem records (past : RecordsPastLargest before memory after) :
    before.Records before.p.ring (before.addressRegister 0) before.largestRing.toNat after := by
  obtain ⟨instruction, fetched, middle, zeroth, first, second, third, addresses, words, kept,
    fetches, -, -, outward, rfl⟩ := past.returns
  obtain ⟨keeps, current, registers⟩ := fetches.keepsStacks
  generalize fetched.withInstruction instruction = running at keeps current registers
  have apart : (VirtualAddress.ofWord zeroth).ring ≠ running.currentAddress.ring := by
    rw [current]
    exact (BitVec.ne_of_lt outward).symm
  have records := running.records_leaving apart first second third addresses words
  rw [current, keeps.largest, registers] at records
  exact (records.of_keeps keeps).keeps ⟨rfl, rfl⟩

theorem not_bounded (past : RecordsPastLargest before memory after)
    (bounded : before.StacksBounded) : ¬ after.StacksBounded := by
  rw [past.records.bounded_iff (Nat.le_refl _) bounded]
  exact not_or.mpr ⟨Nat.not_le.mpr past.past, past.recorded⟩

end RecordsPastLargest

namespace Routine

/-- A step keeps the recorded stacks, or records the one of the ring in which it began. -/
theorem step_records (dispatches : before.Dispatches) (memory : μ) :
    let after := ((step.run before).perform memory).1.2
    before.KeepsStacks after ∨
      (∃ top, before.Records before.p.ring top
        (max before.largestRing.toNat before.p.ring.toNat) after) ∨
      before.Records before.p.ring (before.addressRegister 0) before.largestRing.toNat after ∧
        (before.largestRing.toNat < before.p.ring.toNat → before.addressRegister 0 ≠ .zero →
          RecordsPastLargest before memory after) := by
  intro after
  have faulting {condition : Condition} (faulted : before.FaultedWith condition after) :
      before.KeepsStacks after :=
    (KeepsStacks.withCondition before condition).trans (.of_retains faulted.retains)
  cases step_ends dispatches memory with
  | unfetched condition left kept fetching aborted faulted => exact .inl (faulting faulted)
  | faulted instruction fetched left middle kept condition fetches ending executed faulted =>
    exact .inl (faulting faulted)
  | completed instruction fetched left middle kept fetches ending completion executed committed =>
    have committed : after = left.commit true := committed
    have commits : left.KeepsStacks after := committed ▸ ⟨rfl, rfl⟩
    obtain ⟨keeps, current, registers⟩ := fetches.keepsStacks
    have effect := completion.stackEffect
    -- The ring and the largest ring that the effect speaks of are those at the start of the step.
    cases effect with
    | kept same => exact .inl ((keeps.trans same).trans commits)
    | called top records =>
      rw [current, keeps.largest] at records
      exact .inr (.inl ⟨top, (records.of_keeps keeps).keeps commits⟩)
    | returned zeroth first second third addresses words last operation returns outward same
        records =>
      rw [current, keeps.largest, registers] at records
      rw [current] at outward
      refine .inr (.inr ⟨(records.of_keeps keeps).keeps commits, fun past recorded => ?_⟩)
      exact ⟨⟨instruction, fetched, middle, zeroth, first, second, third, addresses, words, last,
        fetches, operation, returns, outward, same ▸ committed⟩, past, recorded⟩

theorem enterTrap_bounded (bounded : before.StacksBounded) (memory : μ) :
    ((enterTrap.run before).perform memory).1.2.StacksBounded := by
  have keeps : before.KeepsStacks before.withoutTraps := ⟨rfl, rfl⟩
  have untrapped : before.withoutTraps.StacksBounded := fun ring => keeps.bounded (bounded ring)
  cases enterTrap_ends before memory with
  | failed condition left error alike recorded =>
    have raised := (KeepsStacks.of_retains (.of_resembles alike)).trans <|
      (KeepsStacks.raise left condition).trans (.raise _ (.monitor .trapException))
    rw [recorded]
    exact fun ring => raised.bounded (untrapped ring)
  | entered entry top handed =>
    have records := before.withoutTraps.records_handling entry top
    have entered := (records.bounded_iff (Nat.le_max_left _ _) untrapped).mpr
      (.inl (Nat.le_max_right _ _))
    rw [handed]
    exact entered

/-- While no ring past the largest has a recorded stack, this stays so for every ring but the
current one, and for that as well but after a return that records its stack. Traps keep it so. -/
theorem stacks_bounded (bounded : before.StacksBounded) (memory : μ) :
    (before.Dispatches →
      let after := ((step.run before).perform memory).1.2
      (∀ ring, ring ≠ before.p.ring → after.StackBounded ring) ∧
        (after.StacksBounded ↔ ¬ RecordsPastLargest before memory after)) ∧
    ((enterTrap.run before).perform memory).1.2.StacksBounded := by
  refine ⟨fun dispatches => ?_, enterTrap_bounded bounded memory⟩
  intro after
  have escapes (past : RecordsPastLargest before memory after) : ¬ after.StacksBounded :=
    past.not_bounded bounded
  rcases step_records dispatches memory with keeps | ⟨top, records⟩ | ⟨records, past⟩
  · have all : after.StacksBounded := fun ring => keeps.bounded (bounded ring)
    exact ⟨fun ring _ => all ring, fun _ past => escapes past all, fun _ => all⟩
  · have all : after.StacksBounded :=
      (records.bounded_iff (Nat.le_max_left _ _) bounded).mpr (.inl (Nat.le_max_right _ _))
    exact ⟨fun ring _ => all ring, fun _ past => escapes past all, fun _ => all⟩
  · have grows := Nat.le_refl before.largestRing.toNat
    refine ⟨fun ring apart => records.bounded_other grows (bounded ring) apart,
      fun all past => escapes past all, fun none => ?_⟩
    rw [records.bounded_iff grows bounded]
    by_contra neither
    rw [not_or, Nat.not_le] at neither
    exact none (past neither.1 neither.2)

/-- The job in ring eleven returns to ring thirteen before a stack was recorded. -/
theorem outwardReturn_recordsPastLargest :
    smallJob.StacksBounded ∧ smallJob.Dispatches ∧
      RecordsPastLargest smallJob outwardMemory
        ((step.run smallJob).perform outwardMemory).1.2 := by
  have bounded : smallJob.StacksBounded := by decide
  refine ⟨bounded, smallJob_dispatches, ?_⟩
  obtain ⟨-, bounded_iff⟩ := (stacks_bounded bounded outwardMemory).1 smallJob_dispatches
  by_contra none
  exact absurd (bounded_iff.mpr none) (by decide +kernel)

theorem outwardReturn_not_bounded :
    smallJob.StacksBounded ∧ smallJob.Dispatches ∧
      ¬ ((step.run smallJob).perform outwardMemory).1.2.StacksBounded :=
  ⟨by decide, smallJob_dispatches, by decide +kernel⟩

end Routine

end Mainframe
