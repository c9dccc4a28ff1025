import Mainframe.Proofs.PreciseFaults

/-! Rings. No instruction goes on in a lower ring than its own, except that a call of code in
another segment may enter one through a gate: a valid code base pointer in a binding section. -/

set_option autoImplicit false

namespace Mainframe

variable {μ : Type} [Bus μ]

/-! ## Branches, near calls and returns -/

namespace Processor

theorem nextAddress_called (caller : Processor) (entry : EntryPoint)
    (top argument : VirtualAddress) :
    (caller.called entry top argument).nextAddress = entry.target := by
  obtain ⟨_, _, _, same⟩ := caller.called_eq entry top argument
  rw [same]

end Processor

/-- Only a far call may lead to a lower ring. -/
theorem Completion.ring_le {instruction : Instruction} {processor left : Processor} {memory : μ}
    (completion : Completion instruction processor memory left)
    (here : processor.currentAddress.ring ≤ processor.nextAddress.ring) :
    processor.currentAddress.ring ≤ left.nextAddress.ring ∨
      Operation.ofOpcode instruction.opcode = some (.transfer .callSegment) := by
  have outward {target : VirtualAddress}
      (rule : target = processor.nextAddress ∨ processor.currentAddress.ring ≤ target.ring) :
      processor.currentAddress.ring ≤ target.ring := by
    rcases rule with same | above
    · rw [same]
      exact here
    · exact above
  cases completion with
  | moved a x target rule => exact .inl (outward rule)
  | raised | calledMonitor | halted | exchanged | interrupted | noted => exact .inl here
  | cleared target permitted rule => exact .inl (outward rule)
  | calledNear binding top argument =>
    left
    rw [Processor.nextAddress_called]
    exact BitVec.le_refl _
  | calledFar entry word segment top argument operation => exact .inr operation
  | returned zeroth first second third addresses words kept operation returns =>
    -- A return has compared the rings, whether or not it leaves a trap.
    obtain ⟨_, _, _, _, _, _, _, _, _, same⟩ :=
      processor.leaving_eq zeroth first second third addresses words
    rw [same]
    exact .inl returns.outward
  | governed register word =>
    obtain ⟨_, _, _, same⟩ := processor.governed_eq register word
    rw [same]
    cases register <;> exact .inl here

/-! ## Gates -/

/-- The instruction at `p` is a call of code in another segment, and completes. -/
structure CallsSegment (processor : Processor) (memory : μ) (instruction : Instruction)
    (fetched : Processor) (middle : μ) : Prop where
  fetches : Fetches processor memory instruction fetched middle
  operation : Operation.ofOpcode instruction.opcode = some (.transfer .callSegment)
  completes : ∃ left kept,
    (Execution.execute instruction).ending (fetched.withInstruction instruction) middle =
      ((.ok (), left), kept)

/-- From a ring, the target is that of a code base pointer whose word is a valid one in a binding
section. It lies in a valid segment, in no ring below those that may execute there. -/
structure PassesGate (caller : Processor) (memory : μ) (ring : Ring)
    (pointer target : VirtualAddress) (word : Word) (segment : SegmentDescriptor) : Prop where
  binds : caller.translation.BindsAt memory pointer
  loaded : ∃ kept, (Execution.loadWord pointer).ending caller memory = ((.ok word, caller), kept)
  pointerValid : pointerIsValid word = true
  sameSegment : target.segment = (VirtualAddress.ofWord word).segment
  sameByteNumber : target.byteNumber = (VirtualAddress.ofWord word).byteNumber
  found : caller.translation.descriptorAt memory target.segment.toNat = some segment
  segmentValid : segment.valid = true
  ringFrom : segment.r1.toNat ≤ target.ring.toNat
  ringTo : target.ring ≤ ring

theorem Resolves.ring_target {caller : Processor} {memory : μ} {pointer : VirtualAddress}
    {ring : Nat} {guarded : Bool} {word : Word} {segment : SegmentDescriptor} {entry : EntryPoint}
    (resolves : Resolves caller memory pointer ring guarded word segment entry)
    (small : ring < 16) :
    entry.target.ring.toNat =
      max (min ring (VirtualAddress.ofWord word).ring.toNat) segment.r1.toNat := by
  have notOutward := resolves.notOutward
  rw [resolves.target, VirtualAddress.withRing, BitVec.toNat_ofNat]
  omega

theorem Resolves.ring_between [LawfulBus μ] {caller : Processor} {memory : μ}
    {pointer : VirtualAddress} {ring : Nat} {guarded : Bool} {word : Word}
    {segment : SegmentDescriptor} {entry : EntryPoint}
    (resolves : Resolves caller memory pointer ring guarded word segment entry)
    (small : ring < 16) :
    entry.target.ring.toNat ≤ ring ∧
      ∃ found, caller.translation.descriptorAt memory entry.target.segment.toNat = some found ∧
        found.valid = true ∧ found.r1.toNat ≤ entry.target.ring.toNat := by
  obtain ⟨kept, marks, there⟩ := resolves.found
  obtain ⟨read, here⟩ := caller.translation.descriptorAt_marks marks there
  have ring := resolves.ring_target small
  refine ⟨ring ▸ resolves.notOutward, { segment with read }, ?_, resolves.segmentValid, ?_⟩
  · rw [resolves.target]
    exact here
  · rw [ring]
    exact Nat.le_max_right _ _

theorem Resolves.passesGate [LawfulBus μ] {caller : Processor} {memory : μ}
    {pointer : VirtualAddress} {word : Word} {segment : SegmentDescriptor} {entry : EntryPoint}
    (resolves : Resolves caller memory pointer caller.currentAddress.ring.toNat true word segment
      entry) :
    ∃ found, PassesGate caller memory caller.currentAddress.ring pointer entry.target word found := by
  obtain ⟨ringTo, found, here, segmentValid, ringFrom⟩ :=
    resolves.ring_between caller.currentAddress.ring.isLt
  refine ⟨found, ?_⟩
  exact {
    binds := resolves.binds rfl
    loaded := resolves.loaded
    pointerValid := resolves.pointerValid
    sameSegment := by rw [resolves.target]; rfl
    sameByteNumber := by rw [resolves.target]; rfl
    found := here
    segmentValid
    ringFrom
    ringTo := BitVec.le_def.mpr ringTo }

theorem Execution.execute_callSegment {instruction : Instruction}
    (operation : Operation.ofOpcode instruction.opcode = some (.transfer .callSegment)) :
    execute instruction = callSegment instruction := execute_transfer operation

theorem Execution.callSegment_passesGate [LawfulBus μ] {instruction : Instruction}
    {caller left : Processor} {memory kept : μ}
    (ending : (callSegment instruction).ending caller memory = ((.ok (), left), kept)) :
    ∃ word segment, PassesGate caller memory caller.currentAddress.ring
      (caller.indexedOperand instruction 8) left.nextAddress word segment := by
  obtain ⟨entry, word, segment, top, argument, resolves, called⟩ :=
    callSegment_orderly.completed ending
  obtain ⟨found, passes⟩ := resolves.passesGate
  rw [called, Processor.nextAddress_called]
  exact ⟨word, found, passes⟩

/-! ## Steps -/

namespace Processor

variable {before after : Processor} {condition : Condition}

theorem FaultedWith.p_eq (faulted : before.FaultedWith condition after) : after.p = before.p := by
  obtain ⟨_, _, _, _, _, _, _, _, rfl⟩ := faulted.retains
  cases condition <;> rfl

end Processor

theorem Fetches.currentAddress_eq {processor fetched : Processor} {memory middle : μ}
    {instruction : Instruction} (fetches : Fetches processor memory instruction fetched middle) :
    (fetched.withInstruction instruction).currentAddress = processor.p ∧
      (fetched.withInstruction instruction).nextAddress =
        processor.p.offset instruction.length := by
  obtain ⟨_, _, rfl⟩ := fetches.resembles
  exact ⟨rfl, rfl⟩

namespace Routine

variable {processor : Processor}

/-- The ring of a step that dispatches does not fall but by a far call that completes, and every
such call passes a gate. -/
theorem step_ring [LawfulBus μ] (dispatches : processor.Dispatches) (memory : μ) :
    let after := ((step.run processor).perform memory).1.2
    (processor.p.ring ≤ after.p.ring ∨ ∃ instruction fetched middle,
        CallsSegment processor memory instruction fetched middle) ∧
      ∀ instruction fetched middle, CallsSegment processor memory instruction fetched middle →
        let caller := fetched.withInstruction instruction
        ∃ word segment, PassesGate caller middle processor.p.ring
          (caller.indexedOperand instruction 8) after.p word segment := by
  intro after
  have stays {condition : Condition} (faulted : processor.FaultedWith condition after) :
      processor.p.ring ≤ after.p.ring := by
    rw [faulted.p_eq]
    exact BitVec.le_refl _
  constructor
  · cases step_ends dispatches memory with
    | unfetched condition left kept fetching aborted faulted => exact .inl (stays faulted)
    | faulted instruction fetched left middle kept condition fetches ending executed faulted =>
      exact .inl (stays faulted)
    | completed instruction fetched left middle kept fetches ending completion executed last =>
      obtain ⟨current, next⟩ := fetches.currentAddress_eq
      have committed : after.p = left.nextAddress := congrArg Processor.p last
      rcases completion.ring_le (by rw [current, next]; exact BitVec.le_refl _) with
        above | operation
      · left
        rwa [committed, ← current]
      · exact .inr ⟨instruction, fetched, middle, fetches, operation, left, kept, ending⟩
  · -- The call that completes is the one that the step has carried out.
    intro instruction fetched middle calls
    obtain ⟨fetches, operation, left, kept, ending⟩ := calls
    obtain ⟨current, -⟩ := fetches.currentAddress_eq
    have committed : after.p = left.nextAddress := by
      change ((step.run processor).perform memory).1.2.p = left.nextAddress
      rw [perform_step dispatches, fetches.ending]
      dsimp only
      rw [ending]
      rfl
    rw [Execution.execute_callSegment operation] at ending
    rw [committed, ← current]
    exact Execution.callSegment_passesGate ending

def callingJob : Processor :=
  { smallJob with translation := { smallJob.translation with segmentLimit := 1 } }

def callingMemory : CyclicMemory :=
  ⟨4096, ((((WordStore.empty.set 0 0x7ABB000000000000).set 1 0x6A55000000000000).set 512
    0x8000000000000010).set 1024 0xB510001000000000).set 1072 0x4000500100000040⟩

theorem callingJob_dispatches : callingJob.Dispatches := ⟨rfl, rfl, by decide⟩

theorem step_ring_inward :
    callingJob.Dispatches ∧ callingJob.p.ring = 11 ∧ ∃ instruction fetched middle,
      CallsSegment callingJob callingMemory instruction fetched middle ∧
      let caller := fetched.withInstruction instruction
      ∃ word segment, PassesGate caller middle 11 (caller.indexedOperand instruction 8)
        ⟨5, 1, 0x40⟩ word segment := by
  have lands : ((step.run callingJob).perform callingMemory).1.2.p = ⟨5, 1, 0x40⟩ := by
    decide +kernel
  obtain ⟨outward, gates⟩ := step_ring callingJob_dispatches callingMemory
  rw [lands] at outward gates
  obtain ⟨instruction, fetched, middle, calls⟩ := outward.resolve_left (by decide)
  exact ⟨callingJob_dispatches, rfl, instruction, fetched, middle, calls,
    gates instruction fetched middle calls⟩

end Routine

end Mainframe
