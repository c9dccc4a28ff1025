import Mainframe.Execute.Dispatch
import Mainframe.Proofs.Access

/-! What a completed instruction leaves. Most instructions change registers of their activation
and the next address alone; the others are told apart by what else they change. -/

set_option autoImplicit false

namespace Mainframe

variable {μ : Type}

namespace Processor

def rescanned (processor : Processor) : Processor := processor.conditions.foldl raise processor

def callArea (caller : Processor) (length : Nat) : SaveArea where
  returnAddress := caller.currentAddress.offset length
  key := caller.key
  virtualMachine := 0
  flags := caller.flags
  userMask := caller.userMask
  a := caller.a
  x := caller.x
  range := .ofBits ((caller.wordRegister 0).setWidth 12)
  delivered := none

def called (caller : Processor) (entry : EntryPoint) (top argument : VirtualAddress) : Processor :=
  let entered := (caller.activate (caller.addressRegister 0) top caller.currentAddress.ring
    entry.target.ring).bound entry.binding
  { entered.withAddressRegister 4 argument with nextAddress := entry.target }

/-- The activation that a return goes back to, before conditions are looked at again. -/
def returned (callee : Processor) (zeroth first second third : Word)
    (addresses words : List Word) : Processor :=
  let resumed := { callee.resume (callee.addressRegister 2) (.ofWord zeroth) first second third
      addresses words with
    nextKey := ((tagOf zeroth).setWidth 6).setWidth 8 }
  if first.extractLsb' 60 4 = 1 then
    { resumed with instructionSet := .legacy (.ofNative ⟨.ofWord zeroth, resumed.a, resumed.x⟩) }
  else resumed

def withTraps (processor : Processor) : Processor :=
  { processor with trapControl := { processor.trapControl with enabled := true } }

/-- What a return leaves. From the frame of a trap it turns traps on and looks at conditions. -/
def leaving (callee : Processor) (zeroth first second third : Word)
    (addresses words : List Word) : Processor :=
  let resumed := callee.returned zeroth first second third addresses words
  if (FrameDescriptor.ofBits (tagOf second)).isTrap then resumed.withTraps.rescanned else resumed

/-! ## What calls, returns and conditions leave alone -/

theorem restoreAddresses_eq (processor : Processor) (floor : Nat) (numbers : List RegisterNumber)
    (words : List Word) : ∃ a, processor.restoreAddresses floor numbers words = { processor with a } := by
  unfold restoreAddresses
  induction numbers.zip words generalizing processor with
  | nil => exact ⟨processor.a, rfl⟩
  | cons pair rest ih =>
    obtain ⟨a, same⟩ := ih (processor.withAddressRegister pair.1 _)
    exact ⟨a, same⟩

theorem restoreWords_eq (processor : Processor) (numbers : List RegisterNumber)
    (words : List Word) : ∃ x, processor.restoreWords numbers words = { processor with x } := by
  unfold restoreWords
  induction numbers.zip words generalizing processor with
  | nil => exact ⟨processor.x, rfl⟩
  | cons pair rest ih =>
    obtain ⟨x, same⟩ := ih (processor.withWordRegister pair.1 pair.2)
    exact ⟨x, same⟩

theorem withStackTop_eq (processor : Processor) (ring : Nat) (top : VirtualAddress) :
    ∃ stackTops, processor.withStackTop ring top = { processor with stackTops } := by
  unfold withStackTop
  split
  · exact ⟨_, rfl⟩
  · exact ⟨processor.stackTops, rfl⟩

theorem activate_eq (processor : Processor) (frame top : VirtualAddress)
    (callerRing newRing : Ring) :
    ∃ a stackTops largestRing, processor.activate frame top callerRing newRing = { processor with
      a, stackTops, largestRing, flags := .clear } := by
  unfold activate
  obtain ⟨stackTops, same⟩ := processor.withStackTop_eq callerRing.toNat top
  rw [same]
  exact ⟨_, stackTops, _, rfl⟩

theorem bound_eq (processor : Processor) (binding : Option VirtualAddress) :
    ∃ a, processor.bound binding = { processor with a } := by
  cases binding with
  | none => exact ⟨processor.a, rfl⟩
  | some pointer => exact ⟨_, rfl⟩

theorem called_eq (caller : Processor) (entry : EntryPoint) (top argument : VirtualAddress) :
    ∃ a stackTops largestRing, caller.called entry top argument = { caller with
      a, stackTops, largestRing, flags := .clear, nextAddress := entry.target } := by
  unfold called
  obtain ⟨a, stackTops, largestRing, same⟩ := caller.activate_eq (caller.addressRegister 0) top
    caller.currentAddress.ring entry.target.ring
  rw [same]
  obtain ⟨a, same⟩ := bound_eq { caller with a, stackTops, largestRing, flags := .clear }
    entry.binding
  rw [same]
  exact ⟨_, stackTops, largestRing, rfl⟩

theorem resume_eq (processor : Processor) (frame returnAddress : VirtualAddress)
    (first second third : Word) (addresses words : List Word) :
    ∃ a x stackTops, processor.resume frame returnAddress first second third addresses words =
      { processor with
        a, x, stackTops
        userMask := tagOf third
        flags := (FrameDescriptor.ofBits (tagOf second)).flags
        nextAddress := returnAddress } := by
  unfold resume
  dsimp only
  obtain ⟨stackTops, left⟩ : ∃ stackTops,
      (if returnAddress.ring = processor.currentAddress.ring then processor
        else processor.withStackTop processor.currentAddress.ring.toNat
          (processor.addressRegister 0)) = { processor with stackTops } := by
    split
    · exact ⟨processor.stackTops, rfl⟩
    · exact processor.withStackTop_eq _ _
  rw [left]
  obtain ⟨fixed, same⟩ := restoreAddresses_eq { processor with stackTops }
    (max frame.ring.toNat returnAddress.ring.toNat) [0, 1, 2] [first, second, third]
  rw [same]
  obtain ⟨a, same⟩ := restoreAddresses_eq { processor with stackTops, a := fixed }
    (max frame.ring.toNat returnAddress.ring.toNat)
    (FrameDescriptor.ofBits (tagOf second)).range.addressNumbers addresses
  rw [same]
  obtain ⟨x, same⟩ := restoreWords_eq { processor with stackTops, a }
    (FrameDescriptor.ofBits (tagOf second)).range.wordNumbers words
  rw [same]
  exact ⟨a, x, stackTops, rfl⟩

theorem returned_eq (callee : Processor) (zeroth first second third : Word)
    (addresses words : List Word) :
    ∃ a x stackTops nextKey instructionSet,
      callee.returned zeroth first second third addresses words = { callee with
        a, x, stackTops, nextKey, instructionSet
        userMask := tagOf third
        flags := (FrameDescriptor.ofBits (tagOf second)).flags
        nextAddress := .ofWord zeroth } := by
  unfold returned
  obtain ⟨a, x, stackTops, same⟩ := callee.resume_eq (callee.addressRegister 2) (.ofWord zeroth)
    first second third addresses words
  rw [same]
  dsimp only
  split <;> exact ⟨_, _, _, _, _, rfl⟩

theorem foldl_raise_eq (conditions : List Condition) (processor : Processor) :
    ∃ monitor user pending, conditions.foldl raise processor = { processor with
      monitorConditions := processor.monitorConditions ||| monitor
      userConditions := processor.userConditions ||| user
      pending } := by
  -- Each condition adds its own bit to those that the rest adds.
  induction conditions generalizing processor with
  | nil => exact ⟨0, 0, processor.pending, by simp⟩
  | cons condition rest ih =>
    obtain ⟨monitor, user, pending, same⟩ := ih (processor.raise condition)
    rw [List.foldl_cons, same]
    cases condition with
    | monitor condition =>
      exact ⟨ordinalBit condition.ordinal ||| monitor, user, pending, by
        simp [raise, withCondition, escalate, BitVec.or_assoc]⟩
    | user condition =>
      exact ⟨monitor, ordinalBit condition.ordinal ||| user, pending, by
        simp [raise, withCondition, escalate, BitVec.or_assoc]⟩

/-- Acting on the recorded conditions again changes nothing but what they call for. -/
theorem rescanned_eq (processor : Processor) :
    ∃ monitor user pending, processor.rescanned = { processor with
      monitorConditions := processor.monitorConditions ||| monitor
      userConditions := processor.userConditions ||| user
      pending } :=
  foldl_raise_eq processor.conditions processor

theorem governed_eq (processor : Processor) (register : StateRegister) (word : Word) :
    ∃ monitorConditions userConditions pending,
      (let written := processor.withStateRegister register word
        if register.governsActions then written.rescanned else written) =
          { processor.withStateRegister register word with
            monitorConditions, userConditions, pending } := by
  obtain ⟨_, _, _, same⟩ := (processor.withStateRegister register word).rescanned_eq
  dsimp only
  split
  · exact ⟨_, _, _, same⟩
  · exact ⟨_, _, _, rfl⟩

theorem leaving_returned (callee : Processor) (zeroth first second third : Word)
    (addresses words : List Word) :
    ∃ trapControl monitorConditions userConditions pending,
      callee.leaving zeroth first second third addresses words =
        { callee.returned zeroth first second third addresses words with
          trapControl, monitorConditions, userConditions, pending } := by
  obtain ⟨_, _, _, same⟩ :=
    (callee.returned zeroth first second third addresses words).withTraps.rescanned_eq
  unfold leaving
  dsimp only
  split
  · rw [same]
    exact ⟨_, _, _, _, rfl⟩
  · exact ⟨_, _, _, _, rfl⟩

theorem leaving_eq (callee : Processor) (zeroth first second third : Word)
    (addresses words : List Word) :
    ∃ a x stackTops nextKey instructionSet trapControl monitorConditions userConditions pending,
      callee.leaving zeroth first second third addresses words = { callee with
        a, x, stackTops, nextKey, instructionSet, trapControl, monitorConditions, userConditions
        pending
        userMask := tagOf third
        flags := (FrameDescriptor.ofBits (tagOf second)).flags
        nextAddress := .ofWord zeroth } := by
  obtain ⟨_, _, _, _, same⟩ := callee.leaving_returned zeroth first second third addresses words
  obtain ⟨_, _, _, _, _, returned⟩ := callee.returned_eq zeroth first second third addresses words
  rw [same, returned]
  exact ⟨_, _, _, _, _, _, _, _, _, rfl⟩

end Processor

def TranslationUnit.BindsAt [Bus μ] (unit : TranslationUnit) (memory : μ)
    (address : VirtualAddress) : Prop :=
  ∃ descriptor, unit.descriptorAt memory address.segment.toNat = some descriptor ∧
    descriptor.valid = true ∧ descriptor.isBindingSection = true

/-- A code base pointer for a caller in a ring leads to an entry point by way of the word at the
pointer and the segment of the code. -/
structure Resolves [Bus μ] (processor : Processor) (memory : μ) (pointer : VirtualAddress)
    (ring : Nat) (guarded : Bool) (word : Word) (segment : SegmentDescriptor)
    (entry : EntryPoint) : Prop where
  binds : guarded = true → processor.translation.BindsAt memory pointer
  loaded : ∃ kept, (Execution.loadWord pointer).ending processor memory =
    ((.ok word, processor), kept)
  pointerValid : pointerIsValid word = true
  found : ∃ kept, OnlyMarks memory kept ∧ processor.translation.descriptorAt kept
    (VirtualAddress.ofWord word).segment.toNat = some segment
  segmentValid : segment.valid = true
  notOutward : max (min ring (VirtualAddress.ofWord word).ring.toNat) segment.r1.toNat ≤ ring
  target : entry.target = (VirtualAddress.ofWord word).withRing
    (BitVec.ofNat 4 (max (min ring (VirtualAddress.ofWord word).ring.toNat) segment.r1.toNat))

/-- A return has read the words of a save area, which lead to no lower ring. -/
structure ReturnsBy [Bus μ] (processor : Processor) (memory : μ)
    (zeroth first second third : Word) (addresses words : List Word) (kept : μ) : Prop where
  loaded : let range := (FrameDescriptor.ofBits (tagOf second)).range
    (Execution.loadWords (range.addressNumbers.length + range.wordNumbers.length + 4)
        (processor.addressRegister 2)).ending processor memory =
      ((.ok (zeroth :: first :: second :: third :: (addresses ++ words)), processor), kept)
  outward : processor.currentAddress.ring ≤ (VirtualAddress.ofWord zeroth).ring
  sized : addresses.length =
    (FrameDescriptor.ofBits (tagOf second)).range.addressNumbers.length

/-- How a completed instruction leaves the processor. -/
inductive Completion [Bus μ] (instruction : Instruction) (processor : Processor) (memory : μ) :
    Processor → Prop where
  | moved (a : AddressRegisters) (x : WordRegisters) (target : VirtualAddress)
      (outward : target = processor.nextAddress ∨
        processor.currentAddress.ring ≤ target.ring) :
      Completion instruction processor memory { processor with a, x, nextAddress := target }
  | raised (condition : UserCondition) :
      Completion instruction processor memory (processor.raise (.user condition))
  | cleared (target : VirtualAddress)
      (permitted : (Processor.conditionOperand instruction).isMonitor = true →
        processor.monitorMode = true)
      (outward : target = processor.nextAddress ∨
        processor.currentAddress.ring ≤ target.ring) :
      Completion instruction processor memory
        { processor.withoutCondition (Processor.conditionOperand instruction) with
          nextAddress := target }
  | calledNear (binding : Option VirtualAddress) (top argument : VirtualAddress) :
      Completion instruction processor memory
        (processor.called ⟨processor.displacedTarget instruction, binding⟩ top argument)
  | calledFar (entry : EntryPoint) (word : Word) (segment : SegmentDescriptor)
      (top argument : VirtualAddress)
      (operation : Operation.ofOpcode instruction.opcode = some (.transfer .callSegment))
      (resolves : Resolves processor memory (processor.indexedOperand instruction 8)
        processor.currentAddress.ring.toNat true word segment entry) :
      Completion instruction processor memory (processor.called entry top argument)
  | returned (zeroth first second third : Word) (addresses words : List Word) (kept : μ)
      (operation : Operation.ofOpcode instruction.opcode = some (.transfer .returnFromCall))
      (returns : ReturnsBy processor memory zeroth first second third addresses words kept) :
      Completion instruction processor memory
        (processor.leaving zeroth first second third addresses words)
  | halted (permitted : processor.mayUse .globalPrivileged = true) :
      Completion instruction processor memory (processor.escalate .halt)
  | exchanged (monitor : processor.monitorMode = true) :
      Completion instruction processor memory (processor.escalate .exchange)
  | calledMonitor (job : processor.monitorMode = false) :
      Completion instruction processor memory (processor.raise (.monitor .systemCall))
  | interrupted
      (operation : Operation.ofOpcode instruction.opcode = some (.control .interruptProcessor))
      (permitted : processor.mayUse .localPrivileged = true) :
      Completion instruction processor memory { processor with
        interruptRequest := some (Word.rightHalf (processor.wordRegister instruction.k)).toNat }
  | governed (register : StateRegister) (word : Word)
      (permitted : register.isPrivileged = true → processor.mayUse .localPrivileged = true) :
      Completion instruction processor memory
        (let written := processor.withStateRegister register word
        if register.governsActions then written.rescanned else written)
  | noted (code : Word) :
      Completion instruction processor memory
        ({ processor with keypointCode := code }.raise (.user .keypoint))

/-- An instruction is counted once it is committed, not before. Only one asks for an interrupt. -/
theorem Completion.bookkeeping [Bus μ] {instruction : Instruction} {processor left : Processor}
    {memory : μ} (completion : Completion instruction processor memory left) :
    left.retired = processor.retired ∧
      (Operation.ofOpcode instruction.opcode ≠ some (.control .interruptProcessor) →
        left.interruptRequest = processor.interruptRequest) := by
  cases completion with
  | moved | raised | calledMonitor | halted | exchanged | noted => exact ⟨rfl, fun _ => rfl⟩
  | interrupted operation => exact ⟨rfl, fun other => absurd operation other⟩
  | cleared => cases Processor.conditionOperand instruction <;> exact ⟨rfl, fun _ => rfl⟩
  | calledNear binding top argument =>
    obtain ⟨_, _, _, same⟩ := processor.called_eq _ top argument
    rw [same]
    exact ⟨rfl, fun _ => rfl⟩
  | calledFar entry word segment top argument =>
    obtain ⟨_, _, _, same⟩ := processor.called_eq entry top argument
    rw [same]
    exact ⟨rfl, fun _ => rfl⟩
  | returned zeroth first second third addresses words =>
    obtain ⟨_, _, _, _, _, _, _, _, _, same⟩ :=
      processor.leaving_eq zeroth first second third addresses words
    rw [same]
    exact ⟨rfl, fun _ => rfl⟩
  | governed register word =>
    obtain ⟨_, _, _, same⟩ := processor.governed_eq register word
    rw [same]
    cases register <;> exact ⟨rfl, fun _ => rfl⟩

/-- Whatever the memory has become, the execution is orderly and completes the instruction. -/
def Execution.Completes [Bus μ] (execution : Execution Unit) (instruction : Instruction)
    (processor : Processor) (memory kept : μ) : Prop :=
  execution.Orderly processor kept fun _ left _ => Completion instruction processor memory left

namespace Execution

variable [Bus μ] {instruction : Instruction} {processor : Processor} {memory kept : μ}

namespace Completes

theorem of_settles {execution : Execution Unit} {left : Processor}
    (settles : execution.Settles processor () left)
    (completion : Completion instruction processor memory left) :
    execution.Completes instruction processor memory kept := Orderly.of_settles settles completion

theorem get {continuation : Processor → Execution Unit}
    (rest : (continuation processor).Completes instruction processor memory kept) :
    (MonadState.get >>= continuation : Execution Unit).Completes instruction processor memory kept :=
  Orderly.get rest

theorem after {α : Type} {execution : Execution α} {continuation : α → Execution Unit}
    (inspects : execution.Inspects processor kept)
    (rest : ∀ result (later : μ),
      (continuation result).Completes instruction processor memory later) :
    (execution >>= continuation).Completes instruction processor memory kept :=
  inspects.andThen fun result later _ _ => rest result later

theorem registers (a : AddressRegisters) (x : WordRegisters) :
    Completion instruction processor memory { processor with a, x } :=
  .moved a x processor.nextAddress (.inl rfl)

theorem of_stores {execution : Execution Unit} (stores : execution.Stores processor kept) :
    execution.Completes instruction processor memory kept := by
  apply Orderly.mono stores
  intro result left later same
  rw [same]
  exact registers processor.a processor.x

end Completes

/-! ## Computations -/

omit [Bus μ] in
theorem policy_of_refused {computation : Computation} {condition : MonitorCondition}
    (refused : computation.outcome processor instruction = .refused condition) :
    condition.policy = .monitorError := by
  -- Only fields and fills refuse; what else goes wrong is a user condition.
  have result (number : RegisterNumber) (value : Except UserCondition Word) :
      Outcome.ofResult number value ≠ .refused condition := by
    cases value <;> exact Outcome.noConfusion
  have field (value : BitField → Word)
      (refused : processor.fieldOutcome instruction value = .refused condition) :
      condition = .instructionSpecification := by
    unfold Processor.fieldOutcome at refused
    split at refused <;> cases refused
    rfl
  cases computation
  case fieldMask | isolateField | insertField => rw [field _ refused]; rfl
  case enterFill =>
    unfold Computation.outcome Processor.fillOutcome at refused
    dsimp only at refused
    split at refused <;> cases refused
    rfl
  case integer | floating | integerToFloating | floatingToInteger | compare =>
    exact (result _ _ refused).elim
  all_goals exact Outcome.noConfusion refused

theorem compute_completes (computation : Computation) :
    (compute computation instruction).Completes instruction processor memory kept := by
  refine .get ?_
  cases outcome : computation.outcome processor instruction with
  | word number value => exact .of_settles (.modified _) (Completes.registers _ _)
  | address number value => exact .of_settles (.modified _) (Completes.registers _ _)
  | missing condition => exact .of_settles (.routine (.notify _ (.done _))) (.raised condition)
  | refused condition => exact Orderly.monitorFault (policy_of_refused outcome)

/-! ## Storage -/

theorem lockBit_completes :
    (lockBit instruction).Completes instruction processor memory kept := by
  refine .get (Orderly.store rfl rfl (processor.translation.pageRemaining_pos _) ?_ ?_)
  · intro real low
    -- The whole word that holds the byte is changed.
    refine .modifyWord ?_ _
    have shifted : (real >>> 3 <<< 3).toNat / 8 = real.toNat / 8 := by
      simp only [BitVec.toNat_shiftLeft, BitVec.toNat_ushiftRight, Nat.shiftLeft_eq,
        Nat.shiftRight_eq_div_pow]
      omega
    unfold Covers
    rw [wordIndex_eq, shifted]
    omega
  · intro real old later
    exact .of_settles (.modified _) (Completes.registers _ _)

theorem compareSwap_completes :
    (compareSwap instruction).Completes instruction processor memory kept := by
  refine .get ?_
  dsimp only
  split
  · exact Orderly.failThen (.faultAt _ rfl)
  next aligned =>
  have aligned : isAligned (processor.displacedOperand instruction) = true := by simpa using aligned
  have fits := processor.translation.eight_le_pageRemaining (toNat_mod_eight aligned)
  refine Orderly.store rfl rfl fits (fun real _ => .modifyWord ?_ _) fun real old later => ?_
  · exact (Covers.self real).widen (Nat.le_refl _) (by omega)
  · refine .of_settles (.modified _) ?_
    split <;> exact Completes.registers _ _

theorem storage_completes (operation : Storage) :
    (storage operation instruction).Completes instruction processor memory kept := by
  cases operation with
  | loadWord addressing =>
    refine .get (.after (loadWord_inspects _ _ _) fun word later => ?_)
    exact .of_settles (.modified _) (Completes.registers _ _)
  | storeWord addressing => exact .get (.of_stores (storeWord_stores _ _ _ _))
  | loadAddress addressing =>
    refine .get (.after (loadWord_inspects _ _ _) fun word later => ?_)
    exact .of_settles (.modified _) (Completes.registers _ _)
  | storeAddress addressing => exact .get (.of_stores (storeWord_stores _ _ _ _))
  | loadBytes length =>
    refine .get (.after (loadBytes_inspects _ _ _ _) fun word later => ?_)
    exact .of_settles (.modified _) (Completes.registers _ _)
  | storeBytes length => exact .get (.of_stores (storeBytes_stores _ _ _ _ _))
  | loadMultiple =>
    refine .get (.after (loadWords_inspects _ _ _ _) fun words later => ?_)
    refine .of_settles (.modified _) ?_
    -- The loaded words go to address registers first, and those left over to word registers.
    unfold RegisterRanges.restore
    obtain ⟨a, addresses⟩ := processor.restoreAddresses_eq _ _ words
    rw [addresses]
    obtain ⟨x, same⟩ := Processor.restoreWords_eq { processor with a } _ _
    rw [same]
    exact Completes.registers a x
  | storeMultiple =>
    refine .get (.of_stores ?_)
    exact .bind (storeWords_stores _ _ _ _) fun top later => .done _
  | loadBit =>
    refine .get (.after (loadBytes_inspects _ _ _ _) fun byte later => ?_)
    exact .of_settles (.modified _) (Completes.registers _ _)
  | storeBit =>
    refine .get (.after (loadBytes_inspects _ _ _ _) fun byte later => ?_)
    exact .of_stores (storeBytes_stores _ _ _ _ _)
  | lockBit => exact lockBit_completes
  | compareSwap => exact compareSwap_completes

/-! ## Blocks -/

theorem copyBlock_completes (change : Byte → Byte) :
    (copyBlock change instruction).Completes instruction processor memory kept := by
  refine .get (.after (readVirtual_inspects _ _ _ _) fun bytes later => ?_)
  exact .of_stores (writeVirtual_stores _ _ _ _)

theorem compareBlocks_completes (change : Byte → Byte) :
    (compareBlocks change instruction).Completes instruction processor memory kept := by
  refine .get (.after (readVirtual_inspects _ _ _ _) fun left later => ?_)
  refine .after (readVirtual_inspects _ _ _ _) fun right later => ?_
  exact .of_settles (.modified _) (Completes.registers _ _)

theorem readTable_inspects : (readTable instruction).Inspects processor kept :=
  .get (readVirtual_inspects _ _ _ _)

theorem editStep_inspects (editor : Editor) (limit : Nat) (byte operand : Word) :
    (editStep editor limit byte operand).Inspects processor kept := by
  unfold editStep
  split
  · exact .done _
  · exact Orderly.monitorFault rfl

omit [Bus μ] in
theorem editUnder_succ (limit budget : Nat) (address : VirtualAddress) (editor : Editor) :
    editUnder limit (budget + 1) address editor = (do
      let byte ← loadBytes address 1
      if byte.extractLsb' 4 4 = (0 : BitVec 4) then return editor
      else if Editor.takesOperand (byte.extractLsb' 4 4) then do
        let operand ← loadBytes (address.offset 1) 1
        let edited ← editStep editor limit byte operand
        match budget with
        | 0 => return edited
        | rest + 1 => editUnder limit rest (address.offset 2) edited
      else do
        let edited ← editStep editor limit byte 0
        editUnder limit budget (address.offset 1) edited) := by
  cases budget <;> rfl

theorem editUnder_inspects (limit budget : Nat) (address : VirtualAddress) (editor : Editor) :
    (editUnder limit budget address editor).Inspects processor kept := by
  -- An operation with an operand takes two steps of the budget.
  induction budget using Nat.strongRecOn generalizing address editor kept with
  | ind budget ih =>
    rcases budget with _ | budget
    · exact .done _
    rw [editUnder_succ]
    refine .bind (loadBytes_inspects _ _ _ _) fun byte later => ?_
    split
    · exact .done _
    split
    · refine .bind (loadBytes_inspects _ _ _ _) fun operand later => ?_
      refine .bind (editStep_inspects _ _ _ _) fun edited later => ?_
      split
      · exact .done _
      next rest => exact ih rest (by omega) _ _
    · refine .bind (editStep_inspects _ _ _ _) fun edited later => ?_
      exact ih budget (by omega) _ _

theorem block_completes (operation : BlockOperation) :
    (block operation instruction).Completes instruction processor memory kept := by
  cases operation with
  | move => exact copyBlock_completes id
  | compare => exact compareBlocks_completes id
  | compareCollated =>
    exact .after readTable_inspects fun table later => compareBlocks_completes _
  | translate => exact .after readTable_inspects fun table later => copyBlock_completes _
  | scan =>
    refine .get (.after (readVirtual_inspects _ _ _ _) fun members later => ?_)
    refine .after (readVirtual_inspects _ _ _ _) fun bytes later => ?_
    exact .of_settles (.modified _) (Completes.registers _ _)
  | edit =>
    refine .get (.after (readVirtual_inspects _ _ _ _) fun source later => ?_)
    refine .after (editUnder_inspects _ _ _ _) fun editor later => ?_
    exact .of_stores (writeVirtual_stores _ _ _ _)

end Execution

end Mainframe
