import Mainframe.Proofs.Assertions
import Mainframe.Proofs.Rings
import Mainframe.Proofs.SaveAreas

/-! The rings of pointers. What an instruction puts into an address register has at least the ring
of that instruction, so no pointer is trusted more than the code that uses it. When a direct branch
or a return raises the ring, the address registers that it does not load stay behind. -/

set_option autoImplicit false

namespace Mainframe

variable {α μ : Type}

namespace Processor

/-- The running instruction and the next one are in a ring, and every address register holds an
address of that ring or a higher one. -/
structure Floored (ring : Ring) (processor : Processor) : Prop where
  current : processor.currentAddress.ring = ring
  next : processor.nextAddress.ring = ring
  pointers : ∀ number, ring ≤ (processor.addressRegister number).ring

variable {ring : Ring} {processor : Processor}

/-! ## Restored address registers -/

theorem restoreAddresses_cases (processor : Processor) {floor : Nat} (small : floor < 16)
    {numbers : List RegisterNumber} {words : List Word} (sized : words.length = numbers.length)
    (number : RegisterNumber) :
    let restored := processor.restoreAddresses floor numbers words
    number ∈ numbers ∧ floor ≤ (restored.addressRegister number).ring.toNat ∨
      number ∉ numbers ∧ restored.addressRegister number = processor.addressRegister number := by
  induction numbers generalizing processor words with
  | nil => exact .inr ⟨List.not_mem_nil, rfl⟩
  | cons first rest ih =>
    rcases words with _ | ⟨word, words⟩
    · cases sized
    have step : processor.restoreAddresses floor (first :: rest) (word :: words) =
        (processor.withAddressRegister first
          ((VirtualAddress.ofWord word).ringAtLeast floor)).restoreAddresses floor rest words := rfl
    rw [step]
    -- What comes later for the same register counts.
    rcases ih (processor.withAddressRegister first ((VirtualAddress.ofWord word).ringAtLeast floor))
      (Nat.succ.inj sized) with ⟨later, above⟩ | ⟨outside, same⟩
    · exact .inl ⟨List.mem_cons_of_mem _ later, above⟩
    dsimp only
    rw [same, addressRegister_withAddressRegister]
    by_cases here : first = number
    · rw [if_pos here, VirtualAddress.ring_ringAtLeast _ _ small]
      exact .inl ⟨here ▸ List.mem_cons_self, Nat.le_max_right _ _⟩
    · rw [if_neg here]
      exact .inr ⟨by simp [outside, Ne.symm here], rfl⟩

/-- Even if there are too few words for them, nothing falls below the floor. -/
theorem ring_restoreAddresses (processor : Processor) {floor : Nat} (small : floor < 16)
    (numbers : List RegisterNumber) (words : List Word) (number : RegisterNumber)
    (above : floor ≤ (processor.addressRegister number).ring.toNat) :
    floor ≤ ((processor.restoreAddresses floor numbers words).addressRegister number).ring.toNat := by
  unfold restoreAddresses
  induction numbers.zip words generalizing processor with
  | nil => exact above
  | cons pair rest ih =>
    apply ih
    rw [addressRegister_withAddressRegister]
    split
    · rw [VirtualAddress.ring_ringAtLeast _ _ small]
      exact Nat.le_max_right _ _
    · exact above

/-! ## What keeps the floor -/

instance (ring : Ring) : Stable (Floored ring) where
  resembles := by
    rintro before after ⟨_, _, rfl⟩ floored
    exact ⟨floored.current, floored.next, floored.pointers⟩

namespace Floored

theorem of_eq {other : Processor} (floored : processor.Floored ring) (a : other.a = processor.a)
    (current : other.currentAddress = processor.currentAddress)
    (next : other.nextAddress = processor.nextAddress) : other.Floored ring := by
  refine ⟨current ▸ floored.current, next ▸ floored.next, fun number => ?_⟩
  have same : other.addressRegister number = processor.addressRegister number := by
    rw [addressRegister, addressRegister, a]
  rw [same]
  exact floored.pointers number

theorem withWordRegister (floored : processor.Floored ring) (number : RegisterNumber)
    (word : Word) : (processor.withWordRegister number word).Floored ring :=
  floored.of_eq rfl rfl rfl

theorem withAddressRegister (floored : processor.Floored ring) (number : RegisterNumber)
    {address : VirtualAddress} (above : ring ≤ address.ring) :
    (processor.withAddressRegister number address).Floored ring := by
  refine ⟨floored.current, floored.next, fun other => ?_⟩
  rw [addressRegister_withAddressRegister]
  split
  · exact above
  · exact floored.pointers other

theorem moved (floored : processor.Floored ring) {target : VirtualAddress}
    (same : target.ring = ring) :
    ({ processor with nextAddress := target } : Processor).Floored ring :=
  ⟨floored.current, same, floored.pointers⟩

theorem raise (floored : processor.Floored ring) (condition : Condition) :
    (processor.raise condition).Floored ring := by
  cases condition <;> exact floored.of_eq rfl rfl rfl

theorem ringAdjusted (floored : processor.Floored ring) (address : VirtualAddress) :
    ring ≤ (processor.ringAdjusted address).ring := by
  rw [← floored.current]
  exact processor.ring_ringAdjusted address

theorem restore (floored : processor.Floored ring) (ranges : RegisterRanges) (words : List Word) :
    (ranges.restore processor words).Floored ring := by
  unfold RegisterRanges.restore
  have addresses (number : RegisterNumber) := processor.ring_restoreAddresses
    processor.currentAddress.ring.isLt ranges.addresses words number
    (by rw [floored.current]; exact floored.pointers number)
  obtain ⟨a, same⟩ := processor.restoreAddresses_eq processor.currentAddress.ring.toNat
    ranges.addresses words
  rw [same] at addresses ⊢
  obtain ⟨x, same⟩ := restoreWords_eq { processor with a } ranges.words
    (words.drop ranges.addresses.length)
  rw [same]
  refine ⟨floored.current, floored.next, fun number => ?_⟩
  rw [BitVec.le_def, ← floored.current]
  exact addresses number

theorem activate (floored : processor.Floored ring) {frame top : VirtualAddress} (here : Ring)
    (save : ring ≤ frame.ring) (stack : ring ≤ top.ring) :
    (processor.activate frame top here here).Floored ring := by
  unfold Processor.activate
  dsimp only
  obtain ⟨stackTops, recorded⟩ := processor.withStackTop_eq here.toNat top
  rw [recorded, if_pos rfl]
  have begun (largestRing : Byte) : ({ processor with
      stackTops, largestRing, flags := .clear } : Processor).Floored ring :=
    floored.of_eq rfl rfl rfl
  exact (((begun _).withAddressRegister 0 stack).withAddressRegister 1 stack).withAddressRegister 2
    save

end Floored

end Processor

/-! ## Instructions -/

namespace Execution

variable {ring : Ring} {instruction : Instruction}

/-- The execution leaves no address register below the ring that it runs in. -/
abbrev KeepsFloor (ring : Ring) (execution : Execution α) : Prop :=
  execution.Preserves .any (Processor.Floored ring)

/-! ### Computations -/

theorem ring_outcome {processor : Processor} (floored : processor.Floored ring)
    {computation : Computation} {number : RegisterNumber} {value : VirtualAddress}
    (address : computation.outcome processor instruction = .address number value) :
    ring ≤ value.ring := by
  -- Numbers and fields never go into an address register.
  have result (place : RegisterNumber) (word : Except UserCondition Word) :
      Outcome.ofResult place word ≠ .address number value := by
    cases word <;> exact Outcome.noConfusion
  have field (word : BitField → Word) :
      processor.fieldOutcome instruction word ≠ .address number value := by
    unfold Processor.fieldOutcome
    split <;> exact Outcome.noConfusion
  cases computation
  case copyAddress | wordToAddress =>
    cases address
    exact floored.ringAdjusted _
  case addWordToAddress | addDisplacementToAddress | addIndexedToAddress =>
    cases address
    exact floored.pointers _
  case addToProgramAddress =>
    cases address
    exact BitVec.le_of_eq floored.current.symm
  case fieldMask | isolateField | insertField => exact (field _ address).elim
  case enterFill =>
    unfold Computation.outcome Processor.fillOutcome at address
    dsimp only at address
    split at address <;> cases address
  case integer | floating | integerToFloating | floatingToInteger | compare =>
    exact (result _ _ address).elim
  all_goals cases address

theorem compute_keepsFloor (computation : Computation) :
    (compute computation instruction).KeepsFloor ring := by
  refine .get fun before floored => ?_
  cases outcome : computation.outcome before instruction with
  | word number value => exact .modified fun _ floored => floored.withWordRegister number value
  | address number value =>
    have above := ring_outcome floored outcome
    exact .modified fun _ floored => floored.withAddressRegister number above
  | missing condition => exact .raise (fun _ => trivial) fun _ floored => floored.raise _
  | refused condition => exact .monitorFault trivial

/-! ### Storage and blocks -/

theorem lockBit_keepsFloor : (lockBit instruction).KeepsFloor ring := by
  refine .get fun before _ => ?_
  refine .bind (translate_preserves _ rfl) fun real => ?_
  refine .bind (.silent (.modifyWord trivial _)) fun old => ?_
  exact .modified fun _ floored => floored.withWordRegister _ _

theorem compareSwap_keepsFloor : (compareSwap instruction).KeepsFloor ring := by
  refine .get fun before _ => ?_
  extract_lets address expected swap
  have swapped : (swap ()).KeepsFloor ring := by
    refine .bind (translate_preserves _ rfl) fun real => ?_
    refine .bind (.silent (.modifyWord trivial _)) fun old => .modified fun _ floored => ?_
    split
    · exact floored.withWordRegister _ _
    · exact (floored.withWordRegister _ _).withWordRegister _ _
  split
  · exact .failThen (.faultAt _ trivial)
  · exact swapped

theorem storage_keepsFloor (operation : Storage) :
    (storage operation instruction).KeepsFloor ring := by
  cases operation with
  | loadWord addressing =>
    refine .get fun before _ => .bind (loadWord_preserves _) fun word => ?_
    exact .modified fun _ floored => floored.withWordRegister _ _
  | storeWord addressing => exact .get fun before _ => storeWord_preserves _ _
  | loadAddress addressing =>
    refine .get fun before _ => .bind (loadWord_preserves _) fun word => ?_
    exact .modified fun _ floored => floored.withAddressRegister _ (floored.ringAdjusted _)
  | storeAddress addressing => exact .get fun before _ => storeWord_preserves _ _
  | loadBytes length =>
    refine .get fun before _ => .bind (loadBytes_preserves _ _) fun word => ?_
    exact .modified fun _ floored => floored.withWordRegister _ _
  | storeBytes length => exact .get fun before _ => storeBytes_preserves _ _ _
  | loadMultiple =>
    refine .get fun before _ => .bind (loadWords_preserves _ _) fun words => ?_
    exact .modified fun _ floored => floored.restore _ _
  | storeMultiple =>
    refine .get fun before _ => .bind ?_ fun top => .pure fun _ => id
    exact (storeWords_ensures _ _).mono fun _ _ ends => ends.1
  | loadBit =>
    refine .get fun before _ => .bind (loadBytes_preserves _ _) fun byte => ?_
    exact .modified fun _ floored => floored.withWordRegister _ _
  | storeBit =>
    refine .get fun before _ => .bind (loadBytes_preserves _ _) fun byte => ?_
    exact storeBytes_preserves _ _ _
  | lockBit => exact lockBit_keepsFloor
  | compareSwap => exact compareSwap_keepsFloor

theorem readTable_keepsFloor : (readTable instruction).KeepsFloor ring :=
  .get fun _ _ => readVirtual_preserves _ _

theorem copyBlock_keepsFloor (change : Byte → Byte) :
    (copyBlock change instruction).KeepsFloor ring := by
  refine .get fun before _ => .bind (readVirtual_preserves _ _) fun bytes => ?_
  exact writeVirtual_preserves _ _

theorem compareBlocks_keepsFloor (change : Byte → Byte) :
    (compareBlocks change instruction).KeepsFloor ring := by
  refine .get fun before _ => .bind (readVirtual_preserves _ _) fun left => ?_
  refine .bind (readVirtual_preserves _ _) fun right => ?_
  exact .modified fun _ floored => (floored.withWordRegister _ _).withWordRegister _ _

theorem editStep_keepsFloor (editor : Editor) (limit : Nat) (byte operand : Word) :
    (editStep editor limit byte operand).KeepsFloor ring := by
  unfold editStep
  split
  · exact .pure fun _ => id
  · exact .monitorFault trivial

theorem editUnder_keepsFloor (limit budget : Nat) (address : VirtualAddress) (editor : Editor) :
    (editUnder limit budget address editor).KeepsFloor ring := by
  -- An operation with an operand takes two steps of the budget.
  induction budget using Nat.strongRecOn generalizing address editor with
  | ind budget ih =>
    rcases budget with _ | budget
    · exact .pure fun _ => id
    rw [editUnder_succ]
    refine .bind (loadBytes_preserves _ _) fun byte => ?_
    split
    · exact .pure fun _ => id
    split
    · refine .bind (loadBytes_preserves _ _) fun operand => ?_
      refine .bind (editStep_keepsFloor _ _ _ _) fun edited => ?_
      split
      · exact .pure fun _ => id
      · next rest => exact ih rest (by omega) _ _
    · refine .bind (editStep_keepsFloor _ _ _ _) fun edited => ?_
      exact ih budget (by omega) _ _

theorem block_keepsFloor (operation : BlockOperation) :
    (block operation instruction).KeepsFloor ring := by
  cases operation with
  | move => exact copyBlock_keepsFloor id
  | compare => exact compareBlocks_keepsFloor id
  | compareCollated => exact .bind readTable_keepsFloor fun table => compareBlocks_keepsFloor _
  | translate => exact .bind readTable_keepsFloor fun table => copyBlock_keepsFloor _
  | scan =>
    refine .get fun before _ => .bind (readVirtual_preserves _ _) fun members => ?_
    refine .bind (readVirtual_preserves _ _) fun bytes => ?_
    exact .modified fun _ floored => (floored.withWordRegister _ _).withWordRegister _ _
  | edit =>
    refine .get fun before _ => .bind (readVirtual_preserves _ _) fun source => ?_
    refine .bind (editUnder_keepsFloor _ _ _ _) fun editor => ?_
    exact writeVirtual_preserves _ _

/-! ### Governing the processor -/

theorem requirePrivilege_keepsFloor (level : ExecutePrivilege) :
    (requirePrivilege level).KeepsFloor ring := by
  refine .get fun before _ => ?_
  split
  · exact .userFault trivial
  · exact .pure fun _ => id

theorem stateRegisterOperand_keepsFloor :
    (stateRegisterOperand instruction).KeepsFloor ring := by
  refine .get fun before _ => ?_
  split
  · exact .monitorFault trivial
  split
  · exact .bind (requirePrivilege_keepsFloor _) fun _ => .pure fun _ => id
  · exact .pure fun _ => id

theorem setStateRegister_keepsFloor (register : StateRegister) (word : Word) :
    (liftM (Routine.setStateRegister register word) : Execution Unit).KeepsFloor ring := by
  refine .of_settles (fun processor => setStateRegister_settles register word)
    fun processor floored => ?_
  obtain ⟨_, _, _, same⟩ := processor.governed_eq register word
  rw [same]
  cases register <;> exact floored.of_eq rfl rfl rfl

theorem askPageTable_keepsFloor (answer : Option PageLookup → Word) :
    (askPageTable answer instruction).KeepsFloor ring := by
  refine .bind (requirePrivilege_keepsFloor _) fun _ => .get fun before _ => ?_
  refine .bind (.silent (before.translation.probe_reads _).silent) fun found => ?_
  exact .modified fun _ floored => floored.withWordRegister _ _

theorem keypoint_keepsFloor : (keypoint instruction).KeepsFloor ring := by
  refine .get fun before floored => .bind (.report trivial) fun _ => ?_
  split
  · have classed (left : Processor) (same : left.Floored ring) :
        (MonadStateOf.set left : Execution PUnit).KeepsFloor ring := .set fun _ _ => same
    refine .bind (classed _ (floored.of_eq rfl rfl rfl)) fun _ => ?_
    exact .raise (fun _ => trivial) fun _ floored => floored.raise _
  · exact .pure fun _ => id

theorem control_keepsFloor (operation : Control) :
    (control operation instruction).KeepsFloor ring := by
  cases operation with
  | halt =>
    refine .bind (requirePrivilege_keepsFloor _) fun _ => ?_
    exact .modified fun _ floored => floored.of_eq rfl rfl rfl
  | synchronize => exact .pure fun _ => id
  | exchange =>
    refine .get fun before _ => ?_
    split
    · exact .modified fun _ floored => floored.of_eq rfl rfl rfl
    · exact .raise (fun _ => trivial) fun _ floored => floored.raise _
  | interruptProcessor =>
    refine .bind (requirePrivilege_keepsFloor _) fun _ => ?_
    exact .modified fun _ floored => floored.of_eq rfl rfl rfl
  | readStateRegister =>
    refine .bind stateRegisterOperand_keepsFloor fun register => ?_
    exact .modified fun _ floored => floored.withWordRegister _ _
  | writeStateRegister =>
    refine .bind stateRegisterOperand_keepsFloor fun register => .get fun before _ => ?_
    exact setStateRegister_keepsFloor _ _
  | purge => exact requirePrivilege_keepsFloor _
  | testPage =>
    unfold control testPage
    exact askPageTable_keepsFloor _
  | locatePage =>
    unfold control locatePage
    exact askPageTable_keepsFloor _
  | keypoint => exact keypoint_keepsFloor
  | executeAlgorithm => exact .monitorFault trivial

/-! ### Transfers -/

theorem branchIf_keepsFloor (taken : Bool) : (branchIf taken instruction).KeepsFloor ring := by
  cases taken with
  | true =>
    refine .get fun before here => ?_
    exact .modified fun _ floored => floored.moved here.current
  | false => exact .pure fun _ => id

theorem branch_keepsFloor (reading : Reading) (relation : Relation) :
    (branch reading relation instruction).KeepsFloor ring := by
  refine .get fun before _ => ?_
  split
  · exact branchIf_keepsFloor _
  · exact .raise (fun _ => trivial) fun _ floored => floored.raise _

theorem branchCondition_keepsFloor : (branchCondition instruction).KeepsFloor ring := by
  refine .get fun before floored => ?_
  extract_lets condition clear
  have cleared : (before.withoutCondition condition).Floored ring := by
    cases condition <;> exact floored.of_eq rfl rfl rfl
  have rest : (clear ()).KeepsFloor ring :=
    .bind (.set fun _ _ => cleared) fun _ => branchIf_keepsFloor _
  split
  · exact .failThen (.userFault trivial)
  · exact rest

theorem call_ensures (length : Nat) {entry : EntryPoint} {argument : VirtualAddress}
    (above : ring ≤ argument.ring)
    (bound : ∀ binding, entry.binding = some binding → ring ≤ binding.ring) :
    (call length entry argument).Ensures .any (Processor.Floored ring) fun _ left =>
      left.nextAddress = entry.target ∧ (entry.target.ring = ring → left.Floored ring) := by
  refine .get fun caller floored => ?_
  have save := floored.pointers 0
  refine .bind (storeWords_ensures _ _) fun top => ?_
  refine .bind (.modified ?_) fun _ => .report trivial
  rintro processor ⟨here, stacked⟩
  refine ⟨rfl, fun same => ?_⟩
  -- Within one ring the callee goes on with the stack of the caller, above the save area.
  have stack : ring ≤ top.ring := by
    rw [stacked]
    exact save
  have entered := here.activate ring save stack
  rw [floored.current, same]
  refine Processor.Floored.moved (.withAddressRegister ?_ _ above) same
  unfold Processor.bound
  rcases binding : entry.binding with _ | address
  · exact entered
  · exact entered.withAddressRegister 3 (bound address binding)

theorem callRelative_keepsFloor : (callRelative instruction).KeepsFloor ring := by
  refine .get fun before floored => ?_
  refine (call_ensures _ (floored.pointers _) fun _ same => by cases same).mono fun _ left ends => ?_
  exact ends.2 floored.current

theorem callSegment_ensures :
    (callSegment instruction).Ensures .any (Processor.Floored ring) fun _ left =>
      left.nextAddress.ring = ring → left.Floored ring := by
  refine .get fun before floored => ?_
  refine .bind (resolveEntry_ensures _ before.currentAddress.ring.isLt true)
    fun entry processor starts => ?_
  obtain ⟨here, bound⟩ := starts
  have above (binding : VirtualAddress) (isBound : entry.binding = some binding) :
      ring ≤ binding.ring := by
    rw [BitVec.le_def, ← floored.current]
    exact bound binding isBound
  refine (call_ensures _ (floored.pointers _) above).mono ?_ processor here
  rintro _ left ⟨target, keeps⟩ same
  exact keeps (target ▸ same)

theorem popFrame_keepsFloor : popFrame.KeepsFloor ring := by
  refine .get fun callee floored => ?_
  have frame := floored.pointers 2
  refine .bind (loadWord_preserves _) fun zeroth => ?_
  extract_lets drop
  have dropped : (drop ()).KeepsFloor ring := by
    refine .bind (loadWord_preserves _) fun second => ?_
    refine .bind (loadWord_preserves _) fun third => .modified fun processor floored => ?_
    have stack := floored.withAddressRegister 0 frame
    have link := stack.withAddressRegister 1 (floored.ringAdjusted (.ofWord second))
    exact link.withAddressRegister 2 (floored.ringAdjusted (.ofWord third))
  split
  · exact .failThen (.userFault trivial)
  · exact dropped

/-- Direct branches, far calls and returns may go on in another ring. -/
def ChangesRing (operation : Operation) : Prop :=
  operation = .transfer .branchDirect ∨ operation = .transfer .callSegment ∨
    operation = .transfer .returnFromCall

theorem operate_keepsFloor {operation : Operation} (stays : ¬ ChangesRing operation) :
    (operate operation instruction).KeepsFloor ring := by
  cases operation with
  | compute operation => exact compute_keepsFloor operation
  | storage operation => exact storage_keepsFloor operation
  | block operation => exact block_keepsFloor operation
  | control operation => exact control_keepsFloor operation
  | transfer operation =>
    cases operation with
    | branch reading relation => exact branch_keepsFloor reading relation
    | branchCounting =>
      have counted : (modify fun processor => processor.withWordRegister instruction.k
          (processor.wordRegister instruction.k + 1) : Execution Unit).KeepsFloor ring :=
        .modified fun _ floored => floored.withWordRegister _ _
      exact .bind counted fun _ => .get fun before _ => branchIf_keepsFloor _
    | branchSegment => exact .get fun before _ => branchIf_keepsFloor _
    | branchCondition => exact branchCondition_keepsFloor
    | branchRelative =>
      refine .get fun before here => ?_
      exact .modified fun _ floored => floored.moved here.current
    | branchDirect => exact absurd (.inl rfl) stays
    | callRelative => exact callRelative_keepsFloor
    | callSegment => exact absurd (.inr (.inl rfl)) stays
    | returnFromCall => exact absurd (.inr (.inr rfl)) stays
    | popFrame => exact popFrame_keepsFloor

end Execution

/-! ## Returns -/

namespace Processor

/-- A return gives the registers that its frame keeps at least the ring that it goes back to. The
others it does not touch. -/
theorem resume_pointers (processor : Processor) (frame returnAddress : VirtualAddress)
    (first second third : Word) {addresses : List Word} (words : List Word)
    (sized : addresses.length =
      (FrameDescriptor.ofBits (tagOf second)).range.addressNumbers.length)
    (number : RegisterNumber) :
    let resumed := processor.resume frame returnAddress first second third addresses words
    returnAddress.ring ≤ (resumed.addressRegister number).ring ∨
      2 < number ∧ (FrameDescriptor.ofBits (tagOf second)).range.lastAddress < number ∧
        resumed.addressRegister number = processor.addressRegister number := by
  intro resumed
  generalize frameRange : (FrameDescriptor.ofBits (tagOf second)).range = range at sized ⊢
  -- The floor is not below the ring of the return address.
  obtain ⟨floor, isFloor⟩ : ∃ floor, floor = max frame.ring.toNat returnAddress.ring.toNat :=
    ⟨_, rfl⟩
  have small : floor < 16 := by
    have frameRing := frame.ring.isLt
    have returnRing := returnAddress.ring.isLt
    omega
  have enough (address : VirtualAddress) (above : floor ≤ address.ring.toNat) :
      returnAddress.ring ≤ address.ring := by
    rw [BitVec.le_def]
    omega
  obtain ⟨recorded, same, registers⟩ : ∃ recorded : Processor,
      (∀ number, recorded.addressRegister number = processor.addressRegister number) ∧
      ∀ number, resumed.addressRegister number =
        ((recorded.restoreAddresses floor [0, 1, 2] [first, second, third]).restoreAddresses floor
          range.addressNumbers addresses).addressRegister number := by
    refine ⟨if returnAddress.ring = processor.currentAddress.ring then processor
      else processor.withStackTop processor.currentAddress.ring.toNat
        (processor.addressRegister 0), fun number => ?_, fun number => ?_⟩
    · split
      · rfl
      · obtain ⟨stackTops, same⟩ := processor.withStackTop_eq
          processor.currentAddress.ring.toNat (processor.addressRegister 0)
        rw [same]
        rfl
    · rw [isFloor, ← frameRange]
      exact addressRegister_restoreWords _ _ _ _
  -- A register is restored with the range, with the first three, or not at all.
  rw [registers]
  rcases restoreAddresses_cases (recorded.restoreAddresses floor [0, 1, 2]
    [first, second, third]) small sized number with ⟨-, above⟩ | ⟨beyond, unchanged⟩
  · exact .inl (enough _ above)
  rw [unchanged]
  have three : [first, second, third].length = [(0 : RegisterNumber), 1, 2].length := rfl
  rcases recorded.restoreAddresses_cases small three number with ⟨-, above⟩ | ⟨later, unchanged⟩
  · exact .inl (enough _ above)
  have above : ∀ other : RegisterNumber, other ∉ [(0 : RegisterNumber), 1, 2] → 2 < other := by
    decide
  refine .inr ⟨above number later, ?_, unchanged.trans (same number)⟩
  rw [SavedRange.addressNumbers, mem_registersBetween] at beyond
  exact BitVec.not_le.mp fun inside => beyond ⟨above number later, inside⟩

theorem addressRegister_leaving (callee : Processor) (zeroth first second third : Word)
    (addresses words : List Word) (number : RegisterNumber) :
    (callee.leaving zeroth first second third addresses words).addressRegister number =
      (callee.resume (callee.addressRegister 2) (.ofWord zeroth) first second third addresses
        words).addressRegister number := by
  have returned : (callee.returned zeroth first second third addresses words).addressRegister
      number = (callee.resume (callee.addressRegister 2) (.ofWord zeroth) first second third
        addresses words).addressRegister number := by
    unfold Processor.returned
    dsimp only
    split <;> rfl
  obtain ⟨_, _, _, _, same⟩ := callee.leaving_returned zeroth first second third addresses words
  rw [same, ← returned]
  rfl

theorem nextAddress_leaving (callee : Processor) (zeroth first second third : Word)
    (addresses words : List Word) :
    (callee.leaving zeroth first second third addresses words).nextAddress = .ofWord zeroth := by
  obtain ⟨_, _, _, _, _, _, _, _, _, same⟩ :=
    callee.leaving_eq zeroth first second third addresses words
  rw [same]

theorem FaultedWith.addressRegister_eq {before after : Processor} {condition : Condition}
    (faulted : before.FaultedWith condition after) (number : RegisterNumber) :
    after.addressRegister number = before.addressRegister number := by
  obtain ⟨_, _, _, _, _, _, _, _, rfl⟩ := faulted.retains
  cases condition <;> rfl

end Processor

/-! ## Completed instructions -/

namespace Execution

variable [Bus μ] {ring : Ring} {instruction : Instruction} {running left : Processor}
  {memory kept : μ}

/-- The ring has risen past an address register that a direct branch, which changes none, or a
return has left as it was. -/
structure Passes (ring : Ring) (instruction : Instruction) (running : Processor) (memory : μ)
    (left : Processor) (kept : μ) (number : RegisterNumber) : Prop where
  rises : ring < left.nextAddress.ring
  same : left.addressRegister number = running.addressRegister number
  cause : Operation.ofOpcode instruction.opcode = some (.transfer .branchDirect) ∨
    Operation.ofOpcode instruction.opcode = some (.transfer .returnFromCall) ∧
      ∃ zeroth first second third addresses words,
        ReturnsBy running memory zeroth first second third addresses words kept ∧
        2 < number ∧ (FrameDescriptor.ofBits (tagOf second)).range.lastAddress < number

theorem rises_of_not_le {register : VirtualAddress} (above : ring ≤ register.ring)
    (behind : ¬ left.nextAddress.ring ≤ register.ring) : ring < left.nextAddress.ring := by
  rw [BitVec.le_def] at above behind
  rw [BitVec.lt_def]
  omega

theorem branchDirect_pointers (floored : running.Floored ring)
    (operation : Operation.ofOpcode instruction.opcode = some (.transfer .branchDirect))
    (ending : (execute instruction).ending running memory = ((.ok (), left), kept))
    (number : RegisterNumber) :
    left.nextAddress.ring ≤ (left.addressRegister number).ring ∨
      Passes ring instruction running memory left kept number := by
  have settles : (branchDirect instruction).Settles running () { running with
      nextAddress := running.ringAdjusted ((running.addressRegister instruction.j).offset
        (Word.rightSigned (running.wordRegister instruction.k))) } := .get (.modified _)
  have ended := Activity.Reports.perform_eq settles memory
  have branches : execute instruction = branchDirect instruction := execute_transfer operation
  rw [branches] at ending
  obtain ⟨same, -⟩ := Prod.mk.inj (ended.symm.trans ending)
  have same : { running with
      nextAddress := running.ringAdjusted ((running.addressRegister instruction.j).offset
        (Word.rightSigned (running.wordRegister instruction.k))) } = left :=
    (Prod.mk.inj same).2
  have register : left.addressRegister number = running.addressRegister number := by
    rw [← same]
    rfl
  by_cases reaches : left.nextAddress.ring ≤ (left.addressRegister number).ring
  · exact .inl reaches
  · rw [register] at reaches
    exact .inr ⟨rises_of_not_le (floored.pointers number) reaches, register, .inl operation⟩

theorem returnFromCall_pointers (floored : running.Floored ring)
    (operation : Operation.ofOpcode instruction.opcode = some (.transfer .returnFromCall))
    (ending : (execute instruction).ending running memory = ((.ok (), left), kept))
    (number : RegisterNumber) :
    left.nextAddress.ring ≤ (left.addressRegister number).ring ∨
      Passes ring instruction running memory left kept number := by
  have returns : execute instruction = returnFromCall := execute_transfer operation
  rw [returns] at ending
  obtain ⟨zeroth, first, second, third, addresses, words, returnsBy, rfl⟩ :=
    returnFromCall_orderly.completed ending
  rw [Processor.nextAddress_leaving, Processor.addressRegister_leaving]
  rcases running.resume_pointers (running.addressRegister 2) (.ofWord zeroth) first second third
    words returnsBy.sized number with above | ⟨later, beyond, same⟩
  · exact .inl above
  by_cases reaches : (VirtualAddress.ofWord zeroth).ring ≤ (running.addressRegister number).ring
  · rw [same]
    exact .inl reaches
  · refine .inr ⟨?_, ?_, .inr ⟨operation, _, _, second, _, _, _, returnsBy, later, beyond⟩⟩
    · rw [Processor.nextAddress_leaving]
      rw [BitVec.le_def] at reaches
      rw [BitVec.lt_def]
      exact Nat.lt_of_le_of_lt (floored.pointers number) (Nat.not_le.mp reaches)
    · rw [Processor.addressRegister_leaving]
      exact same

theorem callSegment_pointers (floored : running.Floored ring)
    (operation : Operation.ofOpcode instruction.opcode = some (.transfer .callSegment))
    (ending : (execute instruction).ending running memory = ((.ok (), left), kept)) :
    left.nextAddress.ring < ring ∨ left.Floored ring := by
  rw [execute_callSegment operation] at ending
  have keeps := callSegment_ensures.completed floored ending
  obtain ⟨entry, word, segment, top, argument, resolves, called⟩ :=
    callSegment_orderly.completed ending
  -- A call never leads outward.
  have inward : left.nextAddress.ring ≤ ring := by
    rw [called, Processor.nextAddress_called, ← floored.current, BitVec.le_def,
      resolves.ring_target running.currentAddress.ring.isLt]
    exact resolves.notOutward
  rcases Nat.lt_or_eq_of_le inward with lower | same
  · exact .inl lower
  · exact .inr (keeps (BitVec.eq_of_toNat_eq same))

theorem execute_pointers (floored : running.Floored ring)
    (ending : (execute instruction).ending running memory = ((.ok (), left), kept)) :
    (left.nextAddress.ring < ring ∧
      Operation.ofOpcode instruction.opcode = some (.transfer .callSegment)) ∨
    ∀ number, left.nextAddress.ring ≤ (left.addressRegister number).ring ∨
      Passes ring instruction running memory left kept number := by
  have within (floored : left.Floored ring) (number : RegisterNumber) :
      left.nextAddress.ring ≤ (left.addressRegister number).ring := by
    rw [floored.next]
    exact floored.pointers number
  rcases assigned : Operation.ofOpcode instruction.opcode with _ | operation
  · unfold execute at ending
    rw [assigned] at ending
    cases ending
  -- An instruction that stays in its ring keeps the floor; the other three are dealt with apart.
  by_cases changes : ChangesRing operation
  · rcases changes with rfl | rfl | rfl
    · exact .inr (branchDirect_pointers floored assigned ending)
    · exact (callSegment_pointers floored assigned ending).imp (⟨·, rfl⟩)
        fun floored number => .inl (within floored number)
    · exact .inr (returnFromCall_pointers floored assigned ending)
  · have carried : execute instruction = operate operation instruction := by
      unfold execute
      rw [assigned]
    rw [carried] at ending
    have floored := (operate_keepsFloor changes).completed floored ending
    exact .inr fun number => .inl (within floored number)

end Execution

/-! ## Steps -/

variable [Bus μ]

theorem Fetches.floored {processor fetched : Processor} {memory middle : μ}
    {instruction : Instruction} (fetches : Fetches processor memory instruction fetched middle)
    (pointers : ∀ number, processor.p.ring ≤ (processor.addressRegister number).ring) :
    (fetched.withInstruction instruction).Floored processor.p.ring := by
  obtain ⟨current, next⟩ := fetches.currentAddress_eq
  refine ⟨by rw [current], by rw [next]; rfl, ?_⟩
  obtain ⟨_, _, rfl⟩ := fetches.resembles
  exact pointers

structure LeftBehind (before : Processor) (memory : μ) (after : Processor)
    (number : RegisterNumber) : Prop where
  cause : ∃ instruction fetched middle left kept,
    Fetches before memory instruction fetched middle ∧
    (Execution.execute instruction).ending (fetched.withInstruction instruction) middle =
      ((.ok (), left), kept) ∧
    Execution.Passes before.p.ring instruction (fetched.withInstruction instruction) middle left kept
      number
  rises : before.p.ring < after.p.ring
  same : after.addressRegister number = before.addressRegister number

namespace Routine

variable {before : Processor}

/-- No address register falls below the ring of the next instruction, unless that ring is lower by
a call through a gate, or has risen past a register that the step has left as it was. -/
theorem pointer_rings (dispatches : before.Dispatches)
    (pointers : ∀ number, before.p.ring ≤ (before.addressRegister number).ring) (memory : μ) :
    let after := ((step.run before).perform memory).1.2
    (after.p.ring < before.p.ring ∧
      ∃ instruction fetched middle, CallsSegment before memory instruction fetched middle) ∨
    ∀ number, after.p.ring ≤ (after.addressRegister number).ring ∨
      LeftBehind before memory after number := by
  intro after
  have stays {condition : Condition} (faulted : before.FaultedWith condition after)
      (number : RegisterNumber) : after.p.ring ≤ (after.addressRegister number).ring := by
    rw [faulted.p_eq, faulted.addressRegister_eq]
    exact pointers number
  -- A fault leaves both the address and the registers.
  cases step_ends dispatches memory with
  | unfetched condition left kept fetching aborted faulted =>
    exact .inr fun number => .inl (stays faulted number)
  | faulted instruction fetched left middle kept condition fetches ending executed faulted =>
    exact .inr fun number => .inl (stays faulted number)
  | completed instruction fetched left middle kept fetches ending completion executed last =>
    have committed : after = left.commit true := last
    have registers (number : RegisterNumber) :
        (fetched.withInstruction instruction).addressRegister number =
          before.addressRegister number := by
      obtain ⟨_, _, rfl⟩ := fetches.resembles
      rfl
    rw [committed]
    rcases Execution.execute_pointers (fetches.floored pointers) ending with
      ⟨lower, operation⟩ | reaches
    · exact .inl ⟨lower, instruction, fetched, middle, fetches, operation, left, kept, ending⟩
    · refine .inr fun number => (reaches number).imp_right fun passes => ?_
      exact {
        cause := ⟨instruction, fetched, middle, left, kept, fetches, ending, passes⟩
        rises := passes.rises
        same := passes.same.trans (registers number) }

def branchingJob : Processor := smallJob.withAddressRegister 1 ⟨13, 0, 0x200⟩

def branchingMemory : CyclicMemory :=
  ⟨4096, ((WordStore.empty.set 0 0x6ABB000000000000).set 512 0x8000000000000010).set 1024
    0x2F10000000000000⟩

/-- The instruction is a return to ring thirteen, by a frame with the first three address
registers. -/
def outwardMemory : CyclicMemory :=
  ⟨4096, ((((((WordStore.empty.set 0 0x6ABB000000000000).set 512 0x8000000000000010).set 1024
    0x0400000000000000).set 1056 0x0000D00000000040).set 1057 0x0000B00000000100).set 1058
    0x0200B00000000100).set 1059 0xFFFFB00000000100⟩

theorem branchingJob_leavesBehind :
    branchingJob.Dispatches ∧
      (∀ number, branchingJob.p.ring ≤ (branchingJob.addressRegister number).ring) ∧
      LeftBehind branchingJob branchingMemory
        ((step.run branchingJob).perform branchingMemory).1.2 0 := by
  have dispatches : branchingJob.Dispatches := ⟨rfl, rfl, by decide⟩
  have pointers : ∀ number, branchingJob.p.ring ≤ (branchingJob.addressRegister number).ring := by
    decide
  refine ⟨dispatches, pointers, ?_⟩
  rcases pointer_rings dispatches pointers branchingMemory with ⟨lower, -⟩ | reaches
  · exact absurd lower (by decide +kernel)
  rcases reaches 0 with above | behind
  · exact absurd above (by decide +kernel)
  · exact behind

/-- A direct branch and a return raise the ring past the first and the last address register. -/
theorem rising_ring_passes :
    (branchingJob.Dispatches ∧
      (∀ number, branchingJob.p.ring ≤ (branchingJob.addressRegister number).ring) ∧
      let after := ((step.run branchingJob).perform branchingMemory).1.2
      branchingJob.p.ring < after.p.ring ∧ (after.addressRegister 0).ring < after.p.ring) ∧
    (smallJob.Dispatches ∧
      (∀ number, smallJob.p.ring ≤ (smallJob.addressRegister number).ring) ∧
      let after := ((step.run smallJob).perform outwardMemory).1.2
      smallJob.p.ring < after.p.ring ∧ (after.addressRegister 15).ring < after.p.ring) :=
  ⟨⟨⟨rfl, rfl, by decide⟩, by decide, by decide +kernel⟩,
    ⟨⟨rfl, rfl, by decide⟩, by decide, by decide +kernel⟩⟩

end Routine

end Mainframe
