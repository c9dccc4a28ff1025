import Mainframe.Proofs.Completion

/-! The conduct of branches, calls and returns. Nothing changes before the last thing that can
fail, and a call or return has followed every word that it went by. -/

set_option autoImplicit false

namespace Mainframe

namespace Processor

@[simp] theorem currentAddress_withoutCondition (processor : Processor) (condition : Condition) :
    (processor.withoutCondition condition).currentAddress = processor.currentAddress := by
  cases condition <;> rfl

@[simp] theorem nextAddress_withoutCondition (processor : Processor) (condition : Condition) :
    (processor.withoutCondition condition).nextAddress = processor.nextAddress := by
  cases condition <;> rfl

theorem ring_ringAdjusted (processor : Processor) (address : VirtualAddress) :
    processor.currentAddress.ring ≤ (processor.ringAdjusted address).ring := by
  have raised := address.ring_ringAtLeast processor.currentAddress.ring.toNat (BitVec.isLt _)
  rw [BitVec.le_def, ringAdjusted, raised]
  exact Nat.le_max_right _ _

end Processor

namespace Execution

variable {μ : Type} [Bus μ] {processor : Processor} {memory kept : μ}
  {instruction : Instruction}

/-! ## Code base pointers -/

theorem segmentDescriptor_checks (segment : Nat) :
    (liftM (processor.translation.segmentDescriptor segment) :
      Execution (Option SegmentDescriptor)).Checks processor memory fun found =>
        processor.translation.descriptorAt memory segment = found :=
  Orderly.mono (Checks.reading (processor.translation.segmentDescriptor_reads segment))
    fun _ _ _ ⟨same, unchanged, found⟩ => ⟨same, unchanged, found.symm⟩

theorem segmentWith_checks (test : SegmentDescriptor → Bool) {refusal : MonitorCondition}
    (error : refusal.policy = .monitorError) (address : VirtualAddress) :
    (segmentWith test refusal address).Checks processor memory fun descriptor =>
      processor.translation.descriptorAt memory address.segment.toNat = some descriptor ∧
        test descriptor = true := by
  apply Orderly.get
  apply (segmentDescriptor_checks _).andThen
  intro result found
  cases result with
  | none => exact Orderly.faultAt address error
  | some descriptor =>
    dsimp only
    split
    · next passes => exact Checks.done ⟨found, passes⟩
    · exact Orderly.faultAt address error

theorem requireBindingSection_checks (address : VirtualAddress) :
    (requireBindingSection address).Checks processor memory fun _ =>
      processor.translation.BindsAt memory address := by
  apply (segmentWith_checks _ rfl address).andThen
  rintro descriptor ⟨found, binds⟩
  simp only [Bool.and_eq_true] at binds
  exact Checks.done ⟨descriptor, found, binds⟩

theorem resolveEntry_orderly (pointer : VirtualAddress) (ring : Nat) (guarded : Bool) :
    (resolveEntry pointer ring guarded).Orderly processor memory fun entry left _ =>
      left = processor ∧
        ∃ word segment, Resolves processor memory pointer ring guarded word segment entry := by
  unfold resolveEntry
  extract_lets follow
  -- With and without the guard the same follows.
  suffices followed : (guarded = true → processor.translation.BindsAt memory pointer) →
      (follow ()).Orderly processor memory fun entry left _ => left = processor ∧
        ∃ word segment, Resolves processor memory pointer ring guarded word segment entry by
    split
    · apply (requireBindingSection_checks pointer).andThen
      intro _ binds
      exact followed fun _ => binds
    · next unguarded => exact followed fun isGuarded => absurd isGuarded unguarded
  intro binds
  apply (loadWord_inspects processor memory pointer).andThen
  intro word later marks loaded
  extract_lets code finish enter
  split
  · exact .failThen (.faultAt pointer rfl)
  next valid =>
  -- Whether the pointer is external or not, it ends with the segment of the code.
  have finished : ∀ binding (last : μ), OnlyMarks memory last →
      (finish binding).Orderly processor last fun entry left _ => left = processor ∧
        ∃ word segment, Resolves processor memory pointer ring guarded word segment entry := by
    intro binding last marks
    apply (segmentWith_checks _ rfl code).andThen
    intro segment found
    obtain ⟨descriptor, segmentValid⟩ := found
    extract_lets target
    split
    · exact .failThen (.faultAt code rfl)
    next notOutward =>
    refine .done ⟨rfl, word, segment, ?_⟩
    exact {
      binds
      loaded := ⟨_, loaded⟩
      pointerValid := by simpa using valid
      found := ⟨_, marks, descriptor⟩
      segmentValid
      notOutward := Nat.le_of_not_lt notOutward
      target := rfl }
  unfold enter
  split
  · apply (loadWord_inspects processor later _).andThen
    intro binding last more _
    extract_lets sectionAddress guard
    split
    · apply (requireBindingSection_checks sectionAddress).andThen
      intro _ _
      exact finished _ _ (marks.trans more)
    · exact finished _ _ (marks.trans more)
  · exact finished _ _ marks

/-! ## Branches -/

theorem branchIf_settles (taken : Bool) :
    (branchIf taken instruction).Settles processor () { processor with
      nextAddress := if taken then processor.displacedTarget instruction
        else processor.nextAddress } := by
  cases taken with
  | true => exact .get (.modified _)
  | false => exact .pure ()

omit [Bus μ] in
theorem ring_displacedTarget (processor : Processor) (instruction : Instruction) (taken : Bool) :
    (if taken then processor.displacedTarget instruction else processor.nextAddress) =
        processor.nextAddress ∨
      processor.currentAddress.ring ≤
        (if taken then processor.displacedTarget instruction else processor.nextAddress).ring := by
  cases taken with
  | true => exact .inr (BitVec.le_refl _)
  | false => exact .inl rfl

theorem branchIf_completes (taken : Bool) :
    (branchIf taken instruction).Completes instruction processor memory kept :=
  .of_settles (branchIf_settles taken) (.moved _ _ _ (ring_displacedTarget _ _ taken))

theorem branch_completes (reading : Reading) (relation : Relation) :
    (branch reading relation instruction).Completes instruction processor memory kept := by
  refine .get ?_
  split
  · exact branchIf_completes _
  · next condition _ => exact .of_settles (.routine (.notify _ (.done _))) (.raised condition)

theorem branchCounting_completes :
    (branchCounting instruction).Completes instruction processor memory kept := by
  refine .of_settles (.bind (.modified _) (.get (branchIf_settles _))) ?_
  exact .moved _ _ _ (ring_displacedTarget _ _ _)

theorem branchCondition_completes :
    (branchCondition instruction).Completes instruction processor memory kept := by
  refine .get ?_
  extract_lets condition clear
  split
  · exact Orderly.failThen (.userFault rfl)
  next allowed =>
  refine .of_settles (.bind (.modified fun _ => _) (branchIf_settles _)) ?_
  refine .cleared _ (fun isMonitor => ?_) ?_
  · simpa [condition, isMonitor] using allowed
  · have outward := ring_displacedTarget (processor.withoutCondition condition) instruction
      (processor.holds condition)
    simpa only [Processor.currentAddress_withoutCondition,
      Processor.nextAddress_withoutCondition] using outward

theorem branchRelative_completes :
    (branchRelative instruction).Completes instruction processor memory kept :=
  .get (.of_settles (.modified _) (.moved _ _ _ (.inr (BitVec.le_refl _))))

theorem branchDirect_completes :
    (branchDirect instruction).Completes instruction processor memory kept := by
  exact .get (.of_settles (.modified _) (.moved _ _ _ (.inr (processor.ring_ringAdjusted _))))

/-! ## Calls -/

theorem call_orderly (length : Nat) (entry : EntryPoint) (argument : VirtualAddress) :
    (call length entry argument).Orderly processor memory fun _ left kept =>
      ∃ top, (storeWords (processor.callArea length).words
          (processor.addressRegister 0)).ending processor memory = ((.ok top, processor), kept) ∧
        left = processor.called entry top argument := by
  refine .get ((storeWords_stores processor memory _ _).andThen fun top kept stored => ?_)
  exact .of_settles (.bind (.modified _) (.report _)) ⟨top, stored, rfl⟩

theorem callSegment_orderly :
    (callSegment instruction).Orderly processor memory fun _ left _ =>
      ∃ entry word segment top argument,
        Resolves processor memory (processor.indexedOperand instruction 8)
          processor.currentAddress.ring.toNat true word segment entry ∧
        left = processor.called entry top argument := by
  refine .get (.bind ((resolveEntry_orderly _ _ _).mono fun entry left later resolved => ?_))
  obtain ⟨rfl, word, segment, resolves⟩ := resolved
  refine ⟨.refl _, (call_orderly _ _ _).mono fun _ last _ entered => ?_⟩
  obtain ⟨top, -, rfl⟩ := entered
  exact ⟨entry, word, segment, top, _, resolves, rfl⟩

/-! ## Returns -/

omit [Bus μ] in
theorem forM_raise_reports (conditions : List Condition) (processor : Processor) :
    ((conditions.forM Routine.raise).run processor).Reports
      ((), conditions.foldl Processor.raise processor) := by
  induction conditions generalizing processor with
  | nil => exact .done _
  | cons condition rest ih => exact .bind (.notify _ (.done _)) (ih (processor.raise condition))

omit [Bus μ] in
theorem rescan_settles (processor : Processor) :
    (liftM Routine.rescan : Execution Unit).Settles processor () processor.rescanned :=
  .routine (forM_raise_reports processor.conditions processor)

theorem loadWords_cons {address : VirtualAddress} {count : Nat} {word : Word} {rest : List Word}
    {later last : μ}
    (first : (loadWord address).ending processor memory = ((.ok word, processor), later))
    (others : (loadWords count (address.offset 8)).ending processor later =
      ((.ok rest, processor), last)) :
    (loadWords (count + 1) address).ending processor memory =
      ((.ok (word :: rest), processor), last) := by
  unfold loadWords
  rw [ending_bind, first]
  dsimp only
  rw [ending_bind, others]
  rfl

theorem length_loadWords {address : VirtualAddress} {count : Nat} {words : List Word}
    {left : Processor} {last : μ}
    (ended : (loadWords count address).ending processor memory = ((.ok words, left), last)) :
    words.length = count := by
  induction count generalizing address words memory with
  | zero =>
    cases ended
    rfl
  | succ count ih =>
    obtain ⟨word, kept, -, tail⟩ := (loadWord_inspects _ _ _).of_bind_ok ended
    obtain ⟨rest, _, others, joined⟩ := (loadWords_inspects _ _ _ _).of_bind_ok tail
    cases joined
    exact congrArg (· + 1) (ih others)

theorem loadWords_append {address : VirtualAddress} {count more : Nat} {words rest : List Word}
    {later last : μ}
    (first : (loadWords count address).ending processor memory = ((.ok words, processor), later))
    (others : (loadWords more (address.offset (8 * count))).ending processor later =
      ((.ok rest, processor), last)) :
    (loadWords (count + more) address).ending processor memory =
      ((.ok (words ++ rest), processor), last) := by
  induction count generalizing address words memory with
  | zero =>
    cases first
    simpa using others
  | succ count ih =>
    obtain ⟨word, kept, head, tail⟩ := (loadWord_inspects _ _ _).of_bind_ok first
    obtain ⟨fewer, _, loaded, joined⟩ := (loadWords_inspects _ _ _ _).of_bind_ok tail
    cases joined
    rw [Nat.add_right_comm, List.cons_append]
    refine loadWords_cons head (ih loaded ?_)
    have sum : (8 : Int) + 8 * count = 8 * (count + 1 : Nat) := by omega
    rwa [VirtualAddress.offset_offset, sum]

/-- A return resumes the activation in the save area that it has read. -/
theorem returnFromCall_orderly :
    returnFromCall.Orderly processor memory fun _ left kept =>
      ∃ zeroth first second third addresses words,
        ReturnsBy processor memory zeroth first second third addresses words kept ∧
        left = processor.leaving zeroth first second third addresses words := by
  refine .get ?_
  apply (loadWord_inspects _ _ _).andThen
  intro zeroth later _ loadedZeroth
  extract_lets returnAddress leave checked
  split
  · exact .failThen (.faultAt returnAddress rfl)
  next outward =>
  unfold checked
  split
  · exact .failThen (.userFault rfl)
  -- Up to the last word there are only loads.
  apply (loadWord_inspects _ _ _).andThen
  intro first later _ loadedFirst
  apply (loadWord_inspects _ _ _).andThen
  intro second later _ loadedSecond
  apply (loadWord_inspects _ _ _).andThen
  intro third later _ loadedThird
  extract_lets descriptor addressCount finish
  have finished : ∀ resumed, (finish ()).Settles resumed ()
      (if descriptor.isTrap then resumed.withTraps.rescanned else resumed) := by
    intro resumed
    refine .bind (.report _) ?_
    split
    · exact .bind (.modified _) (rescan_settles _)
    · exact .pure ()
  apply (loadWords_inspects _ _ _ _).andThen
  intro addresses later _ loadedAddresses
  apply (loadWords_inspects _ _ _ _).andThen
  intro words last _ loadedWords
  have returns : ReturnsBy processor memory zeroth first second third addresses words last := by
    refine ⟨?_, BitVec.not_lt.mp outward, length_loadWords loadedAddresses⟩
    -- The words were loaded one after another, as if by one load.
    have registers := loadWords_append loadedAddresses (by
      rw [VirtualAddress.offset_offset]
      exact loadedWords)
    have tail := loadWords_cons loadedThird (by rwa [VirtualAddress.offset_offset])
    have tail := loadWords_cons loadedSecond (by rwa [VirtualAddress.offset_offset])
    have tail := loadWords_cons loadedFirst (by rwa [VirtualAddress.offset_offset])
    exact loadWords_cons loadedZeroth tail
  refine Orderly.of_settles
    (?_ : Settles _ processor () (processor.leaving zeroth first second third addresses words))
    ⟨zeroth, first, second, third, addresses, words, returns, rfl⟩
  unfold Processor.leaving
  refine .bind (.modified _) ?_
  obtain ⟨resumed, same⟩ :
      ∃ resumed, resumed = processor.returned zeroth first second third addresses words :=
    ⟨_, rfl⟩
  rw [← same]
  unfold Processor.returned at same
  dsimp only at same
  split at same
  · next legacy =>
    rw [if_pos legacy, same]
    exact .bind (.modified _) (.bind (.report _) (finished _))
  · next native =>
    rw [if_neg native, same]
    exact finished _

theorem returnFromCall_completes
    (operation : Operation.ofOpcode instruction.opcode = some (.transfer .returnFromCall)) :
    returnFromCall.Completes instruction processor memory memory := by
  apply returnFromCall_orderly.mono
  intro _ left kept returned
  obtain ⟨zeroth, first, second, third, addresses, words, returns, rfl⟩ := returned
  exact .returned zeroth first second third addresses words kept operation returns

theorem popFrame_completes :
    popFrame.Completes instruction processor memory kept := by
  refine .get (.after (loadWord_inspects _ _ _) fun zeroth later => ?_)
  extract_lets drop
  split
  · exact Orderly.failThen (.userFault rfl)
  refine .after (loadWord_inspects _ _ _) fun second later => ?_
  refine .after (loadWord_inspects _ _ _) fun third later => ?_
  exact .of_settles (.modified _) (Completes.registers _ _)

end Execution

end Mainframe
