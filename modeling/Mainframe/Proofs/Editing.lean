import Mainframe.Proofs.Assertions
import Mainframe.Proofs.BlockCopies

/-! Editing under a mask. The mask is a program: its operations take bytes of the source, put bytes
out, and set the fill byte. An edit carries out the whole mask and only then stores what was put
out, or it is refused, and then nothing has been stored. -/

set_option autoImplicit false

namespace Mainframe

variable {μ : Type}

/-! ## Operations -/

def maskByte (code count : BitVec 4) : Byte := code ++ count

theorem Word.ofBytes_singleton (byte : Byte) : ofBytes [byte] = byte.setWidth 64 := by
  simp [ofBytes]

theorem exists_maskByte (byte : Byte) : ∃ code count, byte = maskByte code count := by
  have joined : maskByte (byte.extractLsb' 4 4) (byte.extractLsb' 0 4) = byte.extractLsb' 0 8 :=
    BitVec.extractLsb'_append_extractLsb'_eq_extractLsb' rfl
  rw [BitVec.extractLsb'_eq_self] at joined
  exact ⟨_, _, joined.symm⟩

@[simp] theorem Word.setWidth_ofBytes (byte : Byte) : (ofBytes [byte]).setWidth 8 = byte := by
  rw [ofBytes_singleton, BitVec.setWidth_setWidth_of_le _ (by decide), BitVec.setWidth_eq]

@[simp] theorem code_maskByte (code count : BitVec 4) :
    (Word.ofBytes [maskByte code count]).extractLsb' 4 4 = code := by
  rw [Word.ofBytes_singleton, BitVec.extractLsb'_setWidth_of_le (by decide), maskByte]
  exact BitVec.extractLsb'_append_eq_left

@[simp] theorem count_maskByte (code count : BitVec 4) :
    (Word.ofBytes [maskByte code count]).extractLsb' 0 4 = count := by
  rw [Word.ofBytes_singleton, BitVec.extractLsb'_setWidth_of_le (by decide), maskByte]
  exact BitVec.extractLsb'_append_eq_right

namespace Editor

/-- Before a first significant byte, zeros are replaced up to a first byte that is not a zero. -/
def suppressed (fill : Byte) (significant : Bool) (moved : List Byte) : List Byte :=
  if significant then moved
  else (moved.takeWhile (· == zeroDigit)).map (fun _ => fill) ++ moved.dropWhile (· == zeroDigit)

/-- What the bytes of an operation in a mask ask for. -/
inductive Performs : List Byte → Editor → Editor → Prop
  | suppress {count : BitVec 4} {moved source output : List Byte} {fill : Byte}
      {significant : Bool} (taken : moved.length = count.toNat) :
      Performs [maskByte 1 count] ⟨moved ++ source, output, fill, significant⟩
        ⟨source, output ++ suppressed fill significant moved, fill,
          significant || moved.any (· != zeroDigit)⟩
  | move {count : BitVec 4} {moved source output : List Byte} {fill : Byte}
      {significant : Bool} (taken : moved.length = count.toNat) :
      Performs [maskByte 2 count] ⟨moved ++ source, output, fill, significant⟩
        ⟨source, output ++ moved, fill, significant || !moved.isEmpty⟩
  | insert {count : BitVec 4} {literal : Byte} {source output : List Byte} {fill : Byte}
      {significant : Bool} :
      Performs [maskByte 3 count, literal] ⟨source, output, fill, significant⟩
        ⟨source, output ++ List.replicate count.toNat (if significant then literal else fill), fill,
          significant⟩
  | skip {count : BitVec 4} {dropped source output : List Byte} {fill : Byte}
      {significant : Bool} (taken : dropped.length = count.toNat) :
      Performs [maskByte 4 count] ⟨dropped ++ source, output, fill, significant⟩
        ⟨source, output, fill, significant⟩
  | setFill {count : BitVec 4} {literal : Byte} {source output : List Byte} {fill : Byte}
      {significant : Bool} :
      Performs [maskByte 5 count, literal] ⟨source, output, fill, significant⟩
        ⟨source, output, literal, significant⟩

/-- An operation is refused if its code is unknown, if the source has not as many bytes as it takes,
or if the output would be too long. -/
inductive Refuses (limit : Nat) : List Byte → Editor → Prop
  | unknown {code count : BitVec 4} {editor : Editor} (above : 5 < code) :
      Refuses limit [maskByte code count] editor
  | overrun {code count : BitVec 4} {editor : Editor} (takes : code ∈ [1, 2, 4])
      (short : editor.source.length < count.toNat) : Refuses limit [maskByte code count] editor
  | tooLong {bytes : List Byte} {editor edited : Editor} (performs : Performs bytes editor edited)
      (long : limit < edited.output.length) : Refuses limit bytes editor

def operationBytes (code count : BitVec 4) (operand : Byte) : List Byte :=
  if takesOperand code then [maskByte code count, operand] else [maskByte code count]

theorem foldl_moveByte (editor : Editor) (moved : List Byte) :
    moved.foldl (moveByte false) editor = { editor with
      output := editor.output ++ moved
      significant := editor.significant || !moved.isEmpty } := by
  induction moved generalizing editor with
  | nil => simp
  | cons byte rest ih => simp [ih, moveByte]

theorem foldl_moveByte_suppress (editor : Editor) (moved : List Byte) :
    moved.foldl (moveByte true) editor = { editor with
      output := editor.output ++ suppressed editor.fill editor.significant moved
      significant := editor.significant || moved.any (· != zeroDigit) } := by
  induction moved generalizing editor with
  | nil => simp [suppressed]
  | cons byte rest ih =>
    rw [List.foldl_cons, ih]
    -- A zero counts for nothing only as long as there has been no other byte.
    cases significant : editor.significant with
    | true => simp [moveByte, suppressed, significant]
    | false =>
      by_cases zero : byte = zeroDigit
      · simp [moveByte, suppressed, significant, zero]
      · simp [moveByte, suppressed, significant, zero]

theorem skip_some {editor edited : Editor} {count : Nat}
    (skips : editor.skip count = some edited) :
    ∃ dropped rest, dropped.length = count ∧ editor.source = dropped ++ rest ∧
      edited = { editor with source := rest } := by
  unfold skip at skips
  split at skips
  · next enough =>
    cases skips
    exact ⟨editor.source.take count, editor.source.drop count, List.length_take_of_le enough,
      (List.take_append_drop _ _).symm, rfl⟩
  · cases skips

theorem skip_none {editor : Editor} {count : Nat} (skips : editor.skip count = none) :
    editor.source.length < count := by
  unfold skip at skips
  split at skips
  · cases skips
  · next short => exact Nat.lt_of_not_le short

theorem performs_suppress {editor edited : Editor} {count : BitVec 4}
    (moves : editor.move count.toNat true = some edited) :
    Performs [maskByte 1 count] editor edited := by
  obtain ⟨source, output, fill, significant⟩ := editor
  rw [move, foldl_moveByte_suppress] at moves
  obtain ⟨moved, rest, length, rfl, rfl⟩ := skip_some moves
  rw [List.take_left' length]
  exact .suppress length

theorem performs_move {editor edited : Editor} {count : BitVec 4}
    (moves : editor.move count.toNat false = some edited) :
    Performs [maskByte 2 count] editor edited := by
  obtain ⟨source, output, fill, significant⟩ := editor
  rw [move, foldl_moveByte] at moves
  obtain ⟨moved, rest, length, rfl, rfl⟩ := skip_some moves
  rw [List.take_left' length]
  exact .move length

theorem performs_skip {editor edited : Editor} {count : BitVec 4}
    (skips : editor.skip count.toNat = some edited) :
    Performs [maskByte 4 count] editor edited := by
  obtain ⟨source, output, fill, significant⟩ := editor
  obtain ⟨dropped, rest, length, rfl, rfl⟩ := skip_some skips
  exact .skip length

theorem short_of_move {editor : Editor} {count : Nat} {suppress : Bool}
    (moves : editor.move count suppress = none) : editor.source.length < count := by
  have short := skip_none moves
  cases suppress with
  | true => rwa [foldl_moveByte_suppress] at short
  | false => rwa [foldl_moveByte] at short

theorem code_cases {code : BitVec 4} (operates : code ≠ 0) :
    code = 1 ∨ code = 2 ∨ code = 3 ∨ code = 4 ∨ code = 5 ∨ 5 < code := by
  revert code
  decide

theorem takesOperand_unknown {code : BitVec 4} (above : 5 < code) : takesOperand code = false := by
  revert code
  decide

theorem apply_unknown {code : BitVec 4} (above : 5 < code) (editor : Editor) (count : BitVec 4)
    (operand : Byte) : editor.apply code count operand = none := by
  revert above
  unfold apply
  split <;> simp_all [BitVec.lt_def]

theorem performs_of_apply {editor edited : Editor} {code count : BitVec 4} {operand : Byte}
    (operates : code ≠ 0) (applies : editor.apply code count operand = some edited) :
    Performs (operationBytes code count operand) editor edited := by
  rcases code_cases operates with rfl | rfl | rfl | rfl | rfl | above
  · exact performs_suppress applies
  · exact performs_move applies
  · cases applies
    exact .insert
  · exact performs_skip applies
  · cases applies
    exact .setFill
  · rw [apply_unknown above] at applies
    cases applies

theorem refuses_of_apply {editor : Editor} {limit : Nat} {code count : BitVec 4} {operand : Byte}
    (operates : code ≠ 0) (applies : editor.apply code count operand = none) :
    Refuses limit (operationBytes code count operand) editor := by
  rcases code_cases operates with rfl | rfl | rfl | rfl | rfl | above
  · exact .overrun (by decide) (short_of_move applies)
  · exact .overrun (by decide) (short_of_move applies)
  · cases applies
  · exact .overrun (by decide) (skip_none applies)
  · cases applies
  · rw [operationBytes, takesOperand_unknown above]
    exact .unknown above

theorem applyWithin_ends {code : BitVec 4} (operates : code ≠ 0) (editor : Editor) (limit : Nat)
    (count : BitVec 4) (operand : Byte) :
    match editor.applyWithin limit code count operand with
    | some edited => Performs (operationBytes code count operand) editor edited ∧
        edited.output.length ≤ limit
    | none => Refuses limit (operationBytes code count operand) editor := by
  unfold applyWithin
  cases applies : editor.apply code count operand with
  | none => exact refuses_of_apply operates applies
  | some edited =>
    have performs := performs_of_apply operates applies
    by_cases fits : edited.output.length ≤ limit
    · rw [Option.filter_some, if_pos (decide_eq_true fits)]
      exact ⟨performs, fits⟩
    · rw [Option.filter_some, if_neg (by simpa using fits)]
      exact .tooLong performs (Nat.lt_of_not_le fits)

/-! ## Masks -/

/-- Operations follow one another, each of which begins while there is a part of the mask left. An
operand may go beyond the end. The numbers are those of the bytes that are left, before and after. -/
inductive Follows (limit : Nat) : Nat → Editor → List Byte → Nat → Editor → Prop
  | done {budget : Nat} {editor : Editor} : Follows limit budget editor [] budget editor
  | next {budget remaining : Nat} {editor edited last : Editor} {bytes text : List Byte}
      (more : 0 < budget) (performs : Performs bytes editor edited)
      (fits : edited.output.length ≤ limit)
      (rest : Follows limit (budget - bytes.length) edited text remaining last) :
      Follows limit budget editor (bytes ++ text) remaining last

/-- A mask ends after its last byte, or with an operation of code zero. -/
def Closes (remaining : Nat) (pending : List Byte) : Prop :=
  remaining = 0 ∧ pending = [] ∨ 0 < remaining ∧ ∃ count, pending = [maskByte 0 count]

/-- Nothing of an operation has been read, or its first byte and no operand. -/
def Begins (pending : List Byte) : Prop :=
  pending = [] ∨ ∃ code count, takesOperand code = true ∧ pending = [maskByte code count]

theorem Follows.fits {limit budget remaining : Nat} {editor last : Editor} {text : List Byte}
    (follows : Follows limit budget editor text remaining last)
    (within : editor.output.length ≤ limit) : last.output.length ≤ limit := by
  induction follows with
  | done => exact within
  | next more performs fits rest ih => exact ih fits

theorem length_finish {editor : Editor} {limit : Nat} (within : editor.output.length ≤ limit) :
    (editor.finish limit).length = limit := by
  rw [finish, List.length_append, List.length_replicate]
  omega

end Editor

/-! ## Scans -/

namespace Execution

inductive ReadsEach [Bus μ] (processor : Processor) :
    VirtualAddress → List Byte → μ → μ → Prop
  | done {address : VirtualAddress} {memory : μ} : ReadsEach processor address [] memory memory
  | next {address : VirtualAddress} {byte : Byte} {bytes : List Byte} {memory between kept : μ}
      (first : (readVirtual address 1).ending processor memory = ((.ok [byte], processor), between))
      (rest : ReadsEach processor (address.offset 1) bytes between kept) :
      ReadsEach processor address (byte :: bytes) memory kept

section

variable [Bus μ] (processor : Processor) (limit budget : Nat) (address : VirtualAddress)
  (editor : Editor) (memory : μ)

/-- Operations have been carried out, and after them some more of the mask has been read. -/
structure ReadsMask (text pending : List Byte) (remaining : Nat) (last : Editor) (kept : μ) :
    Prop where
  follows : editor.Follows limit budget text remaining last
  reads : ReadsEach processor address (text ++ pending) memory kept

/-- How a scan of a mask ends. It comes to a byte that cannot be read, to an operation that is
refused, or to the end of the mask. -/
inductive EditScan : (Except Condition Editor × Processor) × μ → Prop
  | unread {text pending : List Byte} {remaining : Nat} {last : Editor} {between kept : μ}
      {condition : Condition} {left : Processor}
      (reads : ReadsMask processor limit budget address editor memory text pending remaining last
        between)
      (more : 0 < remaining) (begins : Editor.Begins pending)
      (fault : (readVirtual (address.offset (text ++ pending).length) 1).ending processor between =
        ((.error condition, left), kept)) : EditScan ((.error condition, left), kept)
  | refused {text pending : List Byte} {remaining : Nat} {last : Editor} {kept : μ}
      (reads : ReadsMask processor limit budget address editor memory text pending remaining last
        kept)
      (more : 0 < remaining) (refuses : last.Refuses limit pending) :
      EditScan ((.error (.monitor .instructionSpecification), processor), kept)
  | completed {text pending : List Byte} {remaining : Nat} {last : Editor} {kept : μ}
      (reads : ReadsMask processor limit budget address editor memory text pending remaining last
        kept)
      (closes : Editor.Closes remaining pending) : EditScan ((.ok last, processor), kept)

end

section

variable [Bus μ] [SlottedBus μ] {processor : Processor} {limit budget : Nat}
  {address : VirtualAddress} {editor edited : Editor} {memory between kept : μ}

omit [SlottedBus μ] in
theorem ReadsEach.append {first second : List Byte}
    (reads : ReadsEach processor address first memory between)
    (more : ReadsEach processor (address.offset first.length) second between kept) :
    ReadsEach processor address (first ++ second) memory kept := by
  induction reads with
  | done => simpa using more
  | next first rest ih =>
    refine .next first (ih ?_)
    rw [VirtualAddress.offset_offset, ← Nat.cast_one, ← Nat.cast_add, Nat.add_comm]
    exact more

theorem ReadsEach.keeps {bytes : List Byte}
    (reads : ReadsEach processor address bytes memory kept) :
    Keeps (processor.translation.entrySlots memory) memory kept := by
  induction reads with
  | done => exact .refl
  | @next address byte bytes memory between kept first rest ih =>
    have marks := readVirtual_keeps processor memory address 1
    rw [first] at marks
    exact marks.then_marks ih

omit [SlottedBus μ] in
theorem EditScan.next {bytes : List Byte} {ended : (Except Condition Editor × Processor) × μ}
    (more : 0 < budget) (performs : editor.Performs bytes edited)
    (fits : edited.output.length ≤ limit)
    (first : ReadsEach processor address bytes memory between)
    (rest : EditScan processor limit (budget - bytes.length) (address.offset bytes.length) edited
      between ended) : EditScan processor limit budget address editor memory ended := by
  have joined {text pending : List Byte} {remaining : Nat} {last : Editor} {later : μ}
      (reads : ReadsMask processor limit (budget - bytes.length) (address.offset bytes.length)
        edited between text pending remaining last later) :
      ReadsMask processor limit budget address editor memory (bytes ++ text) pending remaining last
        later := by
    refine ⟨.next more performs fits reads.follows, ?_⟩
    rw [List.append_assoc]
    exact first.append reads.reads
  cases rest with
  | unread reads left begins fault =>
    refine .unread (joined reads) left begins ?_
    rw [VirtualAddress.offset_offset, ← Nat.cast_add] at fault
    rw [List.append_assoc, List.length_append]
    exact fault
  | refused reads left refuses => exact .refused (joined reads) left refuses
  | completed reads closes => exact .completed (joined reads) closes

variable (processor memory) in
theorem loadByte_ends (address : VirtualAddress) :
    (∃ condition left kept,
      (readVirtual address 1).ending processor memory = ((.error condition, left), kept) ∧
      (loadBytes address 1).ending processor memory = ((.error condition, left), kept)) ∨
    ∃ code count kept,
      (readVirtual address 1).ending processor memory =
        ((.ok [maskByte code count], processor), kept) ∧
      (loadBytes address 1).ending processor memory =
        ((.ok (Word.ofBytes [maskByte code count]), processor), kept) := by
  rw [loadBytes_one, ending_bind]
  rcases reading : (readVirtual address 1).ending processor memory with
    ⟨⟨condition | bytes, left⟩, kept⟩
  · exact .inl ⟨condition, left, kept, rfl, rfl⟩
  · obtain ⟨byte, rfl⟩ := List.length_eq_one_iff.mp (length_readVirtual reading)
    obtain ⟨code, count, rfl⟩ := exists_maskByte byte
    obtain ⟨rfl, -⟩ := (readVirtual_inspects processor memory address 1).completed reading
    exact .inr ⟨code, count, kept, rfl, rfl⟩

theorem editStep_ends {code : BitVec 4} (operates : code ≠ 0) (count : BitVec 4) (editor : Editor)
    (limit : Nat) (operand : Word) :
    (∃ edited, editor.Performs (Editor.operationBytes code count (operand.setWidth 8)) edited ∧
      edited.output.length ≤ limit ∧
      editStep editor limit (Word.ofBytes [maskByte code count]) operand = pure edited) ∨
    (editor.Refuses limit (Editor.operationBytes code count (operand.setWidth 8)) ∧
      editStep editor limit (Word.ofBytes [maskByte code count]) operand =
        monitorFault .instructionSpecification) := by
  have ends := Editor.applyWithin_ends operates editor limit count (operand.setWidth 8)
  unfold editStep
  rw [code_maskByte, count_maskByte]
  cases applied : editor.applyWithin limit code count (operand.setWidth 8) with
  | none =>
    rw [applied] at ends
    exact .inr ⟨ends, rfl⟩
  | some edited =>
    rw [applied] at ends
    exact .inl ⟨edited, ends.1, ends.2, rfl⟩

omit [SlottedBus μ] in
theorem EditScan.step {code count : BitVec 4} {operand : Word}
    {continuation : Editor → Execution Editor} (operates : code ≠ 0) (more : 0 < budget)
    (first : ReadsEach processor address
      (Editor.operationBytes code count (operand.setWidth 8)) memory between)
    (rest : ∀ edited, EditScan processor limit
      (budget - (Editor.operationBytes code count (operand.setWidth 8)).length)
      (address.offset (Editor.operationBytes code count (operand.setWidth 8)).length) edited between
      ((continuation edited).ending processor between)) :
    EditScan processor limit budget address editor memory
      ((editStep editor limit (Word.ofBytes [maskByte code count]) operand >>=
        continuation).ending processor between) := by
  rcases editStep_ends operates count editor limit operand with
    ⟨edited, performs, fits, steps⟩ | ⟨refuses, steps⟩
  · rw [steps, pure_bind]
    exact .next more performs fits first (rest edited)
  · rw [steps]
    exact .refused ⟨.done, first⟩ more refuses

theorem editUnder_scans (processor : Processor) (limit budget : Nat) (address : VirtualAddress)
    (editor : Editor) (memory : μ) :
    EditScan processor limit budget address editor memory
      ((editUnder limit budget address editor).ending processor memory) := by
  -- An operation with an operand takes two steps of the budget.
  induction budget using Nat.strongRecOn generalizing address editor memory with
  | ind budget ih =>
    rcases budget with _ | budget
    · exact .completed ⟨.done, .done⟩ (.inl ⟨rfl, rfl⟩)
    have more : 0 < budget + 1 := Nat.succ_pos budget
    rw [editUnder_succ, ending_bind]
    rcases loadByte_ends processor memory address with
      ⟨condition, left, kept, fault, loaded⟩ | ⟨code, count, between, reading, loaded⟩
    · rw [loaded]
      refine .unread ⟨.done, .done⟩ more (.inl rfl) ?_
      simpa using fault
    rw [loaded]
    dsimp only
    rw [code_maskByte]
    have first : ReadsEach processor address [maskByte code count] memory between :=
      .next reading .done
    by_cases ends : code = 0
    · -- The byte that ends the mask is read, but no operation takes it.
      subst ends
      rw [if_pos rfl]
      exact .completed ⟨.done, first⟩ (.inr ⟨more, count, rfl⟩)
    rw [if_neg ends]
    cases takes : Editor.takesOperand code with
    | false =>
      rw [if_neg Bool.false_ne_true]
      have bytes : Editor.operationBytes code count ((0 : Word).setWidth 8) =
          [maskByte code count] := by simp [Editor.operationBytes, takes]
      apply EditScan.step ends more (bytes ▸ first)
      intro edited
      rw [bytes]
      exact ih budget (Nat.lt_succ_self budget) _ _ _
    | true =>
      rw [if_pos rfl, ending_bind]
      rcases loadByte_ends processor between (address.offset 1) with
        ⟨condition, left, kept, fault, loaded⟩ | ⟨high, low, later, reading, loaded⟩
      · rw [loaded]
        exact .unread ⟨.done, first⟩ more (.inr ⟨code, count, takes, rfl⟩) fault
      rw [loaded]
      dsimp only
      have bytes : Editor.operationBytes code count
          ((Word.ofBytes [maskByte high low]).setWidth 8) =
            [maskByte code count, maskByte high low] := by
        simp [Editor.operationBytes, takes]
      apply EditScan.step ends more (bytes ▸ first.append (.next reading .done))
      intro edited
      rw [bytes]
      -- The operand may be the byte after the last one of the mask.
      cases budget with
      | zero => exact .completed ⟨.done, .done⟩ (.inl ⟨rfl, rfl⟩)
      | succ rest => exact ih rest (by omega) _ _ _

end

end Execution

/-! ## Steps -/

/-- The source has been read, and of the mask what operations have taken, and some bytes more. -/
def Processor.EditReads [Bus μ] (before : Processor) (instruction : Instruction)
    (running : Processor) (middle : μ) (text pending : List Byte) (remaining : Nat) (last : Editor)
    (kept : μ) : Prop :=
  ∃ source between, source.length = before.firstLength ∧
    (Execution.readVirtual (before.addressRegister instruction.j) before.firstLength).ending running
      middle = ((.ok source, running), between) ∧
    Execution.ReadsMask running before.secondLength 256 (before.tableOperand instruction)
      ⟨source, [], space, false⟩ between text pending remaining last kept

/-- The whole mask has been carried out. These bytes have been put out, with fill bytes after them
up to the length of the destination. -/
def Processor.PutsOut [Bus μ] (before : Processor) (instruction : Instruction)
    (running : Processor) (middle : μ) (bytes : List Byte) (kept : μ) : Prop :=
  ∃ text pending remaining last,
    before.EditReads instruction running middle text pending remaining last kept ∧
    Editor.Closes remaining pending ∧
    bytes = last.output ++
      List.replicate (before.secondLength - last.output.length) last.fill ∧
    bytes.length = before.secondLength

/-- How a step ends that comes to an edit. A byte of the source, or of the mask as far as it goes,
cannot be read. An operation is refused. Or the bytes that are put out are stored, unless the
destination does not translate. Before that nothing changes in memory but marks of use in entries of
the page table. -/
inductive EditEnds [Bus μ] [SlottedBus μ] (before : Processor) (memory : μ)
    (instruction : Instruction) (running : Processor) (middle : μ) (after : Processor) (kept : μ) :
    Prop
  | sourceUnread {fault : TranslationFault} {left : Processor}
      (failed : (Execution.readVirtual (before.addressRegister instruction.j)
        before.firstLength).ending running middle = ((.error (.ofFault fault), left), kept))
      (faulted : before.FaultedWith (.ofFault fault) after)
      (keeps : Keeps (before.translation.entrySlots memory) memory kept)
  | maskUnread {text pending : List Byte} {remaining : Nat} {last : Editor} {between : μ}
      {fault : TranslationFault} {left : Processor}
      (reads : before.EditReads instruction running middle text pending remaining last between)
      (more : 0 < remaining) (begins : Editor.Begins pending)
      (failed : (Execution.readVirtual
        ((before.tableOperand instruction).offset (text ++ pending).length) 1).ending running
          between = ((.error (.ofFault fault), left), kept))
      (faulted : before.FaultedWith (.ofFault fault) after)
      (keeps : Keeps (before.translation.entrySlots memory) memory kept)
  | refused {text pending : List Byte} {remaining : Nat} {last : Editor}
      (reads : before.EditReads instruction running middle text pending remaining last kept)
      (more : 0 < remaining) (refuses : last.Refuses before.secondLength pending)
      (faulted : before.FaultedWith (.monitor .instructionSpecification) after)
      (keeps : Keeps (before.translation.entrySlots memory) memory kept)
  | unwritten {bytes : List Byte} {between : μ} {fault : TranslationFault} {left : Processor}
      (puts : before.PutsOut instruction running middle bytes between)
      (failed : (Execution.writeVirtual (before.addressRegister instruction.k) bytes).ending running
        between = ((.error (.ofFault fault), left), kept))
      (faulted : before.FaultedWith (.ofFault fault) after)
  | written {bytes : List Byte} {between : μ}
      (puts : before.PutsOut instruction running middle bytes between)
      (writes : (Execution.writeVirtual (before.addressRegister instruction.k) bytes).ending running
        between = ((.ok (), running), kept))
      (stored : ∀ places, before.translation.placesIn memory (before.translation.pieces
          (before.addressRegister instruction.k).byteNumber before.secondLength)
          (before.addressRegister instruction.k) = some places →
        Apart (before.translation.tableSlots memory) memory places →
        Stored (before.translation.entrySlots memory) memory places bytes kept)
      (advances : before.Advances instruction after)

namespace Execution

variable [Bus μ] {processor left : Processor} {memory kept : μ} {condition : Condition}

/-- Nothing but translations makes the reading of bytes fail, and then there are only marks. -/
theorem readVirtual_failed [SlottedBus μ] {address : VirtualAddress} {count : Nat}
    (ended : (readVirtual address count).ending processor memory =
      ((.error condition, left), kept)) :
    (∃ fault, condition = .ofFault fault) ∧
      Keeps (processor.translation.entrySlots memory) memory kept := by
  have preserves : (readVirtual address count).Preserves .translating fun _ => True :=
    readVirtual_preserves address count
  have keeps := readVirtual_keeps processor memory address count
  rw [ended] at keeps
  exact ⟨preserves.failed trivial ended, keeps⟩

theorem writeVirtual_failed {address : VirtualAddress} {bytes : List Byte}
    (ended : (writeVirtual address bytes).ending processor memory =
      ((.error condition, left), kept)) : ∃ fault, condition = .ofFault fault := by
  have preserves : (writeVirtual address bytes).Preserves .translating fun _ => True :=
    writeVirtual_preserves address bytes
  exact preserves.failed trivial ended

end Execution

section

variable [Bus μ] [SlottedBus μ] {before running : Processor} {memory middle between kept : μ}
  {instruction : Instruction} {text pending bytes : List Byte} {remaining : Nat} {last : Editor}

theorem Runs.then_keeps (runs : Runs before memory instruction running middle)
    (marks : Keeps (running.translation.entrySlots middle) middle kept) :
    Keeps (before.translation.entrySlots memory) memory kept := by
  rw [runs.entrySlots_eq] at marks
  exact runs.keeps.trans marks

theorem Processor.EditReads.keeps
    (reads : before.EditReads instruction running middle text pending remaining last kept) :
    Keeps (running.translation.entrySlots middle) middle kept := by
  obtain ⟨source, between, -, reading, mask⟩ := reads
  have marks := Execution.readVirtual_keeps running middle (before.addressRegister instruction.j)
    before.firstLength
  rw [reading] at marks
  exact marks.then_marks mask.reads.keeps

omit [SlottedBus μ] in
theorem Processor.EditReads.puts
    (reads : before.EditReads instruction running middle text pending remaining last kept)
    (closes : Editor.Closes remaining pending) :
    before.PutsOut instruction running middle (last.finish before.secondLength) kept := by
  obtain ⟨source, between, length, reading, mask⟩ := reads
  have fits := mask.follows.fits (Nat.zero_le before.secondLength)
  exact ⟨text, pending, remaining, last, ⟨source, between, length, reading, mask⟩, closes, rfl,
    Editor.length_finish fits⟩

theorem Processor.PutsOut.stored (runs : Runs before memory instruction running middle)
    (puts : before.PutsOut instruction running middle bytes between)
    (writes : (Execution.writeVirtual (before.addressRegister instruction.k) bytes).ending running
      between = ((.ok (), running), kept)) {places : List Address}
    (mapped : before.translation.placesIn memory (before.translation.pieces
      (before.addressRegister instruction.k).byteNumber before.secondLength)
      (before.addressRegister instruction.k) = some places)
    (apart : Apart (before.translation.tableSlots memory) memory places) :
    Stored (before.translation.entrySlots memory) memory places bytes kept := by
  obtain ⟨text, pending, remaining, last, reads, -, -, length⟩ := puts
  have keeps := reads.keeps
  have outside := runs.apart apart
  -- Up to here there are only marks, so the destination is mapped as it was before the step.
  rw [← runs.placesIn_eq, ← running.translation.placesIn_stored keeps.inTables] at mapped
  obtain ⟨-, stored⟩ :=
    Execution.writeVirtual_exact length mapped (keeps.inTables.apart outside) writes
  exact runs.stored apart (keeps.stored outside stored)

omit [SlottedBus μ] in
/-- The mask is scanned before anything is stored. -/
theorem Runs.ending_edit (runs : Runs before memory instruction running middle)
    (assigned : Operation.ofOpcode instruction.opcode = some (.block .edit)) :
    (Execution.execute instruction).ending running middle = (do
      let source ← Execution.readVirtual (before.addressRegister instruction.j) before.firstLength
      let editor ← Execution.editUnder before.secondLength 256 (before.tableOperand instruction)
        (.start source)
      Execution.writeVirtual (before.addressRegister instruction.k)
        (editor.finish before.secondLength)).ending running middle := by
  obtain ⟨_, _, rfl⟩ := runs.begun
  rw [Execution.execute_block assigned, Execution.block, Execution.editBytes, Execution.ending,
    Execution.course_get]
  dsimp only
  rw [Execution.sourceLength_eq, Execution.destinationLength_eq]
  rfl

theorem Runs.edit_stores (runs : Runs before memory instruction running middle)
    (puts : before.PutsOut instruction running middle bytes between)
    (ends : (Execution.execute instruction).ending running middle =
      (Execution.writeVirtual (before.addressRegister instruction.k) bytes).ending running
        between) :
    ∃ after kept, (Routine.stepNative.run before).perform memory = ((.executed, after), kept) ∧
      EditEnds before memory instruction running middle after kept := by
  rcases writing : (Execution.writeVirtual (before.addressRegister instruction.k) bytes).ending
    running between with ⟨⟨condition | _, left⟩, kept⟩
  · rw [writing] at ends
    obtain ⟨fault, rfl⟩ := Execution.writeVirtual_failed writing
    obtain ⟨after, performed, faulted⟩ := runs.perform_faulted ends
    exact ⟨after, kept, performed, .unwritten puts writing faulted⟩
  · rw [writing] at ends
    have same : left = running := (Execution.writeVirtual_stores _ _ _ _).completed writing
    subst same
    have carries : CarriesOut before memory instruction (left.commit true) kept :=
      ⟨left, middle, left, runs, ends, rfl⟩
    refine ⟨left.commit true, kept, carries.perform_eq, .written puts writing ?_ runs.advances⟩
    intro places mapped apart
    exact puts.stored runs writing mapped apart

theorem Runs.edit_scans {source : List Byte}
    (runs : Runs before memory instruction running middle)
    (reading : (Execution.readVirtual (before.addressRegister instruction.j)
      before.firstLength).ending running middle = ((.ok source, running), between))
    (ends : (Execution.execute instruction).ending running middle =
      (Execution.editUnder before.secondLength 256 (before.tableOperand instruction)
        (.start source) >>= fun editor => Execution.writeVirtual
          (before.addressRegister instruction.k) (editor.finish before.secondLength)).ending running
        between) :
    ∃ after kept, (Routine.stepNative.run before).perform memory = ((.executed, after), kept) ∧
      EditEnds before memory instruction running middle after kept := by
  have reads {text pending : List Byte} {remaining : Nat} {last : Editor} {later : μ}
      (mask : Execution.ReadsMask running before.secondLength 256
        (before.tableOperand instruction) (.start source) between text pending remaining last
        later) : before.EditReads instruction running middle text pending remaining last later :=
    ⟨source, between, Execution.length_readVirtual reading, reading, mask⟩
  have scan := Execution.editUnder_scans running before.secondLength 256
    (before.tableOperand instruction) (.start source) between
  rw [Execution.ending_bind] at ends
  generalize (Execution.editUnder before.secondLength 256 (before.tableOperand instruction)
    (.start source)).ending running between = scanned at scan ends
  cases scan with
  | unread mask more begins failed =>
    obtain ⟨⟨fault, rfl⟩, marks⟩ := Execution.readVirtual_failed failed
    obtain ⟨after, performed, faulted⟩ := runs.perform_faulted ends
    exact ⟨after, _, performed, .maskUnread (reads mask) more begins failed faulted
      (runs.then_keeps ((reads mask).keeps.then_marks marks))⟩
  | refused mask more refuses =>
    obtain ⟨after, performed, faulted⟩ := runs.perform_faulted ends
    exact ⟨after, _, performed, .refused (reads mask) more refuses faulted
      (runs.then_keeps (reads mask).keeps)⟩
  | completed mask closes => exact runs.edit_stores ((reads mask).puts closes) ends

/-- An edit is all or nothing, and goes by its mask. -/
theorem blocks_edited (runs : Runs before memory instruction running middle)
    (opcode : instruction.opcode = 0xED) :
    let ended := (Routine.stepNative.run before).perform memory
    ended.1.1 = .executed ∧
      EditEnds before memory instruction running middle ended.1.2 ended.2 := by
  have assigned : Operation.ofOpcode instruction.opcode = some (.block .edit) := by
    rw [opcode]
    rfl
  have ends := runs.ending_edit assigned
  rw [Execution.ending_bind] at ends
  rcases reading : (Execution.readVirtual (before.addressRegister instruction.j)
    before.firstLength).ending running middle with ⟨⟨condition | source, left⟩, between⟩
  · rw [reading] at ends
    obtain ⟨⟨fault, rfl⟩, marks⟩ := Execution.readVirtual_failed reading
    obtain ⟨after, performed, faulted⟩ := runs.perform_faulted ends
    rw [performed]
    exact ⟨rfl, .sourceUnread reading faulted (runs.then_keeps marks)⟩
  · have same : left = running :=
      ((Execution.readVirtual_inspects _ _ _ _).completed reading).1
    subst same
    rw [reading] at ends
    obtain ⟨after, kept, performed, edits⟩ := runs.edit_scans reading ends
    rw [performed]
    exact ⟨rfl, edits⟩

end

/-! A job that edits a number of six digits. Its fill byte is an asterisk, and after three digits
there is a comma. The destination begins in the source and ends in the next page. -/

def editing : Instruction := .decode .jkiD 0xED12 0x3000

def editingMemory : CyclicMemory :=
  ⟨4096, ((scatteredMemory.store.set 1024 0xED12300000000000).set 1056
    0x502A13312C230000).set 1087 0x3030313233300000⟩

def editingJob (length : Word) : Processor := copyingJob 0x1F8 0x1FC length 9

/-- With fewer digits the source runs out, and nothing is stored. -/
theorem jobs_edited :
    let edited := (Routine.stepNative.run (editingJob 6)).perform editingMemory
    let refused := (Routine.stepNative.run (editingJob 5)).perform editingMemory
    let bytesAt (memory : CyclicMemory) :=
      (editingJob 6).translation.bytesAt memory 9 ⟨11, 0, 0x1FC⟩
    (∃ running middle, edited.1.1 = .executed ∧
        EditEnds (editingJob 6) editingMemory editing running middle edited.1.2 edited.2) ∧
      bytesAt edited.2 = some [0x2A, 0x2A, 0x31, 0x2C, 0x32, 0x33, 0x30, 0x2A, 0x2A] ∧
      (∃ running middle, refused.1.1 = .executed ∧
        EditEnds (editingJob 5) editingMemory editing running middle refused.1.2 refused.2) ∧
      refused.1.2.monitorConditions ≠ 0 ∧ bytesAt refused.2 = bytesAt editingMemory := by
  have runs : Runs (editingJob 6) editingMemory editing _ _ :=
    ⟨_, Prod.ext (Prod.ext (by decide +kernel) rfl) rfl, rfl⟩
  have short : Runs (editingJob 5) editingMemory editing _ _ :=
    ⟨_, Prod.ext (Prod.ext (by decide +kernel) rfl) rfl, rfl⟩
  exact ⟨⟨_, _, blocks_edited runs rfl⟩, by decide +kernel, ⟨_, _, blocks_edited short rfl⟩,
    by decide +kernel, by decide +kernel⟩

end Mainframe
