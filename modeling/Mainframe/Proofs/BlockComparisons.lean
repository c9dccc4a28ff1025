import Mainframe.Proofs.BlockCopies

/-! Blocks that are compared. The shorter string counts as padded with spaces, and a collating table
changes the bytes of both, padding included. What is found is the longest common prefix and the order
of the bytes after it. The order is a total preorder of strings that trailing spaces do not matter
to. -/

set_option autoImplicit false

namespace Mainframe

variable {μ : Type}

/-! ## The first difference -/

/-- How two blocks of one length compare: so many bytes at their beginning are the same, and that is
the sign of the difference of the bytes after them, or zero where there are none. -/
inductive Compared : List Byte → List Byte → Nat → Int → Prop where
  | same (block : List Byte) : Compared block block block.length 0
  | differ (common : List Byte) {left right : Byte} (lefts rights : List Byte)
      (ne : left ≠ right) :
      Compared (common ++ left :: lefts) (common ++ right :: rights) common.length
        (Int.sign (left.toNat - right.toNat))

def orderSign : Ordering → Int
  | .lt => -1
  | .eq => 0
  | .gt => 1

theorem orderWord_eq (order : Ordering) : orderWord order = BitVec.ofInt 64 (orderSign order) := by
  cases order <;> rfl

theorem orderSign_compare (left right : Nat) :
    orderSign (compare left right) = Int.sign (left - right) := by
  rcases Nat.lt_trichotomy left right with less | same | greater
  · rw [Nat.compare_eq_lt.mpr less, Int.sign_eq_neg_one_of_neg (by omega)]
    rfl
  · rw [Nat.compare_eq_eq.mpr same, same, Int.sub_self]
    rfl
  · rw [Nat.compare_eq_gt.mpr greater, Int.sign_eq_one_of_pos (by omega)]
    rfl

theorem firstDifference_self (block : List Byte) :
    firstDifference block block = (block.length, .eq) := by
  induction block with
  | nil => rfl
  | cons byte rest ih => simp [firstDifference, ih]

theorem firstDifference_append (common : List Byte) {left right : Byte} (lefts rights : List Byte)
    (ne : left ≠ right) :
    firstDifference (common ++ left :: lefts) (common ++ right :: rights) =
      (common.length, compare left.toNat right.toNat) := by
  induction common with
  | nil => simp [firstDifference, ne]
  | cons byte rest ih => simp [firstDifference, ih]

theorem firstDifference_order {left right : List Byte} (length : left.length = right.length) :
    (firstDifference left right).2 =
      compare (left.map BitVec.toNat) (right.map BitVec.toNat) := by
  induction left generalizing right with
  | nil =>
    cases right with
    | nil => rfl
    | cons other rest => cases length
  | cons byte rest ih =>
    cases right with
    | nil => cases length
    | cons other others =>
      rw [List.map_cons, List.map_cons, List.compare_cons_cons, firstDifference]
      split
      · next same =>
        rw [same, Nat.compare_eq_eq.mpr rfl]
        exact ih (Nat.succ.inj length)
      · next differ =>
        have ne : byte.toNat ≠ other.toNat := fun same => differ (BitVec.eq_of_toNat_eq same)
        rcases Nat.lt_or_gt_of_ne ne with less | greater
        · rw [Nat.compare_eq_lt.mpr less]
          rfl
        · rw [Nat.compare_eq_gt.mpr greater]
          rfl

namespace Compared

variable {left right : List Byte} {place : Nat} {sign : Int}

theorem cons (byte : Byte) (compared : Compared left right place sign) :
    Compared (byte :: left) (byte :: right) (place + 1) sign := by
  cases compared with
  | same => exact .same (byte :: left)
  | differ common lefts rights ne => exact .differ (byte :: common) lefts rights ne

theorem of_firstDifference (length : left.length = right.length) :
    Compared left right (firstDifference left right).1
      (orderSign (firstDifference left right).2) := by
  induction left generalizing right with
  | nil =>
    cases right with
    | nil => exact .same []
    | cons other rest => cases length
  | cons byte rest ih =>
    cases right with
    | nil => cases length
    | cons other others =>
      by_cases same : byte = other
      · subst same
        have later := (ih (Nat.succ.inj length)).cons byte
        simpa [firstDifference] using later
      · have first := firstDifference_append [] rest others same
        simp only [List.nil_append] at first
        rw [first, orderSign_compare]
        exact .differ [] rest others same

theorem eq_firstDifference (compared : Compared left right place sign) :
    place = (firstDifference left right).1 ∧
      sign = orderSign (firstDifference left right).2 := by
  cases compared with
  | same => rw [firstDifference_self]; exact ⟨rfl, rfl⟩
  | differ common lefts rights ne =>
    rw [firstDifference_append common lefts rights ne, orderSign_compare]
    exact ⟨rfl, rfl⟩

theorem swap (compared : Compared left right place sign) : Compared right left place (-sign) := by
  cases compared with
  | same => exact .same left
  | @differ common first second lefts rights ne =>
    rw [← Int.sign_neg, Int.neg_sub]
    exact .differ common rights lefts ne.symm

end Compared

/-! ## The order of strings -/

/-- A string padded with spaces to a length, with each byte changed. -/
def collated (change : Byte → Byte) (length : Nat) (string : List Byte) : List Byte :=
  (padded length string).map change

/-- The first string comes before the second, or the comparison makes no difference between them. -/
def Precedes (change : Byte → Byte) (left right : List Byte) : Prop :=
  ∃ place sign, Compared (collated change (max left.length right.length) left)
    (collated change (max left.length right.length) right) place sign ∧ sign ≤ 0

theorem length_collated (change : Byte → Byte) (length : Nat) (string : List Byte) :
    (collated change length string).length = length := by
  rw [collated, List.length_map, length_padded]

theorem collated_add (change : Byte → Byte) {length : Nat} {string : List Byte}
    (short : string.length ≤ length) (more : Nat) :
    collated change (length + more) string =
      collated change length string ++ List.replicate more (change space) := by
  have whole : length + more - string.length = length - string.length + more := by omega
  rw [collated, collated, padded_of_le short, padded_of_le (by omega), whole,
    ← List.replicate_append_replicate]
  simp

theorem collated_spaces (change : Byte → Byte) {length more : Nat} {string : List Byte}
    (short : string.length + more ≤ length) :
    collated change length (string ++ List.replicate more space) =
      collated change length string := by
  have whole : length - string.length = more + (length - (string.length + more)) := by omega
  have extended : (string ++ List.replicate more space).length = string.length + more := by simp
  have longer : (string ++ List.replicate more space).length ≤ length := extended ▸ short
  have fits : string.length ≤ length := by omega
  rw [collated, collated, padded_of_le longer, padded_of_le fits, whole, extended,
    ← List.replicate_append_replicate, List.append_assoc]

theorem compare_append {left right : List Nat} (length : left.length = right.length)
    (rest : List Nat) : compare (left ++ rest) (right ++ rest) = compare left right := by
  induction left generalizing right with
  | nil =>
    cases right with
    | nil => simp
    | cons other others => cases length
  | cons number lefts ih =>
    cases right with
    | nil => cases length
    | cons other rights =>
      simp only [List.cons_append, List.compare_cons_cons, ih (Nat.succ.inj length)]

def collationKey (change : Byte → Byte) (length : Nat) (string : List Byte) : List Nat :=
  (collated change length string).map BitVec.toNat

/-- To whatever length two strings are padded, their order is the same. -/
theorem precedes_iff (change : Byte → Byte) {left right : List Byte} {length : Nat}
    (first : left.length ≤ length) (second : right.length ≤ length) :
    Precedes change left right ↔
      (compare (collationKey change length left) (collationKey change length right)).isLE := by
  obtain ⟨more, rfl⟩ := Nat.exists_eq_add_of_le (Nat.max_le.mpr ⟨first, second⟩)
  generalize longer : max left.length right.length = shorter at first second ⊢
  have same : (collated change shorter left).length = (collated change shorter right).length := by
    rw [length_collated, length_collated]
  have compared := Compared.of_firstDifference same
  rw [collationKey, collationKey, collated_add change (by omega), collated_add change (by omega),
    List.map_append, List.map_append, compare_append (by simpa using same),
    ← firstDifference_order same]
  unfold Precedes
  rw [longer]
  constructor
  · rintro ⟨place, sign, other, negative⟩
    rw [other.eq_firstDifference.2] at negative
    cases order : (firstDifference (collated change shorter left)
      (collated change shorter right)).2 <;> rw [order] at negative <;> first | rfl | cases negative
  · intro less
    refine ⟨_, _, compared, ?_⟩
    cases order : (firstDifference (collated change shorter left)
      (collated change shorter right)).2 <;> rw [order] at less <;> first | decide | cases less

/-- A relation of strings is a total preorder, and spaces at the end of a string do not matter. -/
structure OrdersStrings (relation : List Byte → List Byte → Prop) : Prop where
  refl : ∀ string, relation string string
  trans : ∀ first second third, relation first second → relation second third →
    relation first third
  total : ∀ left right, relation left right ∨ relation right left
  trailing : ∀ left right before after,
    relation (left ++ List.replicate before space) (right ++ List.replicate after space) ↔
      relation left right

theorem precedes_orders (change : Byte → Byte) : OrdersStrings (Precedes change) where
  refl string := by
    rw [precedes_iff change (Nat.le_refl _) (Nat.le_refl _)]
    exact Std.ReflCmp.isLE_rfl
  trans first second third before after := by
    -- Keys of one length compare lexicographically; a length that fits all strings makes the order
    -- that of their keys.
    obtain ⟨length, firstFits, secondFits, thirdFits⟩ :
        ∃ length, first.length ≤ length ∧ second.length ≤ length ∧ third.length ≤ length :=
      ⟨max first.length (max second.length third.length), by omega, by omega, by omega⟩
    rw [precedes_iff change firstFits secondFits] at before
    rw [precedes_iff change secondFits thirdFits] at after
    rw [precedes_iff change firstFits thirdFits]
    exact Std.TransCmp.isLE_trans before after
  total left right := by
    have first := Nat.le_max_left left.length right.length
    have second := Nat.le_max_right left.length right.length
    rw [precedes_iff change first second, precedes_iff change second first]
    generalize collationKey change (max left.length right.length) left = key
    generalize collationKey change (max left.length right.length) right = other
    have swap : compare other key = (compare key other).swap := Std.OrientedCmp.eq_swap
    rw [swap]
    cases compare key other <;> decide
  trailing left right before after := by
    obtain ⟨length, first, second⟩ :
        ∃ length, left.length + before ≤ length ∧ right.length + after ≤ length :=
      ⟨max (left.length + before) (right.length + after), by omega, by omega⟩
    have longer : (left ++ List.replicate before space).length ≤ length := by simpa using first
    have alsoLonger : (right ++ List.replicate after space).length ≤ length := by simpa using second
    have shorter : left.length ≤ length := by omega
    have alsoShorter : right.length ≤ length := by omega
    rw [precedes_iff change longer alsoLonger, precedes_iff change shorter alsoShorter, collationKey,
      collationKey, collated_spaces change first, collated_spaces change second, collationKey,
      collationKey]

/-! ## Instructions that compare -/

section

variable [Bus μ] [SlottedBus μ]

/-- Two blocks have been compared. X1 is the length of the longest common prefix of the strings, and
X0 the sign of the pair of bytes after it. Nothing else is different, but for marks of use in entries
of the page table. -/
structure ComparesBlocks (before : Processor) (memory : μ) (instruction : Instruction)
    (change : Byte → Byte) (left right : List Byte) (after : Processor) (kept : μ) : Prop where
  first : before.translation.blockAt memory before.firstLength
    (before.addressRegister instruction.j) = some left
  second : before.translation.blockAt memory before.secondLength
    (before.addressRegister instruction.k) = some right
  compared : ∃ place sign, Compared (collated change (max left.length right.length) left)
      (collated change (max left.length right.length) right) place sign ∧
    after.wordRegister 0 = BitVec.ofInt 64 sign ∧ after.wordRegister 1 = BitVec.ofNat 64 place ∧
    ((before.withWordRegister 0 (BitVec.ofInt 64 sign)).withWordRegister 1
      (BitVec.ofNat 64 place)).Advances instruction after
  keeps : Keeps (before.translation.entrySlots memory) memory kept

variable {before after : Processor} {memory kept : μ} {instruction : Instruction}
  {change : Byte → Byte} {left right : List Byte}

theorem ComparesBlocks.exchange {other later : Processor} {otherMemory laterMemory : μ}
    {otherInstruction : Instruction}
    (compares : ComparesBlocks before memory instruction change left right after kept)
    (again : ComparesBlocks other otherMemory otherInstruction change right left later
      laterMemory) :
    later.wordRegister 0 = -after.wordRegister 0 ∧
      later.wordRegister 1 = after.wordRegister 1 := by
  obtain ⟨place, sign, compared, order, prefixLength, -⟩ := compares.compared
  obtain ⟨_, _, opposite, later, length, -⟩ := again.compared
  rw [Nat.max_comm] at opposite
  obtain ⟨rfl, rfl⟩ := opposite.eq_firstDifference
  obtain ⟨samePlace, sameSign⟩ := compared.swap.eq_firstDifference
  rw [later, length, order, prefixLength, ← samePlace, ← sameSign, BitVec.ofInt_neg]
  exact ⟨rfl, rfl⟩

end

namespace Execution

variable [Bus μ] [SlottedBus μ] {processor after : Processor} {memory kept : μ}
  {instruction : Instruction} {change : Byte → Byte} {left right : List Byte}

structure ComparisonEnds (processor : Processor) (memory : μ) (instruction : Instruction)
    (change : Byte → Byte) (left right : List Byte) (after : Processor) (kept : μ) : Prop where
  first : processor.translation.blockAt memory processor.firstLength
    (processor.addressRegister instruction.j) = some left
  second : processor.translation.blockAt memory processor.secondLength
    (processor.addressRegister instruction.k) = some right
  compared : ∃ place sign, Compared (collated change (max left.length right.length) left)
      (collated change (max left.length right.length) right) place sign ∧
    after = (processor.withWordRegister 0 (BitVec.ofInt 64 sign)).withWordRegister 1
      (BitVec.ofNat 64 place)
  keeps : Keeps (processor.translation.entrySlots memory) memory kept

theorem compareBlocks_ok
    (first : processor.translation.SecludesBlock memory processor.firstLength
      (processor.addressRegister instruction.j))
    (second : processor.translation.SecludesBlock memory processor.secondLength
      (processor.addressRegister instruction.k))
    (ended : (compareBlocks change instruction).ending processor memory =
      ((.ok (), after), kept)) :
    ∃ left right, ComparisonEnds processor memory instruction change left right after kept := by
  rw [compareBlocks, ending, course_get] at ended
  dsimp only at ended
  rw [sourceLength_eq, destinationLength_eq] at ended
  obtain ⟨left, between, holds, keeps, reading⟩ := readVirtual_then first ended
  obtain ⟨right, last, found, marks, settled⟩ :=
    readVirtual_then (keeps.secludesBlock second) reading
  rw [keeps.blockAt_eq second] at found
  cases settled
  have lengths : max left.length right.length = max processor.firstLength processor.secondLength := by
    rw [TranslationUnit.length_blockAt holds, TranslationUnit.length_blockAt found]
  refine ⟨left, right, holds, found, ⟨_, _, .of_firstDifference ?_, ?_⟩, keeps.then_marks marks⟩
  · rw [length_collated, length_collated]
  · rw [lengths, ← orderWord_eq]
    rfl

theorem compareCollated_ok
    (table : processor.translation.SecludesBlock memory 256 (processor.tableOperand instruction))
    (first : processor.translation.SecludesBlock memory processor.firstLength
      (processor.addressRegister instruction.j))
    (second : processor.translation.SecludesBlock memory processor.secondLength
      (processor.addressRegister instruction.k))
    (ended : (compareCollated instruction).ending processor memory = ((.ok (), after), kept)) :
    ∃ entries, processor.translation.blockAt memory 256 (processor.tableOperand instruction) =
        some entries ∧
      ∃ left right, ComparisonEnds processor memory instruction (tableEntry entries) left right
        after kept := by
  rw [compareCollated, readTable, bind_assoc, ending, course_get] at ended
  obtain ⟨entries, between, listed, keeps, comparing⟩ := readVirtual_then table ended
  obtain ⟨left, right, ends⟩ :=
    compareBlocks_ok (keeps.secludesBlock first) (keeps.secludesBlock second) comparing
  exact ⟨entries, listed, left, right, (keeps.blockAt_eq first).symm.trans ends.first,
    (keeps.blockAt_eq second).symm.trans ends.second, ends.compared, keeps.then_marks ends.keeps⟩

end Execution

/-! ## Steps -/

section

variable [Bus μ] [SlottedBus μ] {before running after : Processor} {memory middle kept : μ}
  {instruction : Instruction} {change : Byte → Byte} {left right : List Byte}

omit [SlottedBus μ] in
theorem Runs.advances_words (runs : Runs before memory instruction running middle)
    (first second : Word) :
    ((before.withWordRegister 0 first).withWordRegister 1 second).Advances instruction
      (((running.withWordRegister 0 first).withWordRegister 1 second).commit true) := by
  obtain ⟨_, _, rfl⟩ := runs.begun
  exact ⟨_, _, _, _, _, _, _, _, rfl⟩

theorem Runs.compares (runs : Runs before memory instruction running middle)
    (first : before.translation.SecludesBlock memory before.firstLength
      (before.addressRegister instruction.j))
    (second : before.translation.SecludesBlock memory before.secondLength
      (before.addressRegister instruction.k))
    (ends : Execution.ComparisonEnds running middle instruction change left right after kept) :
    ComparesBlocks before memory instruction change left right (after.commit true) kept := by
  have one := runs.blockAt_eq first
  have two := runs.blockAt_eq second
  have slots := runs.entrySlots_eq
  have keeps := runs.keeps
  have advances := runs.advances_words
  obtain ⟨_, _, rfl⟩ := runs.begun
  obtain ⟨holds, found, ⟨place, sign, compared, rfl⟩, marks⟩ := ends
  rw [slots] at marks
  have advances := advances (BitVec.ofInt 64 sign) (BitVec.ofNat 64 place)
  refine ⟨one.symm.trans holds, two.symm.trans found,
    ⟨place, sign, compared, ?_, ?_, advances⟩, keeps.trans marks⟩
  · refine (advances.registers.2 0).trans ?_
    simp [Processor.wordRegister_withWordRegister]
  · refine (advances.registers.2 1).trans ?_
    simp [Processor.wordRegister_withWordRegister]

/-- A comparison finds the longest common prefix of two strings, and how the bytes after it differ.
With the operands exchanged it finds the opposite order at the same place. The order is a total
preorder, and spaces at the end of a string do not matter to it. -/
theorem blocks_compared :
    (∀ (before : Processor) (memory : μ) instruction after kept,
      CarriesOut before memory instruction after kept →
      before.translation.SecludesBlock memory before.firstLength
        (before.addressRegister instruction.j) →
      before.translation.SecludesBlock memory before.secondLength
        (before.addressRegister instruction.k) →
        (instruction.opcode = 0xFA →
          ∃ left right, ComparesBlocks before memory instruction id left right after kept) ∧
        (instruction.opcode = 0xE9 →
          before.translation.SecludesBlock memory 256 (before.tableOperand instruction) →
            ∃ entries, before.translation.blockAt memory 256 (before.tableOperand instruction) =
                some entries ∧
              ∃ left right, ComparesBlocks before memory instruction (tableEntry entries) left right
                after kept)) ∧
      (∀ (before other after later : Processor) (memory otherMemory kept laterMemory : μ)
        instruction otherInstruction change left right,
        ComparesBlocks before memory instruction change left right after kept →
        ComparesBlocks other otherMemory otherInstruction change right left later laterMemory →
          later.wordRegister 0 = -after.wordRegister 0 ∧
            later.wordRegister 1 = after.wordRegister 1) ∧
      ∀ change, OrdersStrings (Precedes change) := by
  refine ⟨fun before memory instruction after kept carries first second =>
      ⟨fun opcode => ?plain, fun opcode table => ?collated⟩,
    fun _ _ _ _ _ _ _ _ _ _ _ _ _ compares again => compares.exchange again, precedes_orders⟩
  case plain =>
    obtain ⟨running, middle, left, runs, ending, rfl⟩ := carries
    have assigned : Operation.ofOpcode instruction.opcode = some (.block .compare) := by
      rw [opcode]
      rfl
    rw [Execution.execute_block assigned, Execution.block, Execution.compareBytes] at ending
    have one := runs.secludesBlock first
    have two := runs.secludesBlock second
    obtain ⟨_, _, rfl⟩ := runs.begun
    obtain ⟨left, right, ends⟩ := Execution.compareBlocks_ok one two ending
    exact ⟨left, right, runs.compares first second ends⟩
  -- The table is read before the strings, so what it holds is taken over to the start of the step.
  case collated =>
    obtain ⟨running, middle, left, runs, ending, rfl⟩ := carries
    have assigned : Operation.ofOpcode instruction.opcode = some (.block .compareCollated) := by
      rw [opcode]
      rfl
    rw [Execution.execute_block assigned, Execution.block] at ending
    have entries := runs.secludesBlock table
    have sameEntries := runs.blockAt_eq table
    have one := runs.secludesBlock first
    have two := runs.secludesBlock second
    obtain ⟨_, _, rfl⟩ := runs.begun
    obtain ⟨found, listed, left, right, ends⟩ :=
      Execution.compareCollated_ok entries one two ending
    exact ⟨found, sameEntries.symm.trans listed, left, right, runs.compares first second ends⟩

end

/-! A job that compares two bytes with the same two and two more, and one that collates them. -/

def comparing : Instruction := .decode .jk 0xFA12 0

def comparingMemory : CyclicMemory :=
  ⟨4096, movingMemory.store.set 1024 0xFA12000000000000⟩

def collating : Instruction := .decode .jkiD 0xE912 0x3000

def collatingMemory : CyclicMemory :=
  ⟨4096, movingMemory.store.set 1024 0xE912300000000000⟩

/-- In the table a space comes after the second byte of the longer string. -/
def collatingJob : Processor := (copyingJob 0x1F9 0x1F9 1 2).withAddressRegister 3 ⟨11, 0, 0x1D8⟩

/-- A space comes before 0x33, but not in the table. -/
theorem jobs_compared :
    let before := copyingJob 0x1F8 0x1F8 2 4
    let other := copyingJob 0x1F8 0x1F8 4 2
    let plain := (Routine.stepNative.run before).perform comparingMemory
    let exchanged := (Routine.stepNative.run other).perform comparingMemory
    let collated := (Routine.stepNative.run collatingJob).perform collatingMemory
    (ComparesBlocks before comparingMemory comparing id [0x11, 0x22] [0x11, 0x22, 0x33, 0x44]
        plain.1.2 plain.2 ∧
        plain.1.2.wordRegister 0 = Word.allOnes ∧ plain.1.2.wordRegister 1 = 2) ∧
      (exchanged.1.2.wordRegister 0 = -plain.1.2.wordRegister 0 ∧
        exchanged.1.2.wordRegister 1 = plain.1.2.wordRegister 1) ∧
      (∃ entries, ComparesBlocks collatingJob collatingMemory collating (tableEntry entries)
          [0x22] [0x22, 0x33] collated.1.2 collated.2) ∧
        collated.1.2.wordRegister 0 = 1 ∧ collated.1.2.wordRegister 1 = 1 := by
  have plain : CarriesOut (copyingJob 0x1F8 0x1F8 2 4) comparingMemory comparing _ _ :=
    .of_completed (by decide +kernel) (by decide +kernel)
  have exchanged : CarriesOut (copyingJob 0x1F8 0x1F8 4 2) comparingMemory comparing _ _ :=
    .of_completed (by decide +kernel) (by decide +kernel)
  have collated : CarriesOut collatingJob collatingMemory collating _ _ :=
    .of_completed (by decide +kernel) (by decide +kernel)
  have short : Routine.smallJob.translation.SecludesBlock comparingMemory 2 ⟨11, 0, 0x1F8⟩ :=
    (Routine.smallJob_setsBlockApart (run 2 0x21F8) (by decide +kernel) (by decide +kernel)
      (by decide +kernel)).secludes
  have long : Routine.smallJob.translation.SecludesBlock comparingMemory 4 ⟨11, 0, 0x1F8⟩ :=
    (Routine.smallJob_setsBlockApart (run 4 0x21F8) (by decide +kernel) (by decide +kernel)
      (by decide +kernel)).secludes
  have one : Routine.smallJob.translation.SecludesBlock collatingMemory 1 ⟨11, 0, 0x1F9⟩ :=
    (Routine.smallJob_setsBlockApart (run 1 0x21F9) (by decide +kernel) (by decide +kernel)
      (by decide +kernel)).secludes
  have two : Routine.smallJob.translation.SecludesBlock collatingMemory 2 ⟨11, 0, 0x1F9⟩ :=
    (Routine.smallJob_setsBlockApart (run 2 0x21F9) (by decide +kernel) (by decide +kernel)
      (by decide +kernel)).secludes
  have table : Routine.smallJob.translation.SecludesBlock collatingMemory 256 ⟨11, 0, 0x1D8⟩ :=
    (Routine.smallJob_setsBlockApart (run 40 0x21D8 ++ run 216 0x4000) (by decide +kernel)
      (by decide +kernel) (by decide +kernel)).secludes
  have first : Routine.smallJob.translation.blockAt comparingMemory 2 ⟨11, 0, 0x1F8⟩ =
    some [0x11, 0x22] := by decide +kernel
  have second : Routine.smallJob.translation.blockAt comparingMemory 4 ⟨11, 0, 0x1F8⟩ =
    some [0x11, 0x22, 0x33, 0x44] := by decide +kernel
  have third : Routine.smallJob.translation.blockAt collatingMemory 1 ⟨11, 0, 0x1F9⟩ =
    some [0x22] := by decide +kernel
  have fourth : Routine.smallJob.translation.blockAt collatingMemory 2 ⟨11, 0, 0x1F9⟩ =
    some [0x22, 0x33] := by decide +kernel
  obtain ⟨left, right, compares⟩ := (blocks_compared.1 _ _ _ _ _ plain short long).1 rfl
  obtain ⟨longer, shorter, again⟩ := (blocks_compared.1 _ _ _ _ _ exchanged long short).1 rfl
  obtain ⟨entries, -, single, double, collates⟩ :=
    (blocks_compared.1 _ _ _ _ _ collated one two).2 rfl table
  obtain rfl := Option.some.inj (compares.first.symm.trans first)
  obtain rfl := Option.some.inj (compares.second.symm.trans second)
  obtain rfl := Option.some.inj (again.first.symm.trans second)
  obtain rfl := Option.some.inj (again.second.symm.trans first)
  obtain rfl := Option.some.inj (collates.first.symm.trans third)
  obtain rfl := Option.some.inj (collates.second.symm.trans fourth)
  exact ⟨⟨compares, by decide +kernel, by decide +kernel⟩,
    blocks_compared.2.1 _ _ _ _ _ _ _ _ _ _ _ _ _ compares again, ⟨entries, collates⟩,
    by decide +kernel, by decide +kernel⟩

end Mainframe
