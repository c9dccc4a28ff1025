import Mainframe.Proofs.Computations

/-! Bit fields as views of a word. What is put into a field is what is taken out of it, and no bit
outside the field changes. A field is described from the left end of the word and moved by its
distance from the right end, so everything is first said of single bits. -/

set_option autoImplicit false

namespace Mainframe

theorem Word.toNat_and_lowOnes (word : Word) {count : Nat} (within : count ≤ 64) :
    (word &&& lowOnes count).toNat = word.toNat % 2 ^ count := by
  have bounded : 2 ^ count ≤ 2 ^ 64 := Nat.pow_le_pow_right (by decide) within
  have positive : 0 < 2 ^ count := Nat.two_pow_pos count
  rw [BitVec.toNat_and, lowOnes, Nat.min_eq_left within, Nat.one_shiftLeft, BitVec.toNat_ofNat,
    Nat.mod_eq_of_lt (by omega), Nat.and_two_pow_sub_one_eq_mod]

namespace BitField

variable (field other : BitField) (word value : Word)

/-- A bit of the word, counted from the left end, belongs to the field. -/
def Holds (bit : Nat) : Prop := field.position ≤ bit ∧ bit < field.position + field.length

def Disjoint : Prop := ∀ bit, field.Holds bit → ¬ other.Holds bit

/-! ## Single bits -/

theorem holds_iff {bit : Nat} (inside : bit < 64) :
    field.Holds (63 - bit) ↔ field.shift ≤ bit ∧ bit < field.shift + field.length := by
  have fits := field.fits
  unfold Holds shift
  omega

theorem shift_add_length_le : field.shift + field.length ≤ 64 := by
  have fits := field.fits
  unfold shift
  omega

theorem getLsbD_mask (bit : Nat) :
    field.mask.getLsbD bit =
      (decide (field.shift ≤ bit) && decide (bit < field.shift + field.length)) := by
  have fits := field.shift_add_length_le
  rw [mask, BitVec.getLsbD_shiftLeft, Word.getLsbD_lowOnes]
  grind

theorem getLsbD_isolate (bit : Nat) :
    (field.isolate word).getLsbD bit =
      (decide (bit < field.length) && word.getLsbD (field.shift + bit)) := by
  have fits := field.shift_add_length_le
  rw [isolate, BitVec.getLsbD_and, BitVec.getLsbD_ushiftRight, Word.getLsbD_lowOnes]
  grind

theorem getLsbD_insert {bit : Nat} (inside : bit < 64) :
    (field.insert word value).getLsbD bit =
      if field.shift ≤ bit ∧ bit < field.shift + field.length then
        value.getLsbD (bit - field.shift)
      else word.getLsbD bit := by
  rw [insert, BitVec.getLsbD_or, BitVec.getLsbD_and, BitVec.getLsbD_not, getLsbD_mask,
    BitVec.getLsbD_shiftLeft, BitVec.getLsbD_and, Word.getLsbD_lowOnes]
  grind

/-! ## Laws -/

theorem getMsbD_mask {bit : Nat} : field.mask.getMsbD bit = true ↔ field.Holds bit := by
  have fits := field.fits
  rw [BitVec.getMsbD_eq_getLsbD, getLsbD_mask]
  unfold Holds shift
  grind

theorem isolate_insert :
    field.isolate (field.insert word value) = value &&& Word.lowOnes field.length := by
  have fits := field.shift_add_length_le
  apply BitVec.eq_of_getLsbD_eq
  intro bit inside
  rw [getLsbD_isolate, BitVec.getLsbD_and, Word.getLsbD_lowOnes]
  by_cases within : bit < field.length
  · rw [getLsbD_insert _ _ _ (by omega), if_pos (by omega), Nat.add_sub_cancel_left]
    simp [within, inside]
  · simp [within]

theorem insert_isolate : field.insert word (field.isolate word) = word := by
  apply BitVec.eq_of_getLsbD_eq
  intro bit inside
  rw [getLsbD_insert _ _ _ inside]
  split
  · next within =>
    rw [getLsbD_isolate, Nat.add_sub_cancel' within.1]
    simp [Nat.sub_lt_left_of_lt_add within.1 within.2]
  · rfl

theorem insert_insert (first second : Word) :
    field.insert (field.insert word first) second = field.insert word second := by
  apply BitVec.eq_of_getLsbD_eq
  intro bit inside
  simp only [getLsbD_insert _ _ _ inside]
  split <;> rfl

theorem getMsbD_insert {bit : Nat} (inside : bit < 64) (outside : ¬ field.Holds bit) :
    (field.insert word value).getMsbD bit = word.getMsbD bit := by
  have place := field.holds_iff (show 63 - bit < 64 by omega)
  rw [Nat.sub_sub_self (Nat.le_of_lt_succ inside)] at place
  rw [place] at outside
  rw [BitVec.getMsbD_eq_getLsbD, BitVec.getMsbD_eq_getLsbD, getLsbD_insert _ _ _ (by omega),
    if_neg outside]

variable {field other} in
theorem Disjoint.insert_comm (disjoint : field.Disjoint other) (first second : Word) :
    other.insert (field.insert word first) second =
      field.insert (other.insert word second) first := by
  apply BitVec.eq_of_getLsbD_eq
  intro bit inside
  have apart := disjoint (63 - bit)
  rw [holds_iff _ inside, holds_iff _ inside] at apart
  rw [getLsbD_insert _ _ _ inside, getLsbD_insert _ _ _ inside, getLsbD_insert _ _ _ inside,
    getLsbD_insert _ _ _ inside]
  grind

theorem isolate_shiftLeft : field.isolate word <<< field.shift = word &&& field.mask := by
  apply BitVec.eq_of_getLsbD_eq
  intro bit inside
  rw [BitVec.getLsbD_shiftLeft, getLsbD_isolate, BitVec.getLsbD_and, getLsbD_mask]
  grind

/-- Bits 6 to 11 of a descriptor, counted from the right end, are the position of the field and bits
0 to 5 are one less than its length. -/
theorem ofDescriptor_eq_some_iff (descriptor : HalfWord) (field : BitField) :
    ofDescriptor descriptor = some field ↔
      field.position = descriptor.toNat / 2 ^ 6 % 2 ^ 6 ∧
        field.length = descriptor.toNat % 2 ^ 6 + 1 := by
  have position : (descriptor.extractLsb' 6 6).toNat = descriptor.toNat / 2 ^ 6 % 2 ^ 6 := by
    rw [BitVec.extractLsb'_toNat, Nat.shiftRight_eq_div_pow]
  have length : (descriptor.extractLsb' 0 6).toNat = descriptor.toNat % 2 ^ 6 := by
    rw [BitVec.extractLsb'_toNat, Nat.shiftRight_zero]
  have fits := field.fits
  rw [ofDescriptor, position, length]
  constructor
  · intro described
    split at described
    · cases described
      exact ⟨rfl, rfl⟩
    · cases described
  · rintro ⟨same, long⟩
    rw [dif_pos (by omega)]
    cases field
    cases same
    cases long
    rfl

theorem exists_ofDescriptor_iff (descriptor : HalfWord) :
    (∃ field, ofDescriptor descriptor = some field) ↔
      descriptor.toNat / 2 ^ 6 % 2 ^ 6 + (descriptor.toNat % 2 ^ 6 + 1) ≤ 64 := by
  constructor
  · rintro ⟨field, described⟩
    obtain ⟨position, length⟩ := (ofDescriptor_eq_some_iff descriptor field).mp described
    have fits := field.fits
    omega
  · intro fits
    exact ⟨⟨_, _, fits⟩, (ofDescriptor_eq_some_iff descriptor _).mpr ⟨rfl, rfl⟩⟩

/-- A field is a lens on words. What is put in can be taken out, what is taken out can be put back,
and of two values that are put in the second one stays. Nothing but the field changes. -/
structure IsLens : Prop where
  masked : ∀ bit, field.mask.getMsbD bit = true ↔ field.Holds bit
  inserted : ∀ word value,
    (field.isolate (field.insert word value)).toNat = value.toNat % 2 ^ field.length
  restored : ∀ word, field.insert word (field.isolate word) = word
  overwritten : ∀ word first second,
    field.insert (field.insert word first) second = field.insert word second
  outside : ∀ word value bit, bit < 64 → ¬ field.Holds bit →
    (field.insert word value).getMsbD bit = word.getMsbD bit
  commutes : ∀ other, field.Disjoint other → ∀ word first second,
    other.insert (field.insert word first) second = field.insert (other.insert word second) first
  placed : ∀ word,
    field.isolate word <<< (64 - (field.position + field.length)) = word &&& field.mask

theorem isLens : field.IsLens where
  masked bit := field.getMsbD_mask
  inserted word value := by
    have fits := field.fits
    rw [isolate_insert, Word.toNat_and_lowOnes _ (by omega)]
  restored := field.insert_isolate
  overwritten := field.insert_insert
  outside word value bit := field.getMsbD_insert word value
  commutes other disjoint word := disjoint.insert_comm word
  placed word := by
    rw [← Nat.sub_sub]
    exact field.isolate_shiftLeft word

end BitField

/-! ## Instructions on fields -/

variable {μ : Type} [Bus μ] {before ready running : Processor} {memory middle : μ}
  {instruction : Instruction} {field : BitField}

theorem Processor.ComesTo.perform_field (value : BitField → Word → Word → Word)
    {computation : Computation}
    (comes : before.ComesTo memory ready instruction running middle)
    (assigned : Operation.ofOpcode instruction.opcode = some (.compute computation))
    (outcome : ∀ processor, computation.outcome processor instruction =
      processor.fieldOutcome instruction fun field =>
        value field (processor.wordRegister instruction.j) (processor.wordRegister instruction.k))
    (described : ready.fieldOperand instruction = some field) :
    ∃ after, (Routine.step.run before).perform memory = ((.executed, after), middle) ∧
      (ready.withWordRegister instruction.k (value field (ready.wordRegister instruction.j)
        (ready.wordRegister instruction.k))).Advances instruction after := by
  refine comes.perform_word assigned fun untranslatable privilege => ?_
  -- The fetch has left all word registers as they were.
  have same : ((ready.beginInstruction.tracing untranslatable privilege).withInstruction
      instruction).fieldOperand instruction = some field := described
  rw [outcome, Processor.fieldOutcome, same]
  rfl

namespace BitField

/-- A descriptor is accepted just if its field ends within the word, and every field is a lens. A
field that one instruction has filled from Xj is taken out by another as it was put in. -/
theorem fields_lenses :
    (∀ descriptor : HalfWord,
      let position := descriptor.toNat / 2 ^ 6 % 2 ^ 6
      let length := descriptor.toNat % 2 ^ 6 + 1
      ((∃ field, ofDescriptor descriptor = some field) ↔ position + length ≤ 64) ∧
        ∀ field, ofDescriptor descriptor = some field →
          field.position = position ∧ field.length = length) ∧
    (∀ field : BitField, field.IsLens) ∧
    ∀ (before ready running : Processor) (memory middle : μ) (insertion : Instruction)
      (field : BitField),
      insertion.opcode = 0xAE → before.ComesTo memory ready insertion running middle →
      ready.fieldOperand insertion = some field →
      ∃ after, (Routine.step.run before).perform memory = ((.executed, after), middle) ∧
        (ready.withWordRegister insertion.k (field.insert (ready.wordRegister insertion.k)
          (ready.wordRegister insertion.j))).Advances insertion after ∧
        ∀ (later resumed going : Processor) (present left : μ) (isolation : Instruction),
          isolation.opcode = 0xAD → isolation.j = insertion.k →
          later.ComesTo present resumed isolation going left →
          resumed.fieldOperand isolation = some field →
          resumed.wordRegister insertion.k = after.wordRegister insertion.k →
          ∃ final, (Routine.step.run later).perform present = ((.executed, final), left) ∧
            (resumed.withWordRegister isolation.k (BitVec.ofNat 64
              ((ready.wordRegister insertion.j).toNat % 2 ^ field.length))).Advances isolation
              final := by
  refine ⟨fun descriptor => ⟨exists_ofDescriptor_iff descriptor, fun field =>
    (ofDescriptor_eq_some_iff descriptor field).mp⟩, isLens, ?_⟩
  intro before ready running memory middle insertion field inserts comes described
  have assigned : Operation.ofOpcode insertion.opcode = some (.compute .insertField) := by
    rw [inserts]
    rfl
  obtain ⟨after, performed, advances⟩ := comes.perform_field
    (fun field xj xk => field.insert xk xj) assigned (fun _ => rfl) described
  refine ⟨after, performed, advances, ?_⟩
  intro later resumed going present left isolation isolates names reaches again kept
  have assigned : Operation.ofOpcode isolation.opcode = some (.compute .isolateField) := by
    rw [isolates]
    rfl
  obtain ⟨final, done, moves⟩ := reaches.perform_field
    (fun field xj _ => field.isolate xj) assigned (fun _ => rfl) again
  refine ⟨final, done, ?_⟩
  have contents : after.wordRegister insertion.k = field.insert (ready.wordRegister insertion.k)
      (ready.wordRegister insertion.j) := by
    obtain ⟨_, _, _, _, _, _, _, _, rfl⟩ := advances
    exact (ready.wordRegister_withWordRegister _ _ _).trans (if_pos rfl)
  have taken : field.isolate (resumed.wordRegister isolation.j) =
      BitVec.ofNat 64 ((ready.wordRegister insertion.j).toNat % 2 ^ field.length) := by
    rw [names, kept, contents, ← field.isLens.inserted, BitVec.ofNat_toNat, BitVec.setWidth_eq]
  rwa [taken] at moves

end BitField

/-! A job that puts the end of X1 into bits 4 to 11 of X2, and takes it from there to X3. -/

def fieldJob : Processor :=
  (Routine.smallJob.withWordRegister 1 0x1234).withWordRegister 2 Word.allOnes

def fieldMemory : CyclicMemory :=
  ⟨4096, ((WordStore.empty.set 0 0x6ABB000000000000).set 512 0x8000000000000010).set 1024
    0xAE120107AD230107⟩

def fieldInsertion : Instruction := .decode .jkiD 0xAE12 0x0107

def fieldIsolation : Instruction := .decode .jkiD 0xAD23 0x0107

def resumedFrom (processor : Processor) : Processor :=
  { processor with freeRunning := processor.freeRunning + 1, pending := .proceed }

def fetchedFrom (processor : Processor) (memory : CyclicMemory) :
    (Except Condition Instruction × Processor) × CyclicMemory :=
  Execution.fetchInstruction.ending processor.fetching memory

theorem fieldJob_isolates :
    let filled := (Routine.step.run fieldJob).perform fieldMemory
    fieldJob.ComesTo fieldMemory (resumedFrom fieldJob) fieldInsertion
        ((fetchedFrom fieldJob fieldMemory).1.2.withInstruction fieldInsertion)
        (fetchedFrom fieldJob fieldMemory).2 ∧
      filled.1.2.ComesTo filled.2 (resumedFrom filled.1.2) fieldIsolation
        ((fetchedFrom filled.1.2 filled.2).1.2.withInstruction fieldIsolation)
        (fetchedFrom filled.1.2 filled.2).2 ∧
      filled.1.2.wordRegister 2 = 0xF34FFFFFFFFFFFFF ∧
      ∃ final, (Routine.step.run filled.1.2).perform filled.2 =
          ((.executed, final), (fetchedFrom filled.1.2 filled.2).2) ∧
        ((resumedFrom filled.1.2).withWordRegister 3 0x34).Advances fieldIsolation final := by
  intro filled
  have fills : fieldJob.ComesTo fieldMemory (resumedFrom fieldJob) fieldInsertion _ _ :=
    .of_fetched ⟨rfl, rfl, by decide⟩ (by decide +kernel)
  have takes : filled.1.2.ComesTo filled.2 (resumedFrom filled.1.2) fieldIsolation _ _ :=
    .of_fetched ⟨by decide +kernel, by decide +kernel, by decide +kernel⟩ (by decide +kernel)
  obtain ⟨after, performed, -, isolates⟩ := BitField.fields_lenses.2.2 fieldJob _ _ fieldMemory _
    fieldInsertion ⟨4, 8, by decide⟩ rfl fills (by decide +kernel)
  obtain rfl : filled.1.2 = after := congrArg (·.1.2) performed
  exact ⟨fills, takes, by decide +kernel,
    isolates _ _ _ _ _ _ rfl rfl takes (by decide +kernel) rfl⟩

end Mainframe
