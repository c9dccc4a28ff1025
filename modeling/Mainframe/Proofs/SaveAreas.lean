import Mainframe.Processor.Step
import Mainframe.Proofs.Completion

/-! Save areas. Every part of what a save area keeps can be read back from its words, and the
activation that is resumed from them is the one that was saved, with the registers outside the
saved range as the callee left them. -/

set_option autoImplicit false

namespace Mainframe

/-! ## Tags and descriptors -/

@[simp] theorem tagOf_tagged (tag : BitVec 16) (address : VirtualAddress) :
    tagOf (tagged tag address) = tag := BitVec.extractLsb'_append_eq_left

@[simp] theorem VirtualAddress.ofWord_tagged (tag : BitVec 16) (address : VirtualAddress) :
    ofWord (tagged tag address) = address := by
  apply VirtualAddress.ext <;> apply BitVec.eq_of_getLsbD_eq <;> intro bit inside <;>
    simp only [ofWord, tagged, bits, BitVec.getLsbD_append, BitVec.getLsbD_extractLsb'] <;> grind

theorem setWidth_narrow {wide : Nat} (narrow : Nat) {bits : BitVec wide}
    (small : bits.toNat < 2 ^ narrow) : (bits.setWidth narrow).setWidth wide = bits := by
  apply BitVec.eq_of_toNat_eq
  rw [BitVec.toNat_setWidth, BitVec.toNat_setWidth, Nat.mod_eq_of_lt small,
    Nat.mod_eq_of_lt bits.isLt]

theorem extractLsb'_tagged (tag : BitVec 16) (address : VirtualAddress) {start width : Nat}
    (above : 48 ≤ start) :
    (tagged tag address).extractLsb' start width = tag.extractLsb' (start - 48) width :=
  BitVec.extractLsb'_append_eq_of_le above

theorem mem_registersBetween {first last number : RegisterNumber} :
    number ∈ registersBetween first last ↔ first ≤ number ∧ number ≤ last := by
  have small := number.isLt
  have bounded := last.isLt
  simp only [registersBetween, List.mem_map, List.mem_range'_1, BitVec.le_def]
  constructor
  · rintro ⟨index, inside, rfl⟩
    rw [BitVec.toNat_ofNat]
    omega
  · intro inside
    exact ⟨number.toNat, by omega, by simp⟩

namespace SavedRange

def frameLength (range : SavedRange) : Nat :=
  4 + range.addressNumbers.length + range.wordNumbers.length

def Reaches (range : SavedRange) : Prop := 2 ≤ range.lastAddress

theorem reaches_ofBits (bits : BitVec 12) : (ofBits bits).Reaches := by
  unfold Reaches ofBits
  dsimp only
  split
  · exact BitVec.le_refl _
  · next low => exact BitVec.not_lt.mp low

theorem ofBits_bits {range : SavedRange} (reaches : range.Reaches) : ofBits range.bits = range := by
  obtain ⟨lastAddress, firstWord, lastWord⟩ := range
  have last : (lastAddress ++ firstWord ++ lastWord).extractLsb' 8 4 = lastAddress := by
    apply BitVec.eq_of_getLsbD_eq
    intro bit inside
    simp only [BitVec.getLsbD_append, BitVec.getLsbD_extractLsb']
    grind
  apply SavedRange.ext
  · unfold ofBits bits
    dsimp only
    rw [last, if_neg (BitVec.not_lt.mpr reaches)]
  all_goals
    apply BitVec.eq_of_getLsbD_eq
    intro bit inside
    simp only [ofBits, bits, BitVec.getLsbD_append, BitVec.getLsbD_extractLsb']
    grind

theorem mem_addressNumbers_ofBits (bits : BitVec 12) (number : RegisterNumber) :
    number ∈ (ofBits bits).addressNumbers ∨ number ∈ [(0 : RegisterNumber), 1, 2] ↔
      number ≤ 2 ∨ number ≤ bits.extractLsb' 8 4 := by
  have always : number ∈ [(0 : RegisterNumber), 1, 2] ↔ number ≤ 2 := by
    revert number
    decide
  rw [always, addressNumbers, mem_registersBetween]
  dsimp only [ofBits]
  generalize bits.extractLsb' 8 4 = last
  revert number last
  decide

end SavedRange

namespace FrameDescriptor

theorem ofBits_bits {descriptor : FrameDescriptor} (reaches : descriptor.range.Reaches) :
    ofBits descriptor.bits = descriptor := by
  obtain ⟨⟨criticalFrame, onCondition⟩, isTrap, range⟩ := descriptor
  have low : (bits ⟨⟨criticalFrame, onCondition⟩, isTrap, range⟩).extractLsb' 0 12 = range.bits := by
    apply BitVec.eq_of_getLsbD_eq
    intro bit inside
    simp only [bits, BitVec.getLsbD_append, BitVec.getLsbD_extractLsb']
    grind
  apply FrameDescriptor.ext
  · simp only [ofBits, bits, BitVec.getLsbD_append]
    simp
  · simp only [ofBits, bits, BitVec.getLsbD_append]
    simp
  · exact (congrArg SavedRange.ofBits low).trans (SavedRange.ofBits_bits reaches)

end FrameDescriptor

/-! ## Restoring registers -/

namespace Processor

theorem nativeView_native {processor : Processor} (native : processor.instructionSet = .native) :
    processor.nativeView = ⟨processor.p, processor.a, processor.x⟩ := by
  unfold nativeView
  rw [native]

/-- A register that is restored among others has its own value, even if it is named again. -/
theorem restored_cons {α : Type} (value : RegisterNumber → α)
    (numbers : List RegisterNumber) (first number : RegisterNumber) (kept : α) :
    (if number ∈ numbers then value number else if first = number then value first else kept) =
      if number ∈ first :: numbers then value number else kept := by
  by_cases same : first = number
  · subst same
    simp
  · simp [Ne.symm same, same]

variable (processor : Processor)

theorem addressRegister_restoreAddresses (floor : Nat) {numbers : List RegisterNumber}
    {words : List Word} {value : RegisterNumber → VirtualAddress}
    (same : words.map VirtualAddress.ofWord = numbers.map value) (number : RegisterNumber) :
    (processor.restoreAddresses floor numbers words).addressRegister number =
      if number ∈ numbers then (value number).ringAtLeast floor
      else processor.addressRegister number := by
  induction numbers generalizing processor words with
  | nil => rfl
  | cons first rest ih =>
    rcases words with _ | ⟨word, words⟩
    · cases same
    obtain ⟨here, after⟩ := List.cons.inj same
    have step : processor.restoreAddresses floor (first :: rest) (word :: words) =
        (processor.withAddressRegister first
          ((VirtualAddress.ofWord word).ringAtLeast floor)).restoreAddresses floor rest words := rfl
    rw [step, ih _ after, addressRegister_withAddressRegister, here]
    exact restored_cons (fun number => (value number).ringAtLeast floor) rest first number _

@[simp] theorem addressRegister_restoreWords (numbers : List RegisterNumber) (words : List Word)
    (number : RegisterNumber) :
    (processor.restoreWords numbers words).addressRegister number =
      processor.addressRegister number := by
  obtain ⟨x, same⟩ := processor.restoreWords_eq numbers words
  rw [same]
  rfl

@[simp] theorem wordRegister_restoreAddresses (floor : Nat) (numbers : List RegisterNumber)
    (words : List Word) (number : RegisterNumber) :
    (processor.restoreAddresses floor numbers words).wordRegister number =
      processor.wordRegister number := by
  obtain ⟨a, same⟩ := processor.restoreAddresses_eq floor numbers words
  rw [same]
  rfl

theorem wordRegister_restoreWords (numbers : List RegisterNumber) (word : RegisterNumber → Word)
    (number : RegisterNumber) :
    (processor.restoreWords numbers (numbers.map word)).wordRegister number =
      if number ∈ numbers then word number else processor.wordRegister number := by
  induction numbers generalizing processor with
  | nil => rfl
  | cons first rest ih =>
    have step : processor.restoreWords (first :: rest) ((first :: rest).map word) =
        (processor.withWordRegister first (word first)).restoreWords rest (rest.map word) := rfl
    rw [step, ih, wordRegister_withWordRegister]
    exact restored_cons word rest first number _

end Processor

/-! ## Recovering what was saved -/

namespace SaveArea

variable {area : SaveArea}

@[simp] theorem range_descriptor (area : SaveArea) : area.descriptor.range = area.range := rfl

def addresses (area : SaveArea) : List Word :=
  area.range.addressNumbers.map fun number => (area.address number).toWord

def savedWords (area : SaveArea) : List Word := area.range.wordNumbers.map area.word

theorem words_eq (area : SaveArea) :
    area.words = tagged ((area.key.setWidth 6).setWidth 16) area.returnAddress ::
      tagged (area.virtualMachine ++ (0 : BitVec 12)) (area.address 0) ::
      tagged area.descriptor.bits (area.address 1) :: tagged area.userMask (area.address 2) ::
      (area.addresses ++ (area.savedWords ++ (area.delivered.map conditionWord).toList)) := by
  simp [words, addresses, savedWords]

theorem length_words (area : SaveArea) :
    area.words.length = area.range.frameLength + (area.delivered.map conditionWord).toList.length := by
  simp only [words_eq, addresses, savedWords, List.length_cons, List.length_append,
    List.length_map, SavedRange.frameLength]
  omega

/-- The words that a return goes by are those of the area. -/
structure Recovers (area : SaveArea) (zeroth first second third : Word)
    (addresses words : List Word) : Prop where
  zeroth : zeroth = tagged ((area.key.setWidth 6).setWidth 16) area.returnAddress
  first : first = tagged (area.virtualMachine ++ (0 : BitVec 12)) (area.address 0)
  second : second = tagged area.descriptor.bits (area.address 1)
  third : third = tagged area.userMask (area.address 2)
  addresses : addresses = area.addresses
  words : words = area.savedWords

theorem Recovers.returnAddress {zeroth first second third : Word} {addresses words : List Word}
    (recovers : area.Recovers zeroth first second third addresses words) :
    VirtualAddress.ofWord zeroth = area.returnAddress := by
  rw [recovers.zeroth, VirtualAddress.ofWord_tagged]

theorem Recovers.machine {zeroth first second third : Word} {addresses words : List Word}
    (recovers : area.Recovers zeroth first second third addresses words) :
    first.extractLsb' 60 4 = area.virtualMachine := by
  rw [recovers.first]
  exact (extractLsb'_tagged _ _ (by decide)).trans BitVec.extractLsb'_append_eq_left

/-- Words that agree with an area as far as either goes have the same parts as the area. -/
theorem recovers_of_agrees {zeroth first second third : Word} {addresses words : List Word}
    (reaches : area.range.Reaches)
    (agrees : ∀ (index : Nat) (found expected : Word),
      (zeroth :: first :: second :: third :: (addresses ++ words))[index]? = some found →
        area.words[index]? = some expected → found = expected)
    (sized : addresses.length =
      (FrameDescriptor.ofBits (tagOf second)).range.addressNumbers.length)
    (length : words.length = (FrameDescriptor.ofBits (tagOf second)).range.wordNumbers.length) :
    area.Recovers zeroth first second third addresses words := by
  rw [words_eq] at agrees
  -- The third word tells how many registers follow, and it agrees.
  have described := agrees 2 _ _ rfl rfl
  have descriptor : FrameDescriptor.ofBits (tagOf second) = area.descriptor := by
    rw [described, tagOf_tagged, FrameDescriptor.ofBits_bits reaches]
  rw [descriptor] at sized length
  have sized : addresses.length = area.addresses.length := by rw [sized, SaveArea.addresses,
    List.length_map, range_descriptor]
  have length : words.length = area.savedWords.length := by rw [length, SaveArea.savedWords,
    List.length_map, range_descriptor]
  refine ⟨agrees 0 _ _ rfl rfl, agrees 1 _ _ rfl rfl, described, agrees 3 _ _ rfl rfl, ?_, ?_⟩
  · refine List.ext_getElem sized fun index inside there => agrees (index + 4) _ _ ?_ ?_
    · change (addresses ++ words)[index]? = _
      rw [List.getElem?_append_left inside, List.getElem?_eq_getElem inside]
    · change (area.addresses ++ _)[index]? = _
      rw [List.getElem?_append_left there, List.getElem?_eq_getElem there]
  · refine List.ext_getElem length fun index inside there =>
      agrees (addresses.length + index + 4) _ _ ?_ ?_
    · change (addresses ++ words)[addresses.length + index]? = _
      rw [List.getElem?_append_right (Nat.le_add_right _ _), Nat.add_sub_cancel_left,
        List.getElem?_eq_getElem inside]
    · change (area.addresses ++ (area.savedWords ++ _))[addresses.length + index]? = _
      rw [sized, List.getElem?_append_right (Nat.le_add_right _ _), Nat.add_sub_cancel_left,
        List.getElem?_append_left there, List.getElem?_eq_getElem there]

end SaveArea

/-! ## The resumed activation -/

/-- The activation of an area goes on. Its saved registers are back, with rings of at least the
floor, and the others are as the callee left them. -/
structure SaveArea.Resumes (area : SaveArea) (floor : Nat) (callee after : Processor) :
    Prop where
  p : after.p = area.returnAddress
  key : after.key = (area.key.setWidth 6).setWidth 8
  userMask : after.userMask = area.userMask
  flags : after.flags = area.flags
  addresses : ∀ number, after.addressRegister number =
    if number ∈ area.range.addressNumbers ∨ number ∈ [(0 : RegisterNumber), 1, 2] then
      (area.address number).ringAtLeast floor
    else callee.addressRegister number
  words : ∀ number, after.wordRegister number =
    if number ∈ area.range.wordNumbers then area.word number else callee.wordRegister number

theorem Processor.resume_registers {area : SaveArea} {zeroth first second third : Word}
    {addresses words : List Word} (callee : Processor) (reaches : area.range.Reaches)
    (recovers : area.Recovers zeroth first second third addresses words)
    (frame returnAddress : VirtualAddress) (number : RegisterNumber) :
    let resumed := callee.resume frame returnAddress first second third addresses words
    (resumed.addressRegister number =
      if number ∈ area.range.addressNumbers ∨ number ∈ [(0 : RegisterNumber), 1, 2] then
        (area.address number).ringAtLeast (max frame.ring.toNat returnAddress.ring.toNat)
      else callee.addressRegister number) ∧
    resumed.wordRegister number =
      if number ∈ area.range.wordNumbers then area.word number else callee.wordRegister number := by
  obtain ⟨rfl, rfl, rfl, rfl, rfl, rfl⟩ := recovers
  have descriptor : FrameDescriptor.ofBits area.descriptor.bits = area.descriptor :=
    FrameDescriptor.ofBits_bits reaches
  unfold Processor.resume
  simp only [tagOf_tagged, descriptor, SaveArea.range_descriptor]
  -- Leaving the ring records a stack, which is not part of what is restored.
  have left : ∃ stackTops,
      (if returnAddress.ring = callee.currentAddress.ring then callee
        else callee.withStackTop callee.currentAddress.ring.toNat (callee.addressRegister 0)) =
          { callee with stackTops } := by
    split
    · exact ⟨callee.stackTops, rfl⟩
    · exact callee.withStackTop_eq _ _
  obtain ⟨stackTops, left⟩ := left
  rw [left]
  -- The first three address registers are restored before the range, in which they may be named
  -- again.
  have fixed : [tagged (area.virtualMachine ++ (0 : BitVec 12)) (area.address 0),
      tagged area.descriptor.bits (area.address 1), tagged area.userMask (area.address 2)].map
        VirtualAddress.ofWord = [(0 : RegisterNumber), 1, 2].map area.address := by simp
  have others : area.addresses.map VirtualAddress.ofWord =
      area.range.addressNumbers.map area.address := by
    rw [SaveArea.addresses, List.map_map]
    apply List.map_congr_left
    intro number _
    exact VirtualAddress.ofWord_toWord _
  constructor
  · refine (addressRegister_restoreWords _ _ _ _).trans ?_
    rw [addressRegister_restoreAddresses _ _ others, addressRegister_restoreAddresses _ _ fixed,
      ite_or]
    rfl
  · refine (wordRegister_restoreWords _ _ _ _).trans ?_
    rw [wordRegister_restoreAddresses, wordRegister_restoreAddresses]
    rfl

theorem Processor.returned_resumes {area : SaveArea} {zeroth first second third : Word}
    {addresses words : List Word} (callee : Processor) (reaches : area.range.Reaches)
    (native : area.virtualMachine ≠ 1)
    (recovers : area.Recovers zeroth first second third addresses words) :
    area.Resumes (max (callee.addressRegister 2).ring.toNat area.returnAddress.ring.toNat) callee
      ((callee.returned zeroth first second third addresses words).commit true) := by
  have descriptor : FrameDescriptor.ofBits area.descriptor.bits = area.descriptor :=
    FrameDescriptor.ofBits_bits reaches
  have registers := callee.resume_registers reaches recovers (callee.addressRegister 2)
    area.returnAddress
  unfold Processor.returned
  rw [recovers.machine, if_neg native, recovers.returnAddress]
  exact {
    p := rfl
    key := by
      rw [recovers.zeroth, tagOf_tagged]
      change (((area.key.setWidth 6).setWidth 16).setWidth 6).setWidth 8 = _
      rw [BitVec.setWidth_setWidth_of_le _ (show 6 ≤ 16 by decide), BitVec.setWidth_eq]
    userMask := by
      rw [recovers.third]
      exact tagOf_tagged _ _
    flags := by
      rw [recovers.second]
      unfold Processor.resume
      dsimp only [Processor.commit]
      rw [tagOf_tagged, descriptor]
      rfl
    addresses := fun number => (registers number).1
    words := fun number => (registers number).2 }

/-- Traps and recorded conditions are not part of what is resumed. -/
theorem SaveArea.Resumes.rescanned {area : SaveArea} {floor : Nat} {callee resumed : Processor}
    (resumes : area.Resumes floor callee (resumed.commit true)) :
    area.Resumes floor callee (resumed.withTraps.rescanned.commit true) ∧
      (resumed.withTraps.rescanned.commit true).trapControl.enabled = true := by
  obtain ⟨_, _, _, same⟩ := resumed.withTraps.rescanned_eq
  rw [same]
  exact ⟨⟨resumes.p, resumes.key, resumes.userMask, resumes.flags, resumes.addresses,
    resumes.words⟩, rfl⟩

theorem Processor.leaving_resumes {area : SaveArea} {zeroth first second third : Word}
    {addresses words : List Word} (callee : Processor) (reaches : area.range.Reaches)
    (native : area.virtualMachine ≠ 1)
    (recovers : area.Recovers zeroth first second third addresses words) :
    let after := (callee.leaving zeroth first second third addresses words).commit true
    area.Resumes (max (callee.addressRegister 2).ring.toNat area.returnAddress.ring.toNat) callee
      after ∧ (area.delivered.isSome = true → after.trapControl.enabled = true) := by
  have resumed := callee.returned_resumes reaches native recovers
  have trap : (FrameDescriptor.ofBits (tagOf second)).isTrap = area.delivered.isSome := by
    rw [recovers.second, tagOf_tagged, FrameDescriptor.ofBits_bits reaches]
    rfl
  unfold Processor.leaving
  dsimp only
  rw [trap]
  split
  · exact ⟨resumed.rescanned.1, fun _ => resumed.rescanned.2⟩
  · next plain => exact ⟨resumed, fun delivered => absurd delivered plain⟩

end Mainframe
