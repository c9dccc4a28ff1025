import Mathlib.Tactic.IntervalCases
import Mainframe.Exchange.Package
import Mainframe.Proofs.SaveAreas

/-! The layout of exchange packages. No two parts of a package share a bit of its words, so every
part can be read back; what is read from words and laid out again has their defined bits. -/

set_option autoImplicit false

namespace Mainframe

namespace ExchangePackage

variable (package : ExchangePackage)

/-! ## Where the words are -/

def controls : Vector Word 9 :=
  #v[package.monitorPackage.setWidth 64,
    package.keypointCode,
    (package.segmentLimit ++ package.segmentTable).setWidth 64,
    package.baseConstant,
    package.processTimer.setWidth 64,
    package.untranslatable.toWord,
    package.trapPointer,
    package.debugList,
    (package.debugMask ++ (0 : BitVec 12) ++ package.largestRing).setWidth 64]

theorem toList_toWords : package.toWords.toList =
    tagged (package.key.setWidth 16) package.p ::
      (List.zipWith tagged package.tags.toList package.a.toList ++
        (package.x.toList ++ (package.controls.toList ++
          (package.stackTops.toList.map VirtualAddress.toWord ++ [0])))) := by
  change @Vector.toList Word (1 + 16 + 16 + 9 + 15 + 1) package.toWords = _
  unfold toWords
  simp only [Vector.toList_append, Vector.toList_zipWith, Vector.toList_map, List.append_assoc]
  rfl

variable {package}

theorem getElem_toWords {index : Nat} (inside : index < 58) {word : Word}
    (found : package.toWords.toList[index]? = some word) : package.toWords[index] = word := by
  rw [Vector.getElem?_toList, Vector.getElem?_eq_getElem inside] at found
  exact Option.some.inj found

variable (package)

theorem toWords_addressRegister {index : Nat} (inside : index < 16) :
    package.toWords[index + 1] = tagged package.tags[index] package.a[index] :=
  getElem_toWords _ (by rw [toList_toWords]; simp [List.getElem?_append, inside])

theorem toWords_wordRegister {index : Nat} (inside : index < 16) :
    package.toWords[index + 17] = package.x[index] :=
  getElem_toWords _ (by rw [toList_toWords]; simp [List.getElem?_append, inside])

theorem toWords_control {index : Nat} (inside : index < 9) :
    package.toWords[index + 33] = package.controls[index] :=
  getElem_toWords _ (by rw [toList_toWords]; simp [List.getElem?_append, inside])

theorem toWords_stackTop {index : Nat} (inside : index < 15) :
    package.toWords[index + 42] = package.stackTops[index].toWord :=
  getElem_toWords _ (by rw [toList_toWords]; simp [List.getElem?_append, inside])

theorem toWords_last : package.toWords[57] = 0 :=
  getElem_toWords _ (by rw [toList_toWords]; simp)

/-! ## Reading a package back -/

theorem a_ofWords (words : PackageWords) {index : Nat} (inside : index < 16) :
    (ofWords words).a[index] = .ofWord words[index + 1] := by
  refine (Vector.getElem_map _ inside).trans (congrArg VirtualAddress.ofWord ?_)
  refine (Vector.getElem_extract inside).trans ?_
  simp only [Nat.add_comm 1]

theorem x_ofWords (words : PackageWords) {index : Nat} (inside : index < 16) :
    (ofWords words).x[index] = words[index + 17] := by
  refine (Vector.getElem_extract inside).trans ?_
  simp only [Nat.add_comm 17]

theorem stackTops_ofWords (words : PackageWords) {index : Nat} (inside : index < 15) :
    (ofWords words).stackTops[index] = .ofWord words[index + 42] := by
  refine (Vector.getElem_map _ inside).trans (congrArg VirtualAddress.ofWord ?_)
  refine (Vector.getElem_extract inside).trans ?_
  simp only [Nat.add_comm 42]

theorem ofWords_toWords : ofWords package.toWords = package := by
  -- Every field lies in a word of its own or shares one with fields beside it, so first what each
  -- word is.
  have register (index : Nat) (inside : index < 16) := package.toWords_addressRegister inside
  have control (index : Nat) (inside : index < 9) := package.toWords_control inside
  have address : package.toWords[0] = tagged (package.key.setWidth 16) package.p :=
    getElem_toWords _ (by rw [toList_toWords]; rfl)
  have machines : package.toWords[1] =
    tagged (package.instructionMachine ++ package.virtualMachine ++ (0 : BitVec 8))
      package.a[0] := register 0 (by decide)
  have flags : package.toWords[2] = tagged package.flags.bits package.a[1] :=
    register 1 (by decide)
  have trapControl : package.toWords[3] = tagged package.trapControl.bits package.a[2] :=
    register 2 (by decide)
  have userMask : package.toWords[4] = tagged package.userMask package.a[3] :=
    register 3 (by decide)
  have monitorMask : package.toWords[5] = tagged package.monitorMask package.a[4] :=
    register 4 (by decide)
  have userConditions : package.toWords[6] = tagged package.userConditions package.a[5] :=
    register 5 (by decide)
  have monitorConditions : package.toWords[7] = tagged package.monitorConditions package.a[6] :=
    register 6 (by decide)
  have lastProcessor : package.toWords[8] =
    tagged (package.lastProcessor.setWidth 16) package.a[7] := register 7 (by decide)
  have keypointMask : package.toWords[9] = tagged package.keypointMask package.a[8] :=
    register 8 (by decide)
  have monitorPackage : package.toWords[33] = package.monitorPackage.setWidth 64 :=
    control 0 (by decide)
  have keypointCode : package.toWords[34] = package.keypointCode := control 1 (by decide)
  have segments : package.toWords[35] =
    (package.segmentLimit ++ package.segmentTable).setWidth 64 := control 2 (by decide)
  have baseConstant : package.toWords[36] = package.baseConstant := control 3 (by decide)
  have processTimer : package.toWords[37] = package.processTimer.setWidth 64 :=
    control 4 (by decide)
  have untranslatable : package.toWords[38] = package.untranslatable.toWord :=
    control 5 (by decide)
  have trapPointer : package.toWords[39] = package.trapPointer := control 6 (by decide)
  have debugList : package.toWords[40] = package.debugList := control 7 (by decide)
  have debug : package.toWords[41] =
    (package.debugMask ++ (0 : BitVec 12) ++ package.largestRing).setWidth 64 :=
      control 8 (by decide)
  -- Then what is taken out of it: a tag, a part of a tag, or the word cut to the width of the
  -- field.
  apply ExchangePackage.ext <;> dsimp only [ofWords]
  case p => rw [address, VirtualAddress.ofWord_tagged]
  case key =>
    rw [address, extractLsb'_tagged _ _ (by decide),
      BitVec.extractLsb'_setWidth_of_le (by decide), BitVec.extractLsb'_eq_self]
  case instructionMachine =>
    rw [machines, extractLsb'_tagged _ _ (by decide), BitVec.extractLsb'_append_eq_of_le (by decide)]
    exact BitVec.extractLsb'_append_eq_left
  case virtualMachine =>
    rw [machines, extractLsb'_tagged _ _ (by decide), BitVec.extractLsb'_append_eq_of_le (by decide)]
    exact BitVec.extractLsb'_append_eq_right
  case a =>
    refine Vector.ext fun index inside => (a_ofWords _ inside).trans ?_
    rw [register index inside, VirtualAddress.ofWord_tagged]
  case flags => rw [flags, tagOf_tagged, Flags.ofBits_bits]
  case trapControl => rw [trapControl, tagOf_tagged, TrapControl.ofBits_bits]
  case userMask => rw [userMask, tagOf_tagged]
  case monitorMask => rw [monitorMask, tagOf_tagged]
  case userConditions => rw [userConditions, tagOf_tagged]
  case monitorConditions => rw [monitorConditions, tagOf_tagged]
  case lastProcessor =>
    rw [lastProcessor, extractLsb'_tagged _ _ (by decide),
      BitVec.extractLsb'_setWidth_of_le (by decide), BitVec.extractLsb'_eq_self]
  case keypointMask => rw [keypointMask, tagOf_tagged]
  case x =>
    exact Vector.ext fun index inside =>
      (x_ofWords _ inside).trans (package.toWords_wordRegister inside)
  case monitorPackage => rw [monitorPackage, BitVec.setWidth_setWidth_of_le _ (by decide),
    BitVec.setWidth_eq]
  case keypointCode => exact keypointCode
  case segmentLimit =>
    rw [segments, BitVec.extractLsb'_setWidth_of_le (by decide), BitVec.extractLsb'_append_eq_left]
  case segmentTable =>
    rw [segments, BitVec.extractLsb'_setWidth_of_le (by decide), BitVec.extractLsb'_append_eq_right]
  case baseConstant => exact baseConstant
  case processTimer => rw [processTimer, BitVec.setWidth_setWidth_of_le _ (by decide),
    BitVec.setWidth_eq]
  case untranslatable => rw [untranslatable, VirtualAddress.ofWord_toWord]
  case trapPointer => exact trapPointer
  case debugList => exact debugList
  case debugMask =>
    rw [debug, BitVec.extractLsb'_setWidth_of_le (by decide),
      BitVec.extractLsb'_append_eq_of_le (by decide)]
    exact BitVec.extractLsb'_append_eq_left
  case largestRing =>
    rw [debug, BitVec.extractLsb'_setWidth_of_le (by decide), BitVec.extractLsb'_append_eq_right]
  case stackTops =>
    refine Vector.ext fun index inside => (stackTops_ofWords _ inside).trans ?_
    rw [package.toWords_stackTop inside, VirtualAddress.ofWord_toWord]

/-! ## Laying out what was read -/

def definedTags : Vector (BitVec 16) 16 :=
  #v[0xFF00, 0xC000, 0xE000, 0xFFFF, 0xFFFF, 0xFFFF, 0xFFFF, 0x00FF, 0xFFFF, 0, 0, 0, 0, 0, 0, 0]

def definedControls : Vector Word 9 :=
  #v[0x00000000FFFFFFFF, 0xFFFFFFFFFFFFFFFF, 0x00000FFFFFFFFFFF, 0xFFFFFFFFFFFFFFFF,
    0x00000000FFFFFFFF, 0x0000FFFFFFFFFFFF, 0xFFFFFFFFFFFFFFFF, 0xFFFFFFFFFFFFFFFF,
    0x00000000FFFF000F]

/-- The bits of the words of a package that mean something. -/
def definedBits : PackageWords :=
  Vector.push
    (#v[(0x003F : BitVec 16) ++ BitVec.allOnes 48] ++
      definedTags.map (fun tag => (tag ++ BitVec.allOnes 48 : Word)) ++
      Vector.replicate 16 (BitVec.allOnes 64) ++
      definedControls ++
      Vector.replicate 15 (0x0000FFFFFFFFFFFF : Word))
    0

/-- The last word of a package means nothing, and the others lie in five parts. -/
theorem forall_index {holds : (index : Nat) → index < 58 → Prop} (address : holds 0 (by decide))
    (registers : ∀ index (inside : index < 16), holds (index + 1) (by omega))
    (words : ∀ index (inside : index < 16), holds (index + 17) (by omega))
    (controls : ∀ index (inside : index < 9), holds (index + 33) (by omega))
    (stackTops : ∀ index (inside : index < 15), holds (index + 42) (by omega))
    (last : holds 57 (by decide)) (index : Nat) (inside : index < 58) : holds index inside := by
  rcases index with _ | index
  · exact address
  by_cases one : index < 16
  · exact registers index one
  by_cases two : index < 32
  · obtain ⟨place, rfl⟩ := Nat.exists_eq_add_of_le' (Nat.le_of_not_lt one)
    exact words place (by omega)
  by_cases three : index < 41
  · obtain ⟨place, rfl⟩ := Nat.exists_eq_add_of_le' (Nat.le_of_not_lt two)
    exact controls place (by omega)
  by_cases four : index < 56
  · obtain ⟨place, rfl⟩ := Nat.exists_eq_add_of_le' (Nat.le_of_not_lt three)
    exact stackTops place (by omega)
  · obtain rfl : index = 56 := by omega
    exact last

theorem tagged_ofWord (tag : BitVec 16) (word : Word) :
    tagged (tagOf word &&& tag) (.ofWord word) = word &&& (tag ++ BitVec.allOnes 48) := by
  apply BitVec.eq_of_getLsbD_eq
  intro bit inside
  simp only [tagged, tagOf, VirtualAddress.ofWord, VirtualAddress.bits, BitVec.getLsbD_append,
    BitVec.getLsbD_extractLsb', BitVec.getLsbD_and, BitVec.getLsbD_allOnes]
  grind

theorem machines_ofWords (word : Word) :
    word.extractLsb' 60 4 ++ word.extractLsb' 56 4 ++ (0 : BitVec 8) = tagOf word &&& 0xFF00 := by
  have mask : (0xFF00 : BitVec 16) = BitVec.allOnes 8 ++ (0 : BitVec 8) := rfl
  rw [mask]
  apply BitVec.eq_of_getLsbD_eq
  intro bit inside
  simp only [tagOf, BitVec.getLsbD_append, BitVec.getLsbD_extractLsb', BitVec.getLsbD_and,
    BitVec.getLsbD_allOnes]
  grind

theorem bits_ofBits_flags (bits : BitVec 16) : (Flags.ofBits bits).bits = bits &&& 0xC000 := by
  have mask : (0xC000 : BitVec 16) = BitVec.allOnes 2 ++ (0 : BitVec 14) := rfl
  rw [mask]
  apply BitVec.eq_of_getLsbD_eq
  intro bit inside
  simp only [Flags.ofBits, Flags.bits, BitVec.getLsbD_append, BitVec.getLsbD_ofBool, BitVec.getLsbD_and,
    BitVec.getLsbD_allOnes]
  grind

theorem bits_ofBits_trapControl (bits : BitVec 16) : (TrapControl.ofBits bits).bits = bits &&& 0xE000 := by
  have mask : (0xE000 : BitVec 16) = BitVec.allOnes 3 ++ (0 : BitVec 13) := rfl
  rw [mask]
  apply BitVec.eq_of_getLsbD_eq
  intro bit inside
  simp only [TrapControl.ofBits, TrapControl.bits, BitVec.getLsbD_append, BitVec.getLsbD_ofBool, BitVec.getLsbD_and,
    BitVec.getLsbD_allOnes]
  grind

theorem setWidth_extractLsb'_eq_and (wide width start : Nat) (word : Word) :
    (word.extractLsb' start width).setWidth wide =
      word.extractLsb' start wide &&& (BitVec.allOnes width).setWidth wide := by
  apply BitVec.eq_of_getLsbD_eq
  intro bit inside
  simp only [BitVec.getLsbD_setWidth, BitVec.getLsbD_extractLsb', BitVec.getLsbD_and,
    BitVec.getLsbD_allOnes]
  grind

theorem setWidth_setWidth_eq_and (word : Word) (width : Nat) :
    (word.setWidth width).setWidth 64 = word &&& (BitVec.allOnes width).setWidth 64 := by
  apply BitVec.eq_of_getLsbD_eq
  intro bit inside
  simp only [BitVec.getLsbD_setWidth, BitVec.getLsbD_and, BitVec.getLsbD_allOnes]
  grind

theorem segments_ofWords (word : Word) :
    (word.extractLsb' 32 12 ++ word.extractLsb' 0 32).setWidth 64 =
      word &&& 0x00000FFFFFFFFFFF := by
  have joined : word.extractLsb' 32 12 ++ word.extractLsb' 0 32 = word.extractLsb' 0 44 :=
    BitVec.extractLsb'_append_extractLsb'_eq_extractLsb' rfl
  rw [joined, setWidth_extractLsb'_eq_and, BitVec.extractLsb'_eq_self]
  rfl

theorem debug_ofWords (word : Word) :
    (word.extractLsb' 16 16 ++ (0 : BitVec 12) ++ word.extractLsb' 0 4).setWidth 64 =
      word &&& 0x00000000FFFF000F := by
  have mask : (0x00000000FFFF000F : Word) =
    (BitVec.allOnes 16 ++ (0 : BitVec 12) ++ BitVec.allOnes 4).setWidth 64 := rfl
  rw [mask]
  apply BitVec.eq_of_getLsbD_eq
  intro bit inside
  simp only [BitVec.getLsbD_setWidth, BitVec.getLsbD_append, BitVec.getLsbD_extractLsb',
    BitVec.getLsbD_and, BitVec.getLsbD_allOnes]
  grind

theorem tags_ofWords (words : PackageWords) : ∀ index (inside : index < 16),
    (ofWords words).tags[index] = tagOf words[index + 1] &&& definedTags[index] := by
  intro index inside
  interval_cases index
  · exact machines_ofWords words[1]
  · exact bits_ofBits_flags _
  · exact bits_ofBits_trapControl _
  · exact (BitVec.and_allOnes).symm
  · exact (BitVec.and_allOnes).symm
  · exact (BitVec.and_allOnes).symm
  · exact (BitVec.and_allOnes).symm
  · exact setWidth_extractLsb'_eq_and 16 8 48 words[8]
  · exact (BitVec.and_allOnes).symm
  all_goals exact (BitVec.and_zero).symm

theorem controls_ofWords (words : PackageWords) : ∀ index (inside : index < 9),
    (ofWords words).controls[index] = words[index + 33] &&& definedControls[index] := by
  intro index inside
  interval_cases index
  · exact setWidth_setWidth_eq_and words[33] 32
  · exact (BitVec.and_allOnes).symm
  · exact segments_ofWords words[35]
  · exact (BitVec.and_allOnes).symm
  · exact setWidth_setWidth_eq_and words[37] 32
  · exact (VirtualAddress.toWord_ofWord _).trans (setWidth_setWidth_eq_and words[38] 48)
  · exact (BitVec.and_allOnes).symm
  · exact (BitVec.and_allOnes).symm
  · exact debug_ofWords words[41]

theorem toWords_ofWords (words : PackageWords) :
    ∀ index (inside : index < 58),
      (ofWords words).toWords[index] = words[index] &&& definedBits[index] := by
  -- The mask goes by the same kinds of words as the package.
  have registers : ∀ place : Fin 16,
      definedBits[place.val + 1] = definedTags[place] ++ BitVec.allOnes 48 := by decide +kernel
  have plain : ∀ place : Fin 16, definedBits[place.val + 17] = BitVec.allOnes 64 := by
    decide +kernel
  have controls : ∀ place : Fin 9, definedBits[place.val + 33] = definedControls[place] := by
    decide +kernel
  have stackTops : ∀ place : Fin 15, definedBits[place.val + 42] = 0x0000FFFFFFFFFFFF := by
    decide +kernel
  apply forall_index
  case address =>
    have address : (ofWords words).toWords[0] =
        tagged ((ofWords words).key.setWidth 16) (ofWords words).p :=
      getElem_toWords _ (by rw [toList_toWords]; rfl)
    rw [address]
    have first : definedBits[0] = (0x003F : BitVec 16) ++ BitVec.allOnes 48 := by decide +kernel
    rw [first, ← tagged_ofWord]
    exact congrArg (tagged · _) (setWidth_extractLsb'_eq_and 16 6 48 words[0])
  case registers =>
    intro place inside
    rw [toWords_addressRegister _ inside, tags_ofWords words place inside, registers ⟨place, inside⟩,
      a_ofWords, tagged_ofWord]
    rfl
  case words =>
    intro place inside
    rw [toWords_wordRegister _ inside, plain ⟨place, inside⟩, x_ofWords, BitVec.and_allOnes]
  case controls =>
    intro place inside
    rw [toWords_control _ inside, controls_ofWords words place inside, controls ⟨place, inside⟩]
    rfl
  case stackTops =>
    intro place inside
    rw [toWords_stackTop _ inside, stackTops ⟨place, inside⟩, stackTops_ofWords,
      VirtualAddress.toWord_ofWord]
    exact setWidth_setWidth_eq_and _ 48
  case last =>
    have last : definedBits[57] = 0 := by decide +kernel
    rw [toWords_last, last]
    exact BitVec.and_zero.symm

end ExchangePackage

end Mainframe
