import Mainframe.Proofs.Cells
import Mainframe.Proofs.Exchanges
import Mainframe.Proofs.LegacyViews
import Mainframe.Proofs.PackageLayout
import Mainframe.Proofs.PreciseFaults

/-! Storing and loading exchange packages. A state that was stored is what a load takes over, and
the words of a package that was loaded are those that are stored again, but for the bits that mean
nothing. -/

set_option autoImplicit false

namespace Mainframe

variable {μ : Type} [Bus μ]

/-! ## Vectors of words in memory -/

namespace Activity

def wordPlace (address : Address) (index : Nat) : Address := address + BitVec.ofNat 64 (8 * index)

theorem wordPlace_succ (address : Address) (index : Nat) :
    wordPlace (address + 8) index = wordPlace address (index + 1) := by
  unfold wordPlace
  rw [Nat.mul_succ, Nat.add_comm, BitVec.ofNat_add, BitVec.add_assoc]
  rfl

theorem wordPlace_zero (address : Address) : wordPlace address 0 = address := BitVec.add_zero address

theorem getElem_readVector (memory : μ) (address : Address) (count : Nat) :
    ∀ index (inside : index < count), ((readVector address count).perform memory).1[index] =
      Bus.readWord memory (wordPlace address index) := by
  induction count with
  | zero => exact fun index inside => absurd inside (Nat.not_lt_zero index)
  | succ count ih =>
    intro index inside
    have pushed : ((readVector address (count + 1)).perform memory).1 =
        ((readVector address count).perform memory).1.push
          (Bus.readWord memory (wordPlace address count)) := by
      rw [readVector, perform_bind, (readVector_reads address count).perform_memory]
      rfl
    simp only [pushed, Vector.getElem_push]
    split
    · next before => exact ih index before
    · next after =>
      obtain rfl : index = count := by omega
      rfl

variable [SlottedBus μ]

theorem perform_writeAll (words : List Word) (address : Address) (memory : μ) :
    let kept := ((writeAll words address).perform memory).2
    (∀ place, SlottedBus.slot kept place = SlottedBus.slot memory place) ∧
      ∀ place, (∀ index < words.length,
        SlottedBus.slot memory place ≠ SlottedBus.slot memory (wordPlace address index)) →
          Bus.readWord kept place = Bus.readWord memory place := by
  induction words generalizing address memory with
  | nil => exact ⟨fun _ => rfl, fun _ _ => rfl⟩
  | cons word rest ih =>
    obtain ⟨slots, others⟩ := ih (address + 8) (Bus.writeWord memory address word)
    refine ⟨fun place => (slots place).trans (SlottedBus.slot_writeWord _ _ _ _), ?_⟩
    intro place outside
    have first := outside 0 (Nat.succ_pos _)
    rw [wordPlace_zero] at first
    refine (others place fun index inside => ?_).trans ?_
    · rw [SlottedBus.slot_writeWord, SlottedBus.slot_writeWord, wordPlace_succ]
      exact outside (index + 1) (Nat.succ_lt_succ inside)
    · rw [SlottedBus.readWord_writeWord, if_neg fun same => first same.1]

theorem readWord_writeAll {words : List Word} {address : Address} {memory : μ}
    (exist : ∀ index < words.length, SlottedBus.slot memory (wordPlace address index) ≠ none)
    (distinct : ∀ index < words.length, ∀ other < words.length,
      SlottedBus.slot memory (wordPlace address index) =
        SlottedBus.slot memory (wordPlace address other) → index = other)
    (index : Nat) (inside : index < words.length) :
    Bus.readWord ((writeAll words address).perform memory).2 (wordPlace address index) =
      words[index] := by
  induction words generalizing address memory index with
  | nil => exact absurd inside (Nat.not_lt_zero index)
  | cons word rest ih =>
    cases index with
    | zero =>
      -- Words that are written later go to other slots.
      obtain ⟨-, others⟩ := perform_writeAll rest (address + 8) (Bus.writeWord memory address word)
      refine (others _ fun other within same => ?_).trans ?_
      · rw [SlottedBus.slot_writeWord, SlottedBus.slot_writeWord, wordPlace_succ] at same
        cases distinct 0 inside (other + 1) (Nat.succ_lt_succ within) same
      · have there := exist 0 inside
        rw [wordPlace_zero] at there ⊢
        rw [SlottedBus.readWord_writeWord, if_pos ⟨rfl, there⟩]
        rfl
    | succ index =>
      rw [← wordPlace_succ]
      refine ih (fun other within => ?_) (fun first one second two same => ?_) index
        (Nat.lt_of_succ_lt_succ inside)
      · rw [SlottedBus.slot_writeWord, wordPlace_succ]
        exact exist (other + 1) (Nat.succ_lt_succ within)
      · rw [SlottedBus.slot_writeWord, SlottedBus.slot_writeWord, wordPlace_succ,
          wordPlace_succ] at same
        exact Nat.succ.inj (distinct (first + 1) (Nat.succ_lt_succ one) (second + 1)
          (Nat.succ_lt_succ two) same)

/-- The words of a package area exist and differ from each other. -/
structure HoldsPackage (memory : μ) (address : HalfWord) : Prop where
  exist : ∀ index < 58, SlottedBus.slot memory (wordPlace (address.setWidth 64) index) ≠ none
  distinct : ∀ index < 58, ∀ other < 58,
    SlottedBus.slot memory (wordPlace (address.setWidth 64) index) =
      SlottedBus.slot memory (wordPlace (address.setWidth 64) other) → index = other

theorem HoldsPackage.readWord {memory : μ} {address : HalfWord}
    (holds : HoldsPackage memory address) (package : ExchangePackage) (index : Nat)
    (inside : index < 58) :
    Bus.readWord ((writePackage address package).perform memory).2
      (wordPlace (address.setWidth 64) index) = package.toWords[index] := by
  have length : package.toWords.toList.length = 58 := Vector.length_toList
  refine (readWord_writeAll ?_ ?_ index (by rwa [length])).trans (Vector.getElem_toList _)
  · rw [length]
    exact holds.exist
  · rw [length]
    exact holds.distinct

theorem HoldsPackage.readPackage {memory : μ} {address : HalfWord}
    (holds : HoldsPackage memory address) (package : ExchangePackage) :
    ((readPackage address).perform ((writePackage address package).perform memory).2).1 =
      package := by
  have words : ((readVector (address.setWidth 64) 58).perform
      ((writePackage address package).perform memory).2).1 = package.toWords :=
    Vector.ext fun index inside =>
      (getElem_readVector _ _ _ index inside).trans (holds.readWord package index inside)
  rw [Activity.readPackage, perform_bind, words]
  exact package.ofWords_toWords

end Activity

/-! ## The state in a package -/

namespace Processor

/-- A package has room for the whole state. -/
structure Packable (processor : Processor) : Prop where
  key : processor.key.toNat < 2 ^ 6
  virtualMachine : processor.virtualMachine.toNat < 2 ^ 4
  largestRing : processor.largestRing.toNat < 2 ^ 4
  legacy : ∀ registers, processor.instructionSet = .legacy registers →
    registers.WithinWidths ∧ processor.p.byteNumber = registers.byteNumber

/-- What a package keeps is the same in both states; of a native state the registers as well. -/
structure Reproduces (before after : Processor) : Prop where
  p : after.p = before.p
  key : after.key = before.key
  registers : before.instructionSet = .native → after.a = before.a ∧ after.x = before.x
  instructionSet : after.instructionSet = before.instructionSet
  virtualMachine : after.virtualMachine = before.virtualMachine
  flags : after.flags = before.flags
  trapControl : after.trapControl = before.trapControl
  userMask : after.userMask = before.userMask
  monitorMask : after.monitorMask = before.monitorMask
  userConditions : after.userConditions = before.userConditions
  monitorConditions : after.monitorConditions = before.monitorConditions
  lastProcessor : after.lastProcessor = before.lastProcessor
  largestRing : after.largestRing = before.largestRing
  keypointMask : after.keypointMask = before.keypointMask
  keypointCode : after.keypointCode = before.keypointCode
  monitorPackage : after.monitorPackage = before.monitorPackage
  segmentTable : after.translation.segmentTable = before.translation.segmentTable
  segmentLimit : after.translation.segmentLimit = before.translation.segmentLimit
  untranslatable : after.translation.untranslatable = before.translation.untranslatable
  baseConstant : after.baseConstant = before.baseConstant
  processTimer : after.processTimer = before.processTimer
  trapPointer : after.trapPointer = before.trapPointer
  debugList : after.debugList = before.debugList
  debugMask : after.debugMask = before.debugMask
  stackTops : after.stackTops = before.stackTops

variable {before : Processor}

theorem Packable.nativeView (packable : before.Packable) : before.nativeView.p = before.p := by
  unfold Processor.nativeView
  split
  · rfl
  · next registers legacy =>
    obtain ⟨-, same⟩ := packable.legacy registers legacy
    exact VirtualAddress.ext rfl rfl same.symm

theorem Packable.instructionSet_load (packable : before.Packable) (later : Processor)
    (address : HalfWord) :
    (later.load before.package address false).instructionSet = before.instructionSet := by
  unfold load package
  dsimp only
  cases instructionSet : before.instructionSet with
  | native => rfl
  | legacy registers =>
    obtain ⟨within, -⟩ := packable.legacy registers instructionSet
    have view : before.nativeView = registers.toNative before.p := by
      unfold Processor.nativeView
      rw [instructionSet]
    rw [view]
    exact congrArg InstructionSet.legacy (LegacyRegisters.ofNative_toNative within before.p)

theorem Packable.reproduces (packable : before.Packable) (later : Processor)
    (address : HalfWord) : before.Reproduces (later.load before.package address false) where
  p := packable.nativeView
  key := setWidth_narrow 6 packable.key
  registers native := by
    have view := nativeView_native native
    exact ⟨congrArg LegacyRegisters.Native.a view, congrArg LegacyRegisters.Native.x view⟩
  instructionSet := packable.instructionSet_load later address
  virtualMachine := setWidth_narrow 4 packable.virtualMachine
  flags := rfl
  trapControl := rfl
  userMask := rfl
  monitorMask := rfl
  userConditions := rfl
  monitorConditions := rfl
  lastProcessor := rfl
  largestRing := setWidth_narrow 4 packable.largestRing
  keypointMask := rfl
  keypointCode := rfl
  monitorPackage := rfl
  segmentTable := rfl
  segmentLimit := rfl
  untranslatable := rfl
  baseConstant := rfl
  processTimer := rfl
  trapPointer := rfl
  debugList := rfl
  debugMask := rfl
  stackTops := rfl

theorem package_load (package : ExchangePackage) (native : package.instructionMachine = 0)
    (later : Processor) (address : HalfWord) :
    (later.load package address false).package = package := by
  have set : (later.load package address false).instructionSet = .native := by
    refine if_neg ?_
    rw [native]
    decide
  have view := nativeView_native set
  apply ExchangePackage.ext
  case p => exact congrArg LegacyRegisters.Native.p view
  case key =>
    exact (BitVec.setWidth_setWidth_of_le _ (show 6 ≤ 8 by decide)).trans (BitVec.setWidth_eq _)
  case instructionMachine =>
    refine Eq.trans ?_ native.symm
    exact congrArg InstructionSet.virtualMachine set
  case virtualMachine =>
    exact (BitVec.setWidth_setWidth_of_le _ (show 4 ≤ 8 by decide)).trans (BitVec.setWidth_eq _)
  case a => exact congrArg LegacyRegisters.Native.a view
  case x => exact congrArg LegacyRegisters.Native.x view
  case largestRing =>
    exact (BitVec.setWidth_setWidth_of_le _ (show 4 ≤ 8 by decide)).trans (BitVec.setWidth_eq _)
  all_goals rfl

end Processor

/-! ## Storing and loading -/

namespace Routine

theorem run_storePackage (address : HalfWord) (processor : Processor) (memory : μ) :
    ((storePackage address).run processor).perform memory =
      (((), processor), ((Activity.writePackage address processor.package).perform memory).2) := by
  have finished := perform_storePackage address processor (fun _ => pure ()) memory
  rwa [bind_pure] at finished

theorem perform_loadPackage (address : HalfWord) (toMonitor : Bool) (processor : Processor)
    (memory : μ) :
    ((loadPackage address toMonitor).run processor).perform memory =
      if address.extractLsb' 0 3 ≠ 0 then ((.error (.misaligned address), processor), memory)
      else
        let package := ((Activity.readPackage address).perform memory).1
        match package.validate address toMonitor with
        | .error error => ((.error error, processor), memory)
        | .ok () => ((.ok (), { processor.load package address toMonitor with
            pending := .proceed }), memory) := by
  unfold loadPackage
  split
  · rfl
  · dsimp only
    rw [perform_liftM, (Activity.readPackage_reads address).perform_memory]
    generalize ((Activity.readPackage address).perform memory).1 = package
    rcases package.validate address toMonitor with error | _
    · rfl
    · dsimp only
      rw [StateT.run_bind, StateT.run_get, pure_bind]
      dsimp only
      generalize processor.load package address toMonitor = entered
      rw [StateT.run_bind, StateT.run_set, pure_bind]
      split
      · rfl
      · rfl

theorem loadPackage_ok {address : HalfWord} {toMonitor : Bool} {processor : Processor} {memory : μ}
    (loads : (((loadPackage address toMonitor).run processor).perform memory).1.1 = .ok ()) :
    ((loadPackage address toMonitor).run processor).perform memory =
      ((.ok (), { processor.load ((Activity.readPackage address).perform memory).1 address
        toMonitor with pending := .proceed }), memory) := by
  rw [perform_loadPackage] at loads ⊢
  split at loads
  · cases loads
  next aligned =>
  rw [if_neg aligned]
  dsimp only at loads ⊢
  split at loads
  · cases loads
  · rfl

theorem loadPackage_accepts {address : HalfWord} {toMonitor : Bool} {processor : Processor}
    {memory : μ} :
    (((loadPackage address toMonitor).run processor).perform memory).1.1 = .ok () ↔
      address.extractLsb' 0 3 = 0 ∧
        ((Activity.readPackage address).perform memory).1.validate address toMonitor = .ok () := by
  rw [perform_loadPackage]
  by_cases aligned : address.extractLsb' 0 3 = 0
  · rw [if_neg (not_not.mpr aligned)]
    dsimp only
    cases ((Activity.readPackage address).perform memory).1.validate address toMonitor with
    | ok accepted => exact ⟨fun _ => ⟨aligned, rfl⟩, fun _ => rfl⟩
    | error refused =>
      constructor
      · rintro ⟨⟩
      · rintro ⟨-, ⟨⟩⟩
  · rw [if_pos aligned]
    constructor
    · rintro ⟨⟩
    · exact fun both => absurd both.1 aligned

omit [Bus μ] in
theorem validate_package (before : Processor) (address : HalfWord) :
    before.package.validate address false = .ok () ↔
      before.instructionSet = .native ∨ before.p.ring ≠ 1 := by
  have ring : before.package.p.ring = before.p.ring := by
    unfold Processor.package Processor.nativeView
    cases before.instructionSet <;> rfl
  have machine : before.package.instructionMachine = before.instructionSet.virtualMachine := rfl
  unfold ExchangePackage.validate
  rw [ring, machine]
  cases before.instructionSet with
  | native => exact ⟨fun _ => .inl rfl, fun _ => rfl⟩
  | legacy registers =>
    rw [InstructionSet.virtualMachine, if_neg (by decide), if_pos rfl, if_neg (by decide)]
    split
    · next one => simp [one]
    · next other => exact ⟨fun _ => .inr other, fun _ => rfl⟩

variable [SlottedBus μ] {memory : μ}

/-- Whatever the state that a stored package is loaded into, the stored state is reproduced. The
load is refused if the area is not aligned, and where a job of the older instruction set must not
run. -/
theorem stored_package_reproduces {before : Processor} {address : HalfWord}
    (packable : before.Packable) (holds : Activity.HoldsPackage memory address)
    (later : Processor) :
    let stored := (((storePackage address).run before).perform memory).2
    let ended := ((loadPackage address false).run later).perform stored
    (ended.1.1 = .ok () ↔ address.extractLsb' 0 3 = 0 ∧
      (before.instructionSet = .native ∨ before.p.ring ≠ 1)) ∧
    (ended.1.1 = .ok () → before.Reproduces ended.1.2) := by
  intro stored ended
  have read : ((Activity.readPackage address).perform stored).1 = before.package := by
    unfold stored
    rw [run_storePackage, holds.readPackage]
  constructor
  · unfold ended
    rw [loadPackage_accepts, read, validate_package]
  · intro loads
    unfold ended at loads ⊢
    rw [loadPackage_ok loads, read]
    exact { packable.reproduces later address with }

/-- What is stored after a load are the words that were loaded, without the bits that mean
nothing. -/
theorem loaded_package_rewritten {later : Processor} {source destination : HalfWord}
    (loads : (((loadPackage source false).run later).perform memory).1.1 = .ok ())
    (native : (Bus.readWord memory (Activity.wordPlace (source.setWidth 64) 1)).extractLsb' 60 4 = 0)
    (holds : Activity.HoldsPackage memory destination) :
    let loaded := ((loadPackage source false).run later).perform memory
    let kept := (((storePackage destination).run loaded.1.2).perform loaded.2).2
    (∀ index (inside : index < 58),
      Bus.readWord kept (Activity.wordPlace (destination.setWidth 64) index) =
        Bus.readWord memory (Activity.wordPlace (source.setWidth 64) index) &&&
          ExchangePackage.definedBits[index]) ∧
    ∀ place, (∀ index < 58, SlottedBus.slot memory place ≠
        SlottedBus.slot memory (Activity.wordPlace (destination.setWidth 64) index)) →
      Bus.readWord kept place = Bus.readWord memory place := by
  intro loaded kept
  let words := ((Activity.readVector (source.setWidth 64) 58).perform memory).1
  have read : ((Activity.readPackage source).perform memory).1 = .ofWords words := by
    rw [Activity.readPackage, Activity.perform_bind]
    rfl
  have found (index : Nat) (inside : index < 58) :
      words[index] = Bus.readWord memory (Activity.wordPlace (source.setWidth 64) index) :=
    Activity.getElem_readVector memory _ 58 index inside
  have machine : (ExchangePackage.ofWords words).instructionMachine = 0 :=
    (congrArg (BitVec.extractLsb' 60 4) (found 1 (by decide))).trans native
  -- Loading changes no memory, and what is stored is the package that was loaded.
  have written : kept = ((Activity.writePackage destination (.ofWords words)).perform memory).2 := by
    unfold kept loaded
    rw [run_storePackage, loadPackage_ok loads, read]
    exact congrArg (fun package => ((Activity.writePackage destination package).perform memory).2)
      (Processor.package_load _ machine later source)
  rw [written]
  constructor
  · intro index inside
    rw [holds.readWord, ExchangePackage.toWords_ofWords, found index inside]
  · intro place outside
    obtain ⟨-, others⟩ := Activity.perform_writeAll
      (ExchangePackage.ofWords words).toWords.toList (destination.setWidth 64) memory
    refine others place ?_
    rw [Vector.length_toList]
    exact outside

/-- Storing and loading packages. A stored state is reproduced wherever it is loaded, unless the
area is not aligned or the job must not run; a native job that was loaded is stored again word for
word, without the bits that mean nothing, and no other word changes. -/
theorem package_codec (memory : μ) (later : Processor) :
    (∀ (before : Processor) (address : HalfWord), before.Packable →
      Activity.HoldsPackage memory address →
        let stored := (((storePackage address).run before).perform memory).2
        let ended := ((loadPackage address false).run later).perform stored
        (ended.1.1 = .ok () ↔ address.extractLsb' 0 3 = 0 ∧
          (before.instructionSet = .native ∨ before.p.ring ≠ 1)) ∧
        (ended.1.1 = .ok () → before.Reproduces ended.1.2)) ∧
    ∀ source destination : HalfWord,
      (((loadPackage source false).run later).perform memory).1.1 = .ok () →
      (Bus.readWord memory (Activity.wordPlace (source.setWidth 64) 1)).extractLsb' 60 4 = 0 →
      Activity.HoldsPackage memory destination →
        let loaded := ((loadPackage source false).run later).perform memory
        let kept := (((storePackage destination).run loaded.1.2).perform loaded.2).2
        (∀ index (inside : index < 58),
          Bus.readWord kept (Activity.wordPlace (destination.setWidth 64) index) =
            Bus.readWord memory (Activity.wordPlace (source.setWidth 64) index) &&&
              ExchangePackage.definedBits[index]) ∧
        ∀ place, (∀ index < 58, SlottedBus.slot memory place ≠
            SlottedBus.slot memory (Activity.wordPlace (destination.setWidth 64) index)) →
          Bus.readWord kept place = Bus.readWord memory place :=
  ⟨fun _ _ packable holds => stored_package_reproduces packable holds later,
    fun _ _ loads native holds => loaded_package_rewritten loads native holds⟩

def olderRegisters : LegacyRegisters :=
  { LegacyRegisters.zero with
    p := 5
    parcel := 2
    a := Vector.replicate 8 0x3FFFF
    b := Vector.replicate 8 0x20001
    x := Vector.replicate 8 0xF800000000000001
    fieldLength := 0xFFFFFF }

def olderJob : Processor :=
  { smallJob with p := ⟨11, 0, 0x2C⟩, key := 9, instructionSet := .legacy olderRegisters }

def packageMemory : CyclicMemory :=
  ⟨4096, ((((WordStore.empty.set 1024 0xFFFFFFFFFFFFFFFF).set 1025 0x0FFFFFFFFFFFFFFF).set 1065
    0xFFFFFFFFFFFFFFFF).set 1081 0xFFFFFFFFFFFFFFFF)⟩

theorem olderJob_codec :
    olderJob.Reproduces (((loadPackage 0x3000 false).run smallJob).perform
      (((storePackage 0x3000).run olderJob).perform packageMemory).2).1.2 ∧
    Bus.readWord (((storePackage 0x3000).run (((loadPackage 0x2000 false).run
      smallJob).perform packageMemory).1.2).perform (((loadPackage 0x2000 false).run
        smallJob).perform packageMemory).2).2 0x3148 = 0x00000000FFFF000F := by
  have within : olderRegisters.WithinWidths :=
    ⟨by decide, by decide, by decide, by decide, by decide, by decide⟩
  have packable : olderJob.Packable := ⟨by decide, by decide, by decide, by
    rintro registers ⟨⟩
    exact ⟨within, by decide⟩⟩
  have holds : Activity.HoldsPackage packageMemory 0x3000 :=
    ⟨by decide +kernel, by decide +kernel⟩
  obtain ⟨stored, rewritten⟩ := package_codec packageMemory smallJob
  obtain ⟨accepted, reproduces⟩ := stored olderJob 0x3000 packable holds
  obtain ⟨masked, -⟩ := rewritten 0x2000 0x3000 (by decide +kernel) (by decide +kernel) holds
  refine ⟨reproduces (accepted.mpr ⟨by decide, .inr (by decide)⟩), ?_⟩
  exact (masked 41 (by decide)).trans (by decide +kernel)

end Routine

end Mainframe
