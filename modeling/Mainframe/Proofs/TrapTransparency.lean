import Mainframe.Proofs.RoundTrips
import Mainframe.Proofs.Traps

/-! Traps are transparent. A handler that leaves its frame alone and returns takes the interrupted
activation back to where it was, whatever it has done to the registers. -/

set_option autoImplicit false

namespace Mainframe

variable {μ : Type} [Bus μ] [SlottedBus μ]

/-! ## What a trap saves -/

theorem SavedRange.reaches_all : all.Reaches := show (2 : BitVec 4) ≤ 15 by decide

theorem SavedRange.mem_all (number : RegisterNumber) :
    (number ∈ all.addressNumbers ∨ number ∈ [(0 : RegisterNumber), 1, 2]) ∧
      number ∈ all.wordNumbers := by
  revert number
  decide

namespace Processor

/-- The words of the save area of a trap: four fixed ones, those of thirteen address registers and
of sixteen word registers, and the delivered conditions. -/
def trapFrameLength : Nat := 34

theorem length_trapArea (interrupted : Processor) (monitorBits userBits : ConditionBits) :
    (interrupted.trapArea monitorBits userBits).words.length = trapFrameLength := by
  rw [SaveArea.length_words]
  rfl

theorem trapArea_native {interrupted : Processor} (native : interrupted.instructionSet = .native)
    (monitorBits userBits : ConditionBits) :
    interrupted.trapArea monitorBits userBits = {
      returnAddress := interrupted.p
      key := interrupted.key
      virtualMachine := 0
      flags := interrupted.flags
      userMask := interrupted.userMask
      a := interrupted.a
      x := interrupted.x
      range := .all
      delivered := some (monitorBits, userBits) } := by
  unfold trapArea
  rw [nativeView_native native, native]
  rfl

theorem addressRegister_handling {interrupted : Processor}
    (native : interrupted.instructionSet = .native) (entry : EntryPoint) (top : VirtualAddress) :
    (interrupted.handling entry top).addressRegister 2 = interrupted.addressRegister 0 := by
  refine (addressRegister_bound_activate _ _ _ _ _ _).trans ?_
  rw [nativeView_native native]
  rfl

end Processor

/-! ## Entering the handler -/

namespace Routine

def EntersHandler (interrupted : Processor) (memory : μ) (entered : Processor) (kept : μ) : Prop :=
  ∃ handler left,
    (Execution.enterHandler interrupted.deliverableMonitor interrupted.deliverableUser).ending
      interrupted.withoutTraps memory = ((.ok handler, left), kept) ∧
    entered = left.delivered interrupted.deliverableMonitor interrupted.deliverableUser

omit [SlottedBus μ] in
theorem EntersHandler.perform_eq {interrupted entered : Processor} {memory kept : μ}
    (enters : EntersHandler interrupted memory entered kept) :
    (enterTrap.run interrupted).perform memory = (((), entered), kept) := by
  obtain ⟨handler, left, ending, rfl⟩ := enters
  rw [perform_enterTrap, ending]

omit [SlottedBus μ] in
theorem EntersHandler.of_entered {interrupted : Processor} {memory : μ} {handler : VirtualAddress}
    (entered : ((Execution.enterHandler interrupted.deliverableMonitor
      interrupted.deliverableUser).ending interrupted.withoutTraps memory).1.1 = .ok handler) :
    EntersHandler interrupted memory ((enterTrap.run interrupted).perform memory).1.2
      ((enterTrap.run interrupted).perform memory).2 := by
  rw [perform_enterTrap]
  rcases ending : (Execution.enterHandler interrupted.deliverableMonitor
    interrupted.deliverableUser).ending interrupted.withoutTraps memory with
    ⟨⟨_ | found, left⟩, kept⟩
  · rw [ending] at entered
    cases entered
  · exact ⟨found, left, ending, rfl⟩

theorem EntersHandler.wordsAt {interrupted entered : Processor} {memory kept : μ}
    (enters : EntersHandler interrupted memory entered kept)
    (apart : interrupted.translation.SetsApart memory Processor.trapFrameLength
      (interrupted.nativeView.a.get 0)) :
    entered.translation.wordsAt kept Processor.trapFrameLength (interrupted.nativeView.a.get 0) =
      some (interrupted.withoutTraps.trapArea interrupted.deliverableMonitor
        interrupted.deliverableUser).words := by
  obtain ⟨handler, left, ending, rfl⟩ := enters
  obtain ⟨entry, top, between, resolving, storing, -, rfl⟩ :=
    (Execution.enterHandler_orderly _ _).completed ending
  -- Finding the handler leaves marks, which the area is set apart from.
  have marks := (Execution.resolveEntry_peeks _ _ _ _ _ _ resolving).2
  have apart : interrupted.withoutTraps.translation.SetsApart between Processor.trapFrameLength
    (interrupted.nativeView.a.get 0) := marks.setsApart apart
  rw [← interrupted.withoutTraps.length_trapArea interrupted.deliverableMonitor
    interrupted.deliverableUser] at apart ⊢
  have saved := Execution.storeWords_wordsAt apart storing
  obtain ⟨a, stackTops, largestRing, same⟩ := interrupted.withoutTraps.handling_eq entry top
  rw [same]
  exact saved

/-- The handler finds what was saved at A2, and runs with traps and flags off. -/
theorem EntersHandler.saves {interrupted entered : Processor} {memory kept : μ}
    (enters : EntersHandler interrupted memory entered kept)
    (native : interrupted.instructionSet = .native)
    (apart : interrupted.translation.SetsApart memory Processor.trapFrameLength
      (interrupted.addressRegister 0)) :
    entered.addressRegister 2 = interrupted.addressRegister 0 ∧ entered.flags = .clear ∧
      entered.trapControl.enabled = false ∧
      entered.translation.wordsAt kept Processor.trapFrameLength (interrupted.addressRegister 0) =
        some (interrupted.withoutTraps.trapArea interrupted.deliverableMonitor
          interrupted.deliverableUser).words := by
  have base : interrupted.nativeView.a.get 0 = interrupted.addressRegister 0 := by
    rw [Processor.nativeView_native native]
    rfl
  have saved := enters.wordsAt (by rwa [base])
  rw [base] at saved
  obtain ⟨handler, left, ending, rfl⟩ := enters
  obtain ⟨entry, top, between, -, -, -, rfl⟩ :=
    (Execution.enterHandler_orderly _ _).completed ending
  have plain : interrupted.withoutTraps.instructionSet = .native := native
  have frame : (interrupted.withoutTraps.handling entry top).addressRegister 2 =
    interrupted.addressRegister 0 := Processor.addressRegister_handling plain entry top
  refine ⟨frame, ?_⟩
  obtain ⟨a, stackTops, largestRing, same⟩ := interrupted.withoutTraps.handling_eq entry top
  rw [same] at saved ⊢
  exact ⟨rfl, rfl, saved⟩

/-! ## Going back -/

/-- The interrupted activation goes on, with traps as they were. -/
structure ResumesAfterTrap (interrupted after : Processor) : Prop where
  p : after.p = interrupted.p
  key : after.key = interrupted.key
  addresses : ∀ number, after.addressRegister number = interrupted.addressRegister number
  words : ∀ number, after.wordRegister number = interrupted.wordRegister number
  userMask : after.userMask = interrupted.userMask
  flags : after.flags = interrupted.flags
  traps : after.trapControl.enabled = interrupted.trapControl.enabled

/-- A handler that leaves its frame alone is not noticed by the activation that it returns to. -/
theorem trap_transparent {interrupted entered later after : Processor}
    {memory kept present returned : μ} {instruction : Instruction}
    (native : interrupted.instructionSet = .native)
    (enabled : interrupted.trapControl.enabled = true) (key : interrupted.key.toNat < 64)
    (rings : ∀ number, max (interrupted.addressRegister 0).ring.toNat interrupted.p.ring.toNat ≤
      (interrupted.addressRegister number).ring.toNat)
    (apart : interrupted.translation.SetsApart memory Processor.trapFrameLength
      (interrupted.addressRegister 0))
    (enters : EntersHandler interrupted memory entered kept)
    (keeps : KeepsFrame entered kept Processor.trapFrameLength later present)
    (leaves : CarriesOut later present instruction after returned)
    (operation : Operation.ofOpcode instruction.opcode = some (.transfer .returnFromCall)) :
    entered.flags.criticalFrame = false ∧ ResumesAfterTrap interrupted after := by
  obtain ⟨frame, flags, -, saved⟩ := enters.saves native apart
  refine ⟨by rw [flags]; rfl, ?_⟩
  have plain : interrupted.withoutTraps.instructionSet = .native := native
  have area := Processor.trapArea_native plain interrupted.deliverableMonitor
    interrupted.deliverableUser
  have length := interrupted.withoutTraps.length_trapArea interrupted.deliverableMonitor
    interrupted.deliverableUser
  rw [← length] at keeps saved
  rw [area] at keeps saved
  -- The frame of the trap is at A2 of the handler, with the words that the trap has saved.
  have stored := (keeps.words.trans (by rw [frame])).trans saved
  rw [← keeps.frame] at stored
  have secluded := keeps.secluded
  rw [← keeps.frame] at secluded
  obtain ⟨resumes, traps⟩ := leaves.resumes operation SavedRange.reaches_all
    (show (0 : BitVec 4) ≠ 1 by decide) stored secluded
  -- Rings at least as high as the floor come back as they were.
  exact {
    p := resumes.p
    key := resumes.key.trans (setWidth_narrow 6 key)
    addresses := fun number => by
      have floor : max (later.addressRegister 2).ring.toNat interrupted.p.ring.toNat ≤
          (interrupted.addressRegister number).ring.toNat := by
        rw [keeps.frame, frame]
        exact rings number
      refine (resumes.addresses number).trans ((if_pos (SavedRange.mem_all number).1).trans ?_)
      exact VirtualAddress.ringAtLeast_eq floor
    words := fun number => (resumes.words number).trans (if_pos (SavedRange.mem_all number).2)
    userMask := resumes.userMask
    flags := resumes.flags
    traps := (traps rfl).trans enabled.symm }

def trappedJob : Processor :=
  { smallJob with
    p := ⟨11, 0, 0x40⟩
    a := Vector.replicate 16 ⟨11, 0, 0xC0⟩
    x := Vector.replicate 16 5
    key := 9
    flags := ⟨true, true⟩
    trapControl := ⟨true, false, false⟩
    trapPointer := 0x0000B00000000080
    userMask := 0x0040
    userConditions := 0x0040 }

def trapMemory : CyclicMemory :=
  ⟨4096, (((WordStore.empty.set 0 0x6ABB000000000000).set 512 0x8000000000000010).set 1025
    0x0400000000000000).set 1040 0x4000B00000000008⟩

def trapEntered : Processor := ((enterTrap.run trappedJob).perform trapMemory).1.2

def trapKept : CyclicMemory := ((enterTrap.run trappedJob).perform trapMemory).2

def trapHandler : Processor := { trapEntered with x := Vector.replicate 16 7 }

theorem trappedJob_resumes :
    trapEntered.flags.criticalFrame = false ∧
      ResumesAfterTrap trappedJob ((stepNative.run trapHandler).perform trapKept).1.2 := by
  have enters : EntersHandler trappedJob trapMemory trapEntered trapKept :=
    have entered : ((Execution.enterHandler trappedJob.deliverableMonitor
        trappedJob.deliverableUser).ending trappedJob.withoutTraps trapMemory).1.1 =
      .ok ⟨11, 0, 8⟩ := by decide +kernel
    .of_entered entered
  have leaves : CarriesOut trapHandler trapKept (.decode .jk 0x0400 0)
      ((stepNative.run trapHandler).perform trapKept).1.2
      ((stepNative.run trapHandler).perform trapKept).2 :=
    .of_completed (by decide +kernel) (by decide +kernel)
  have apart : trappedJob.translation.SetsApart trapMemory Processor.trapFrameLength
      (trappedJob.addressRegister 0) := by
    have mapped : trappedJob.translation.areaPlaces trapMemory Processor.trapFrameLength
        (trappedJob.addressRegister 0) = some (run 272 0x20C0) := by decide +kernel
    exact .of_above 1024 mapped (by decide +kernel) (by decide +kernel) (by decide +kernel)
      (by decide +kernel)
  have still : trapEntered.translation.SetsApart trapKept Processor.trapFrameLength
      (trapEntered.addressRegister 2) := by
    have mapped : trapEntered.translation.areaPlaces trapKept Processor.trapFrameLength
        (trapEntered.addressRegister 2) = some (run 272 0x20C0) := by decide +kernel
    exact .of_above 1024 mapped (by decide +kernel) (by decide +kernel) (by decide +kernel)
      (by decide +kernel)
  have keeps : KeepsFrame trapEntered trapKept Processor.trapFrameLength trapHandler trapKept :=
    .withWords _ still.secludes
  exact trap_transparent rfl rfl (by decide) (by decide +kernel) apart enters keeps leaves rfl

end Routine

end Mainframe
