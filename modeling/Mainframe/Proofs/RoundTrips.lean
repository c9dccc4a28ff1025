import Mainframe.Proofs.AreaAccess
import Mainframe.Proofs.NativeSteps
import Mainframe.Proofs.PreciseFaults
import Mainframe.Proofs.SaveAreas

/-! Calls and returns. -/

set_option autoImplicit false

namespace Mainframe

variable {μ : Type} [Bus μ] [SlottedBus μ]

def Instruction.IsCall (instruction : Instruction) : Prop :=
  Operation.ofOpcode instruction.opcode = some (.transfer .callRelative) ∨
    Operation.ofOpcode instruction.opcode = some (.transfer .callSegment)

/-- Drop the frame at A2, by the two words of it that hold the address registers A1 and A2. -/
def Processor.dropped (processor : Processor) (second third : Word) : Processor :=
  ((processor.withAddressRegister 0 (processor.addressRegister 2)).withAddressRegister 1
    (processor.ringAdjusted (.ofWord second))).withAddressRegister 2
    (processor.ringAdjusted (.ofWord third))

omit [Bus μ] [SlottedBus μ] in
theorem Processor.addressRegister_dropped (processor : Processor) (second third : Word) :
    (processor.dropped second third).addressRegister 0 = processor.addressRegister 2 ∧
      (processor.dropped second third).addressRegister 1 =
        processor.ringAdjusted (.ofWord second) ∧
      (processor.dropped second third).addressRegister 2 =
        processor.ringAdjusted (.ofWord third) := by
  simp [dropped, addressRegister_withAddressRegister]

namespace Execution

variable {processor : Processor} {memory : μ}

/-! ## What looks before it leaps -/

theorem fetchParcel_peeks (address : VirtualAddress) :
    (fetchParcel address).Peeks processor memory := by
  unfold fetchParcel
  extract_lets fetch
  have fetches (left : Processor) (kept : μ) : (fetch ()).Peeks left kept := by
    refine .bind (translate_peeks left kept address _) fun real left kept _ => ?_
    exact .bind (.reading (.readWord real)) fun word left kept _ => .done _
  split
  · exact .bind (.faultAt _ _) fun _ left kept _ => fetches left kept
  · exact fetches _ _

theorem fetchInstruction_peeks : fetchInstruction.Peeks processor memory := by
  refine .get (.bind (fetchParcel_peeks _) fun parcel left kept _ => ?_)
  extract_lets format decode
  split
  · exact .bind (fetchParcel_peeks _) fun second left kept _ => .done _
  · exact .done _

theorem segmentDescriptor_peeks (unit : TranslationUnit) (segment : Nat) :
    (liftM (unit.segmentDescriptor segment) : Execution (Option SegmentDescriptor)).Peeks
      processor memory := .reading (unit.segmentDescriptor_reads segment)

theorem segmentWith_peeks (test : SegmentDescriptor → Bool) (refusal : MonitorCondition)
    (address : VirtualAddress) : (segmentWith test refusal address).Peeks processor memory := by
  refine .get (.bind (segmentDescriptor_peeks _ _) fun found left kept _ => ?_)
  cases found with
  | none => exact .faultAt _ _
  | some descriptor =>
    dsimp only
    split
    · exact .done _
    · exact .faultAt _ _

theorem requireBindingSection_peeks (address : VirtualAddress) :
    (requireBindingSection address).Peeks processor memory :=
  .bind (segmentWith_peeks _ _ address) fun _ _ _ _ => .done _

theorem resolveEntry_peeks (pointer : VirtualAddress) (ring : Nat) (guarded : Bool) :
    (resolveEntry pointer ring guarded).Peeks processor memory := by
  unfold resolveEntry
  extract_lets follow
  -- The checks and loads follow one another, each with a way out by a fault.
  have follows (left : Processor) (kept : μ) : (follow ()).Peeks left kept := by
    refine .bind (loadWord_peeks left kept pointer) fun word left kept _ => ?_
    extract_lets code finish enter
    have finishes (binding : Option VirtualAddress) (left : Processor) (kept : μ) :
        (finish binding).Peeks left kept := by
      refine .bind (segmentWith_peeks _ _ code) fun descriptor left kept _ => ?_
      extract_lets target
      split
      · exact .bind (.faultAt _ _) fun _ left kept _ => .done _
      · exact .done _
    have enters (left : Processor) (kept : μ) : (enter ()).Peeks left kept := by
      unfold enter
      split
      · refine .bind (loadWord_peeks left kept _) fun binding left kept _ => ?_
        extract_lets sectionAddress guard
        split
        · exact .bind (requireBindingSection_peeks _) fun _ left kept _ => finishes _ left kept
        · exact finishes _ left kept
      · exact finishes _ left kept
    split
    · exact .bind (.faultAt _ _) fun _ left kept _ => enters left kept
    · exact enters left kept
  split
  · exact .bind (requireBindingSection_peeks pointer) fun _ left kept _ => follows left kept
  · exact follows _ _

theorem call_ok {length : Nat} {entry : EntryPoint} {argument : VirtualAddress}
    {left : Processor} {kept : μ}
    (apart : processor.translation.SetsApart memory (processor.callArea length).words.length
      (processor.addressRegister 0))
    (ended : (call length entry argument).ending processor memory = ((.ok (), left), kept)) :
    processor.translation.wordsAt kept (processor.callArea length).words.length
        (processor.addressRegister 0) = some (processor.callArea length).words ∧
      ∃ top, left = processor.called entry top argument := by
  obtain ⟨top, stored, same⟩ := (call_orderly length entry argument).completed ended
  exact ⟨storeWords_wordsAt apart stored, top, same⟩

theorem execute_call {instruction : Instruction} {left : Processor} {kept : μ}
    (operation : instruction.IsCall)
    (apart : processor.translation.SetsApart memory
      (processor.callArea instruction.length).words.length (processor.addressRegister 0))
    (ended : (execute instruction).ending processor memory = ((.ok (), left), kept)) :
    processor.translation.wordsAt kept (processor.callArea instruction.length).words.length
        (processor.addressRegister 0) = some (processor.callArea instruction.length).words ∧
      ∃ entry top argument, left = processor.called entry top argument := by
  rcases operation with operation | operation
  · rw [execute_transfer operation, transfer, callRelative, ending, course_get] at ended
    obtain ⟨saved, top, same⟩ := call_ok apart ended
    exact ⟨saved, _, top, _, same⟩
  · rw [execute_transfer operation, transfer, callSegment, ending, course_get] at ended
    have resolves : Stores (resolveEntry (processor.indexedOperand instruction 8)
        processor.currentAddress.ring.toNat true) processor memory :=
      (resolveEntry_orderly _ _ _).mono fun _ _ _ resolved => resolved.1
    obtain ⟨entry, between, resolved, calling⟩ := resolves.of_bind_ok ended
    have marks := (resolveEntry_peeks _ _ _ _ _ _ resolved).2
    obtain ⟨saved, top, same⟩ := call_ok (marks.setsApart apart) calling
    exact ⟨saved, entry, top, _, same⟩

theorem loadPair_ok {known : List Word} {second third : Word} {address : VirtualAddress}
    {change : Word → Word → Processor → Processor} {left : Processor} {last : μ} {count : Nat}
    (stored : processor.translation.wordsAt memory count address = some known)
    (secluded : processor.translation.Secludes memory count address)
    (secondKnown : known[2]? = some second) (thirdKnown : known[3]? = some third)
    (ended : ((do
      let second ← loadWord (address.offset 16)
      let third ← loadWord (address.offset 24)
      modify (change second third)) : Execution Unit).ending processor memory =
        ((.ok (), left), last)) : left = change second third processor := by
  obtain ⟨found, between, loaded, marks, rest⟩ :=
    bind_ok (loadWord_inspects _ _ _) (loadWord_peeks _ _ _) ended
  obtain ⟨other, final, again, -, settled⟩ :=
    bind_ok (loadWord_inspects _ _ _) (loadWord_peeks _ _ _) rest
  have foundIs : found = second := loadWord_known 2 stored secluded loaded secondKnown
  have otherIs : other = third := loadWord_known 3 ((marks.wordsAt_eq secluded).trans stored)
    (marks.secludes secluded) again thirdKnown
  subst foundIs otherIs
  cases settled
  rfl

theorem popFrame_ok {known : List Word} {second third : Word} {left : Processor} {last : μ}
    {count : Nat}
    (stored : processor.translation.wordsAt memory count (processor.addressRegister 2) =
      some known)
    (secluded : processor.translation.Secludes memory count (processor.addressRegister 2))
    (secondKnown : known[2]? = some second) (thirdKnown : known[3]? = some third)
    (ended : popFrame.ending processor memory = ((.ok (), left), last)) :
    left = processor.dropped second third := by
  rw [popFrame, ending, course_get] at ended
  obtain ⟨zeroth, between, -, marks, rest⟩ :=
    bind_ok (loadWord_inspects _ _ _) (loadWord_peeks _ _ _) ended
  extract_lets drop at rest
  split at rest
  · cases rest
  exact loadPair_ok ((marks.wordsAt_eq secluded).trans stored) (marks.secludes secluded)
    secondKnown thirdKnown rest

end Execution

/-! ## Steps -/

variable {before after running : Processor} {memory middle kept : μ} {instruction : Instruction}

/-- The instruction that runs has the registers and the memory from before it was fetched. -/
theorem Runs.prepared (runs : Runs before memory instruction running middle) :
    ∃ untranslatable privilege,
      running = (before.beginInstruction.tracing untranslatable privilege).withInstruction
        instruction ∧
      Keeps (before.translation.tableSlots memory) memory middle := by
  obtain ⟨fetched, fetching, rfl⟩ := runs
  obtain ⟨⟨untranslatable, privilege, rfl⟩, keeps⟩ :=
    Execution.fetchInstruction_peeks _ _ _ fetching
  exact ⟨untranslatable, privilege, rfl, keeps⟩

theorem Runs.registers (runs : Runs before memory instruction running middle) :
    (∀ number, running.addressRegister number = before.addressRegister number) ∧
      running.currentAddress = before.p := by
  obtain ⟨_, _, rfl, -⟩ := runs.prepared
  exact ⟨fun _ => rfl, rfl⟩

theorem Runs.wordsAt_eq {count : Nat} {address : VirtualAddress}
    (runs : Runs before memory instruction running middle)
    (secluded : before.translation.Secludes memory count address) :
    running.translation.wordsAt middle count address =
        before.translation.wordsAt memory count address ∧
      running.translation.Secludes middle count address := by
  obtain ⟨untranslatable, privilege, rfl, keeps⟩ := runs.prepared
  have alike : before.Resembles (before.tracing untranslatable privilege) := ⟨_, _, rfl⟩
  exact ⟨(alike.wordsAt_eq middle count address).trans (keeps.wordsAt_eq secluded),
    alike.secludes (keeps.secludes secluded)⟩

theorem Runs.setsApart {count : Nat} {address : VirtualAddress}
    (runs : Runs before memory instruction running middle)
    (apart : before.translation.SetsApart memory count address) :
    running.translation.SetsApart middle count address := by
  obtain ⟨untranslatable, privilege, rfl, keeps⟩ := runs.prepared
  have alike : before.Resembles (before.tracing untranslatable privilege) := ⟨_, _, rfl⟩
  exact alike.setsApart (keeps.setsApart apart)

theorem Processor.addressRegister_bound_activate (processor : Processor)
    (frame top : VirtualAddress) (callerRing newRing : Ring) (binding : Option VirtualAddress) :
    ((processor.activate frame top callerRing newRing).bound binding).addressRegister 2 = frame := by
  have entered : (processor.activate frame top callerRing newRing).addressRegister 2 = frame :=
    (addressRegister_withAddressRegister _ _ _ _).trans (if_pos rfl)
  cases binding with
  | none => exact entered
  | some pointer =>
    exact ((addressRegister_withAddressRegister _ _ _ _).trans (if_neg (by decide))).trans entered

theorem Processor.addressRegister_called (caller : Processor) (entry : EntryPoint)
    (top argument : VirtualAddress) :
    (caller.called entry top argument).addressRegister 2 = caller.addressRegister 0 :=
  ((addressRegister_withAddressRegister _ _ _ _).trans (if_neg (by decide))).trans
    (addressRegister_bound_activate _ _ _ _ _ _)

namespace CarriesOut

theorem calls (carries : CarriesOut before memory instruction after kept)
    (operation : instruction.IsCall)
    (apart : before.translation.SetsApart memory
      (before.beginInstruction.callArea instruction.length).words.length
      (before.addressRegister 0)) :
    after.addressRegister 2 = before.addressRegister 0 ∧
      after.translation.wordsAt kept
          (before.beginInstruction.callArea instruction.length).words.length
          (before.addressRegister 0) =
        some (before.beginInstruction.callArea instruction.length).words := by
  obtain ⟨running, middle, left, runs, ending, rfl⟩ := carries
  have apart := runs.setsApart apart
  obtain ⟨untranslatable, privilege, rfl, -⟩ := runs.prepared
  obtain ⟨saved, entry, top, argument, rfl⟩ := Execution.execute_call operation apart ending
  refine ⟨Processor.addressRegister_called _ entry top argument, ?_⟩
  obtain ⟨_, _, _, same⟩ := Processor.called_eq _ entry top argument
  rw [same]
  exact saved

theorem leaves {area : SaveArea} (carries : CarriesOut before memory instruction after kept)
    (operation : Operation.ofOpcode instruction.opcode = some (.transfer .returnFromCall))
    (reaches : area.range.Reaches)
    (stored : before.translation.wordsAt memory area.words.length (before.addressRegister 2) =
      some area.words)
    (secluded : before.translation.Secludes memory area.words.length
      (before.addressRegister 2)) :
    ∃ untranslatable privilege zeroth first second third addresses words,
      area.Recovers zeroth first second third addresses words ∧
      after = (((before.beginInstruction.tracing untranslatable privilege).withInstruction
        instruction).leaving zeroth first second third addresses words).commit true := by
  obtain ⟨running, middle, left, runs, ending, rfl⟩ := carries
  obtain ⟨same, secluded⟩ := runs.wordsAt_eq secluded
  rw [← same] at stored
  obtain ⟨untranslatable, privilege, rfl, -⟩ := runs.prepared
  rw [Execution.execute_transfer operation, Execution.transfer] at ending
  obtain ⟨zeroth, first, second, third, addresses, words, returns, rfl⟩ :=
    Execution.returnFromCall_orderly.completed ending
  have length := Execution.length_loadWords returns.loaded
  refine ⟨untranslatable, privilege, zeroth, first, second, third, addresses, words, ?_, rfl⟩
  refine SaveArea.recovers_of_agrees reaches (fun index found expected => ?_) returns.sized ?_
  · exact Execution.loadWords_known stored secluded returns.loaded
  · have sized := returns.sized
    simp only [List.length_cons, List.length_append] at length
    omega

theorem resumes {area : SaveArea} (carries : CarriesOut before memory instruction after kept)
    (operation : Operation.ofOpcode instruction.opcode = some (.transfer .returnFromCall))
    (reaches : area.range.Reaches) (native : area.virtualMachine ≠ 1)
    (stored : before.translation.wordsAt memory area.words.length (before.addressRegister 2) =
      some area.words)
    (secluded : before.translation.Secludes memory area.words.length
      (before.addressRegister 2)) :
    area.Resumes (max (before.addressRegister 2).ring.toNat area.returnAddress.ring.toNat) before
      after ∧ (area.delivered.isSome = true → after.trapControl.enabled = true) := by
  obtain ⟨untranslatable, privilege, zeroth, first, second, third, addresses, words, recovers, rfl⟩ :=
    carries.leaves operation reaches stored secluded
  obtain ⟨resumed, traps⟩ := Processor.leaving_resumes
    ((before.beginInstruction.tracing untranslatable privilege).withInstruction instruction)
    reaches native recovers
  exact ⟨⟨resumed.p, resumed.key, resumed.userMask, resumed.flags, resumed.addresses,
    resumed.words⟩, traps⟩

theorem pops {area : SaveArea} (carries : CarriesOut before memory instruction after kept)
    (operation : Operation.ofOpcode instruction.opcode = some (.transfer .popFrame))
    (stored : before.translation.wordsAt memory area.words.length (before.addressRegister 2) =
      some area.words)
    (secluded : before.translation.Secludes memory area.words.length
      (before.addressRegister 2)) :
    after.addressRegister 0 = before.addressRegister 2 ∧
      after.addressRegister 1 = (area.address 1).ringAtLeast before.p.ring.toNat ∧
      after.addressRegister 2 = (area.address 2).ringAtLeast before.p.ring.toNat := by
  obtain ⟨running, middle, left, runs, ending, rfl⟩ := carries
  obtain ⟨same, secluded⟩ := runs.wordsAt_eq secluded
  obtain ⟨frame, current⟩ := runs.registers
  rw [← same, ← frame 2] at stored
  rw [← frame 2] at secluded ⊢
  rw [← current]
  rw [Execution.execute_transfer operation, Execution.transfer] at ending
  have popped := Execution.popFrame_ok stored secluded (by rw [area.words_eq]; rfl)
    (by rw [area.words_eq]; rfl) ending
  have registers := running.addressRegister_dropped
    (tagged area.descriptor.bits (area.address 1)) (tagged area.userMask (area.address 2))
  rw [← popped, VirtualAddress.ofWord_tagged, VirtualAddress.ofWord_tagged] at registers
  exact registers

end CarriesOut

/-! ## Round trips -/

/-- The frame that an activation was entered with is still at A2, and its words are as they were
left, outside the tables. -/
structure KeepsFrame (entered : Processor) (kept : μ) (count : Nat) (later : Processor)
    (present : μ) : Prop where
  frame : later.addressRegister 2 = entered.addressRegister 2
  words : later.translation.wordsAt present count (entered.addressRegister 2) =
    entered.translation.wordsAt kept count (entered.addressRegister 2)
  secluded : later.translation.Secludes present count (entered.addressRegister 2)

theorem KeepsFrame.withWords {entered : Processor} {kept : μ} {count : Nat}
    (x : WordRegisters)
    (secluded : entered.translation.Secludes kept count (entered.addressRegister 2)) :
    KeepsFrame entered kept count { entered with x } kept :=
  ⟨rfl, rfl, secluded⟩

def Processor.callRange (caller : Processor) : SavedRange :=
  .ofBits ((caller.wordRegister 0).setWidth 12)

/-- The caller goes on after its call. The registers of the range and A0 to A2 are its own, the
others are as the callee left them. -/
structure ReturnsTo (caller : Processor) (call : Instruction) (callee after : Processor) :
    Prop where
  p : after.p = caller.p.offset call.length
  key : after.key = caller.key
  userMask : after.userMask = caller.userMask
  flags : after.flags = caller.flags
  addresses : ∀ number, after.addressRegister number =
    if number ≤ 2 ∨ number ≤ (caller.wordRegister 0).extractLsb' 8 4 then
      caller.addressRegister number
    else callee.addressRegister number
  words : ∀ number, after.wordRegister number =
    if (caller.wordRegister 0).extractLsb' 4 4 ≤ number ∧
        number ≤ (caller.wordRegister 0).extractLsb' 0 4 then caller.wordRegister number
    else callee.wordRegister number

namespace VirtualAddress

theorem ringAtLeast_eq {address : VirtualAddress} {floor : Nat}
    (high : floor ≤ address.ring.toNat) : address.ringAtLeast floor = address :=
  if_neg (Nat.not_lt.mpr high)

end VirtualAddress

theorem CarriesOut.saves {caller entered later : Processor} {memory called present : μ}
    {call : Instruction} (enters : CarriesOut caller memory call entered called)
    (isCall : call.IsCall)
    (apart : caller.translation.SetsApart memory caller.callRange.frameLength
      (caller.addressRegister 0))
    (keeps : KeepsFrame entered called caller.callRange.frameLength later present) :
    let area := caller.beginInstruction.callArea call.length
    later.addressRegister 2 = caller.addressRegister 0 ∧
      later.translation.wordsAt present area.words.length (later.addressRegister 2) =
        some area.words ∧
      later.translation.Secludes present area.words.length (later.addressRegister 2) := by
  intro area
  have length : area.words.length = caller.callRange.frameLength := area.length_words
  rw [← length] at apart keeps
  obtain ⟨frame, saved⟩ := enters.calls isCall apart
  refine ⟨keeps.frame.trans frame, ?_, ?_⟩
  · rw [keeps.frame, keeps.words, frame, saved]
  · rw [keeps.frame]
    exact keeps.secluded

namespace Routine

/-- A return from a call, with the frame still in place, leads back to the caller with all that
was saved; a frame that is dropped in the ring of the caller gives it back its first three address
registers. -/
theorem call_round_trip {caller entered later after : Processor}
    {memory called present returned : μ} {call instruction : Instruction}
    (enters : CarriesOut caller memory call entered called) (isCall : call.IsCall)
    (key : caller.key.toNat < 64)
    (rings : ∀ number, max (caller.addressRegister 0).ring.toNat caller.p.ring.toNat ≤
      (caller.addressRegister number).ring.toNat)
    (apart : caller.translation.SetsApart memory caller.callRange.frameLength
      (caller.addressRegister 0))
    (keeps : KeepsFrame entered called caller.callRange.frameLength later present)
    (leaves : CarriesOut later present instruction after returned) :
    (Operation.ofOpcode instruction.opcode = some (.transfer .returnFromCall) →
      ReturnsTo caller call later after) ∧
    (Operation.ofOpcode instruction.opcode = some (.transfer .popFrame) →
      later.p.ring = caller.p.ring →
      after.addressRegister 0 = caller.addressRegister 0 ∧
        after.addressRegister 1 = caller.addressRegister 1 ∧
        after.addressRegister 2 = caller.addressRegister 2) := by
  obtain ⟨frame, stored, secluded⟩ := enters.saves isCall apart keeps
  constructor
  · intro operation
    have native : (caller.beginInstruction.callArea call.length).virtualMachine ≠ 1 :=
      show (0 : BitVec 4) ≠ 1 by decide
    obtain ⟨resumes, -⟩ := leaves.resumes operation
      (SavedRange.reaches_ofBits _) native stored secluded
    exact {
      p := resumes.p
      key := resumes.key.trans (setWidth_narrow 6 key)
      userMask := resumes.userMask
      flags := resumes.flags
      addresses := fun number => by
        refine (resumes.addresses number).trans ?_
        have floor : max (later.addressRegister 2).ring.toNat caller.p.ring.toNat ≤
            (caller.addressRegister number).ring.toNat := by
          rw [frame]
          exact rings number
        have named := SavedRange.mem_addressNumbers_ofBits ((caller.wordRegister 0).setWidth 12) number
        refine if_congr (named.trans ?_) (VirtualAddress.ringAtLeast_eq floor) rfl
        rw [BitVec.extractLsb'_setWidth_of_le (by decide)]
      words := fun number => by
        refine (resumes.words number).trans (if_congr (mem_registersBetween.trans ?_) rfl rfl)
        rw [← BitVec.extractLsb'_setWidth_of_le (show 4 + 4 ≤ 12 by decide),
          ← BitVec.extractLsb'_setWidth_of_le (show 0 + 4 ≤ 12 by decide)]
        rfl }
  · intro operation ring
    obtain ⟨zeroth, first, second⟩ := leaves.pops operation stored secluded
    have floor (number : RegisterNumber) :
        later.p.ring.toNat ≤ (caller.addressRegister number).ring.toNat := by
      rw [ring]
      exact (Nat.le_max_right _ _).trans (rings number)
    exact ⟨zeroth.trans frame, first.trans (VirtualAddress.ringAtLeast_eq (floor 1)),
      second.trans (VirtualAddress.ringAtLeast_eq (floor 2))⟩

/-- The small job calls the code eight bytes on, and saves A3, X1 and X2 besides what is always
saved. -/
def nearCaller : Processor :=
  { smallJob with
    x := (Vector.replicate 16 5).set 0 0x312
    userMask := 0x00FF
    key := 9
    flags := ⟨false, true⟩ }

def nearMemory : CyclicMemory :=
  ⟨4096, (((WordStore.empty.set 0 0x6ABB000000000000).set 512 0x8000000000000010).set 1024
    0xB003000400000000).set 1025 0x0400000000000000⟩

def nearEntered : Processor := ((stepNative.run nearCaller).perform nearMemory).1.2

def nearCalled : CyclicMemory := ((stepNative.run nearCaller).perform nearMemory).2

def nearCallee : Processor := { nearEntered with x := Vector.replicate 16 7 }

theorem nearCall_round_trip :
    ReturnsTo nearCaller (.decode .jkQ 0xB003 0x0004) nearCallee
      ((stepNative.run nearCallee).perform nearCalled).1.2 := by
  have enters : CarriesOut nearCaller nearMemory (.decode .jkQ 0xB003 0x0004) nearEntered
      nearCalled := .of_completed (by decide +kernel) (by decide +kernel)
  have leaves : CarriesOut nearCallee nearCalled (.decode .jk 0x0400 0)
      ((stepNative.run nearCallee).perform nearCalled).1.2
      ((stepNative.run nearCallee).perform nearCalled).2 :=
    .of_completed (by decide +kernel) (by decide +kernel)
  have apart : nearCaller.translation.SetsApart nearMemory nearCaller.callRange.frameLength
      (nearCaller.addressRegister 0) := by
    have mapped : nearCaller.translation.areaPlaces nearMemory nearCaller.callRange.frameLength
        (nearCaller.addressRegister 0) = some (run 56 0x2100) := by decide +kernel
    exact .of_above 1024 mapped (by decide +kernel) (by decide +kernel) (by decide +kernel)
      (by decide +kernel)
  have still : nearEntered.translation.SetsApart nearCalled nearCaller.callRange.frameLength
      (nearEntered.addressRegister 2) := by
    have mapped : nearEntered.translation.areaPlaces nearCalled nearCaller.callRange.frameLength
        (nearEntered.addressRegister 2) = some (run 56 0x2100) := by decide +kernel
    exact .of_above 1024 mapped (by decide +kernel) (by decide +kernel) (by decide +kernel)
      (by decide +kernel)
  have keeps : KeepsFrame nearEntered nearCalled nearCaller.callRange.frameLength nearCallee
      nearCalled := .withWords _ still.secludes
  exact (call_round_trip enters (.inl rfl) (by decide) (by decide +kernel) apart keeps leaves).1 rfl

end Routine

end Mainframe
