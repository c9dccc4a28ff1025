import Mainframe.Activation.EntryPoint
import Mainframe.Proofs.Access

/-! Assertions about executions. From every processor that satisfies the precondition, and on every
memory, an execution gives only notices and fails only with conditions that are allowed, and if it
completes, the postcondition holds. An assertion follows the program part by part, so what an
access leaves untouched is said once for all instructions that make it. -/

set_option autoImplicit false

namespace Mainframe

variable {α β μ : Type}

namespace Activity

/-! ## Notices and results -/

/-- Whatever the memory replies, only permitted notices are given, and the result satisfies the
postcondition. -/
inductive Gives (permitted : Notice → Prop) (post : α → Prop) : Activity α → Prop where
  | done {result : α} : post result → Gives permitted post (.done result)
  | read (address : Address) {next : Word → Activity α} :
      (∀ word, Gives permitted post (next word)) → Gives permitted post (.read address next)
  | write (address : Address) (word : Word) {next : Activity α} :
      Gives permitted post next → Gives permitted post (.write address word next)
  | modify (address : Address) (change : Word → Word) {next : Word → Activity α} :
      (∀ word, Gives permitted post (next word)) →
      Gives permitted post (.modify address change next)
  | notify {notice : Notice} {next : Activity α} :
      permitted notice → Gives permitted post next → Gives permitted post (.notify notice next)

def Silent (activity : Activity α) : Prop := WritesOnly (fun _ => True) activity

theorem OnlyReads.silent {activity : Activity α} (reads : activity.OnlyReads) :
    activity.Silent := WritesOnly.mono (fun _ never => never.elim) reads

namespace Gives

variable {permitted : Notice → Prop} {post : α → Prop} {activity : Activity α}

theorem of_silent (silent : activity.Silent) : activity.Gives permitted fun _ => True := by
  unfold Silent at silent
  induction silent with
  | done => exact .done trivial
  | read address _ ih => exact .read address ih
  | write word _ _ ih => exact .write _ word ih
  | modify change _ _ ih => exact .modify _ change ih

theorem bind {middle : α → Prop} {final : β → Prop} {continuation : α → Activity β}
    (first : activity.Gives permitted middle)
    (rest : ∀ result, middle result → (continuation result).Gives permitted final) :
    (activity >>= continuation).Gives permitted final := by
  change (activity.bind continuation).Gives permitted final
  induction first with
  | done holds => exact rest _ holds
  | read address _ ih => exact .read address ih
  | write address word _ ih => exact .write address word ih
  | modify address change _ ih => exact .modify address change ih
  | notify given _ ih => exact .notify given ih

theorem of_reports {result : α} (reports : activity.Reports result) (holds : post result) :
    activity.Gives (fun _ => True) post := by
  induction reports with
  | done => exact .done holds
  | notify notice _ ih => exact .notify trivial (ih holds)

theorem result [Bus μ] (gives : activity.Gives permitted post) (memory : μ) :
    post (activity.perform memory).1 := by
  induction gives generalizing memory with
  | done holds => exact holds
  | read _ _ ih => exact ih _ memory
  | write _ _ _ ih => exact ih _
  | modify _ _ _ ih => exact ih _ _
  | notify _ _ ih => exact ih memory

theorem permits [Bus μ] (gives : activity.Gives permitted post) {memory : μ} {moment : Moment μ}
    (member : moment ∈ activity.history memory) {notice : Notice}
    (given : moment.request = .notify notice) : permitted notice := by
  -- Each moment of the history is one constructor of the activity.
  induction gives generalizing memory with
  | done => cases member
  | read _ _ ih =>
    rcases List.mem_cons.mp member with rfl | later
    · cases given
    · exact ih _ later
  | write _ _ _ ih =>
    rcases List.mem_cons.mp member with rfl | later
    · cases given
    · exact ih later
  | modify _ _ _ ih =>
    rcases List.mem_cons.mp member with rfl | later
    · cases given
    · exact ih _ later
  | notify allowed _ ih =>
    rcases List.mem_cons.mp member with rfl | later
    · cases given
      exact allowed
    · exact ih later

end Gives

theorem writeEach_silent (bytes : List Byte) (address : Address) :
    (writeEach bytes address).Silent := by
  induction bytes generalizing address with
  | nil => exact .pure _
  | cons byte rest ih =>
    exact .bind (.bind (.readWord _) fun word => .writeWord trivial _) fun _ => ih _

theorem writeAll_silent (words : List Word) (address : Address) :
    (writeAll words address).Silent := by
  induction words generalizing address with
  | nil => exact .pure _
  | cons word rest ih => exact .bind (.writeWord trivial _) fun _ => ih _

theorem writeBytes_silent (bytes : List Byte) (address : Address) :
    (writeBytes bytes address).Silent :=
  .bind (writeEach_silent _ _) fun _ => .bind (writeAll_silent _ _) fun _ => writeEach_silent _ _

end Activity

theorem TranslationUnit.locate_silent (unit : TranslationUnit) (address : VirtualAddress)
    (modes : AccessModes) (key : Byte) : (unit.locate address modes key).Silent := by
  refine .bind (unit.resolveSegment_reads address).silent fun resolved => ?_
  cases resolved with
  | error fault => exact .pure _
  | ok descriptor =>
    dsimp only
    split
    · refine .bind (unit.findPage_reads _ _).silent fun found => ?_
      cases found with
      | none => exact .pure _
      | some lookup =>
        dsimp only
        split
        · exact .bind (.writeWord trivial _) fun _ => .pure _
        · exact .pure _
    · exact .pure _

/-! ## Assertions -/

/-- The notices that an execution may give, and the conditions with which it may fail. -/
structure Allowance where
  gives : Happening → Prop
  fails : Condition → Prop

namespace Allowance

def any : Allowance := ⟨fun _ => True, fun _ => True⟩

/-- Translations that fetch nothing are allowed, and so are errors that only the monitor can
handle. -/
class Accesses (allows : Allowance) : Prop where
  gives : ∀ address modes outcome, modes.execute = false →
    allows.gives (.translated address modes outcome)
  fails : ∀ condition : MonitorCondition, condition.policy = .monitorError →
    allows.fails (.monitor condition)

instance : any.Accesses := ⟨fun _ _ _ _ => trivial, fun _ _ => trivial⟩

class Translates (allows : Allowance) : Prop where
  gives : ∀ address modes outcome, modes.execute = false →
    allows.gives (.translated address modes outcome)
  faults : ∀ fault : TranslationFault, allows.fails (.ofFault fault)

instance (allows : Allowance) [accesses : allows.Accesses] : allows.Translates where
  gives := accesses.gives
  faults fault := by
    obtain ⟨kind, address⟩ := fault
    cases kind <;> exact accesses.fails _ rfl

def translating : Allowance := ⟨fun _ => True, fun condition => ∃ fault, condition = .ofFault fault⟩

instance : translating.Translates := ⟨fun _ _ _ _ => trivial, fun fault => ⟨fault, rfl⟩⟩

end Allowance

/-- What translations leave behind does not matter to it. -/
class Processor.Stable (holds : Processor → Prop) : Prop where
  resembles {before after : Processor} : before.Resembles after → holds before → holds after

instance : Processor.Stable fun _ => True := ⟨fun _ => id⟩

namespace Execution

variable {allows : Allowance} {pre : Processor → Prop}

/-- How an execution that starts under the precondition goes on and ends. -/
def Ensures (allows : Allowance) (pre : Processor → Prop) (execution : Execution α)
    (post : α → Processor → Prop) : Prop :=
  ∀ processor, pre processor →
    (execution.course processor).Gives (fun notice => allows.gives notice.happening) fun ended =>
      match ended with
      | (.ok result, left) => post result left
      | (.error condition, _) => allows.fails condition

abbrev Preserves (allows : Allowance) (holds : Processor → Prop) (execution : Execution α) : Prop :=
  execution.Ensures allows holds fun _ => holds

namespace Ensures

variable {execution : Execution α} {post : α → Processor → Prop}

theorem ended [Bus μ] (ensures : execution.Ensures allows pre post) {processor : Processor}
    (starts : pre processor) (memory : μ) :
    match (execution.ending processor memory).1 with
    | (.ok result, left) => post result left
    | (.error condition, _) => allows.fails condition :=
  (ensures processor starts).result memory

theorem completed [Bus μ] (ensures : execution.Ensures allows pre post) {processor left : Processor}
    (starts : pre processor) {memory kept : μ} {result : α}
    (ending : execution.ending processor memory = ((.ok result, left), kept)) :
    post result left := by
  have ended := ensures.ended starts memory
  rwa [ending] at ended

theorem failed [Bus μ] (ensures : execution.Ensures allows pre post) {processor left : Processor}
    (starts : pre processor) {memory kept : μ} {condition : Condition}
    (ending : execution.ending processor memory = ((.error condition, left), kept)) :
    allows.fails condition := by
  have ended := ensures.ended starts memory
  rwa [ending] at ended

theorem mono {wider : α → Processor → Prop} (ensures : execution.Ensures allows pre post)
    (weakens : ∀ result left, post result left → wider result left) :
    execution.Ensures allows pre wider := by
  intro processor starts
  -- Nothing comes after the execution but its result.
  have course : execution.course processor = execution.course processor >>= Pure.pure :=
    (bind_pure _).symm
  rw [course]
  apply (ensures processor starts).bind
  rintro ⟨condition | result, left⟩ ends
  · exact .done ends
  · exact .done (weakens result left ends)

theorem pure {result : α} (holds : ∀ processor, pre processor → post result processor) :
    (Pure.pure result : Execution α).Ensures allows pre post :=
  fun processor starts => .done (holds processor starts)

theorem bind {continuation : α → Execution β} {middle : α → Processor → Prop}
    {final : β → Processor → Prop} (first : execution.Ensures allows pre middle)
    (rest : ∀ result, (continuation result).Ensures allows (middle result) final) :
    (execution >>= continuation).Ensures allows pre final := by
  intro processor starts
  rw [course_bind]
  apply (first processor starts).bind
  rintro ⟨condition | result, left⟩ ends
  · exact .done ends
  · exact rest result left ends

theorem get {continuation : Processor → Execution α}
    (rest : ∀ before, pre before → (continuation before).Ensures allows pre post) :
    (MonadState.get >>= continuation : Execution α).Ensures allows pre post :=
  fun processor starts => rest processor starts processor starts

theorem modified {change : Processor → Processor} {post : Unit → Processor → Prop}
    (holds : ∀ processor, pre processor → post () (change processor)) :
    (modify change : Execution Unit).Ensures allows pre post :=
  fun processor starts => .done (holds processor starts)

theorem set {left : Processor} {post : PUnit → Processor → Prop}
    (holds : ∀ processor, pre processor → post ⟨⟩ left) :
    (MonadStateOf.set left : Execution PUnit).Ensures allows pre post :=
  fun processor starts => .done (holds processor starts)

/-- Executions that cannot fail keep to their assertions if no notice is forbidden. -/
theorem of_settles {result : α} {left : Processor → Processor}
    (settles : ∀ processor, execution.Settles processor result (left processor))
    (holds : ∀ processor, pre processor → post result (left processor)) :
    execution.Ensures .any pre post :=
  fun processor starts => .of_reports (settles processor) (holds processor starts)

theorem silent {activity : Activity α} (silent : activity.Silent) :
    (liftM activity : Execution α).Preserves allows pre := by
  intro processor starts
  rw [course_liftM]
  exact (Activity.Gives.of_silent silent).bind fun _ _ => .done starts

theorem report {happening : Happening} (permitted : allows.gives happening) :
    (liftM (Routine.report happening) : Execution Unit).Preserves allows pre :=
  fun _ starts => .notify permitted (.done starts)

theorem raise {condition : Condition} {post : Unit → Processor → Prop}
    (permitted : ∀ action, allows.gives (.raised condition action))
    (holds : ∀ processor, pre processor → post () (processor.raise condition)) :
    (liftM (Routine.raise condition) : Execution Unit).Ensures allows pre post :=
  fun processor starts => .notify (permitted _) (.done (holds processor starts))

theorem monitorFault {condition : MonitorCondition} (fails : allows.fails (.monitor condition)) :
    (Execution.monitorFault condition : Execution α).Ensures allows pre post :=
  fun _ _ => .done fails

theorem userFault {condition : UserCondition} (fails : allows.fails (.user condition)) :
    (Execution.userFault condition : Execution α).Ensures allows pre post :=
  fun _ _ => .done fails

theorem faultAt {condition : MonitorCondition} (address : VirtualAddress)
    (fails : allows.fails (.monitor condition)) :
    (Execution.faultAt address condition : Execution α).Ensures allows pre post :=
  fun _ _ => .done fails

theorem failThen {continuation : α → Execution β} {final : β → Processor → Prop}
    (fails : execution.Ensures allows pre fun _ _ => False) :
    (execution >>= continuation).Ensures allows pre final :=
  .bind fails fun _ _ never => never.elim

end Ensures

/-! ## Accesses -/

section

variable {holds : Processor → Prop} [translates : allows.Translates]
  [stable : Processor.Stable holds]

theorem translate_preserves (address : VirtualAddress) {modes : AccessModes}
    (fetching : modes.execute = false) : (translate address modes).Preserves allows holds := by
  intro processor starts
  rw [course_translate]
  apply (Activity.Gives.of_silent (TranslationUnit.locate_silent _ _ _ _)).bind
  rintro (fault | ⟨real, privilege⟩) -
  · exact .notify (translates.gives _ _ _ fetching) (.done (translates.faults fault))
  · have alike := processor.resembles_afterTranslation modes privilege
    exact .notify (translates.gives _ _ _ fetching) (.done (stable.resembles alike starts))

theorem readPieces_preserves (pieces : List Nat) (address : VirtualAddress) :
    (readPieces pieces address).Preserves allows holds := by
  induction pieces generalizing address with
  | nil => exact .pure fun _ => id
  | cons count rest ih =>
    refine .bind (translate_preserves address rfl) fun real => ?_
    refine .bind (.silent (Activity.readBytes_reads count real).silent) fun bytes => ?_
    exact .bind (ih _) fun more => .pure fun _ => id

theorem readVirtual_preserves (address : VirtualAddress) (count : Nat) :
    (readVirtual address count).Preserves allows holds :=
  .get fun _ _ => readPieces_preserves _ address

theorem loadWord_preserves (address : VirtualAddress) :
    (loadWord address).Preserves allows holds := by
  unfold loadWord
  split
  · refine .bind (translate_preserves address rfl) fun real => ?_
    exact .silent (.readWord real)
  · exact .bind (readVirtual_preserves address 8) fun bytes => .pure fun _ => id

theorem loadBytes_preserves (address : VirtualAddress) (length : Nat) :
    (loadBytes address length).Preserves allows holds := by
  unfold loadBytes
  split
  · exact loadWord_preserves address
  · exact .bind (readVirtual_preserves address length) fun bytes =>
      .pure fun _ => id

theorem loadWords_preserves (count : Nat) (address : VirtualAddress) :
    (loadWords count address).Preserves allows holds := by
  induction count generalizing address with
  | zero => exact .pure fun _ => id
  | succ count ih =>
    refine .bind (loadWord_preserves address) fun word => ?_
    exact .bind (ih _) fun rest => .pure fun _ => id

theorem writePieces_preserves (pieces : List Nat) (bytes : List Byte) (address : VirtualAddress) :
    (writePieces pieces bytes address).Preserves allows holds := by
  induction pieces generalizing bytes address with
  | nil => exact .pure fun _ => id
  | cons count rest ih =>
    refine .bind (translate_preserves address rfl) fun real => ?_
    exact .bind (.silent (Activity.writeBytes_silent _ real)) fun _ => ih _ _

theorem writeVirtual_preserves (address : VirtualAddress) (bytes : List Byte) :
    (writeVirtual address bytes).Preserves allows holds :=
  .get fun _ _ => writePieces_preserves _ bytes address

theorem storeWord_preserves (address : VirtualAddress) (word : Word) :
    (storeWord address word).Preserves allows holds := by
  unfold storeWord
  split
  · refine .bind (translate_preserves address rfl) fun real => ?_
    exact .silent (.writeWord trivial word)
  · exact writeVirtual_preserves address _

theorem storeBytes_preserves (address : VirtualAddress) (length : Nat) (word : Word) :
    (storeBytes address length word).Preserves allows holds := by
  unfold storeBytes
  split
  · exact storeWord_preserves address word
  · exact writeVirtual_preserves address _

theorem storeWords_ensures (words : List Word) (address : VirtualAddress) :
    (storeWords words address).Ensures allows holds fun top left =>
      holds left ∧ top.ring = address.ring := by
  induction words generalizing address with
  | nil => exact .pure fun _ starts => ⟨starts, rfl⟩
  | cons word rest ih =>
    exact .bind (storeWord_preserves address word) fun _ => ih _

end

/-! ## Code base pointers -/

section

variable {holds : Processor → Prop} [accesses : allows.Accesses] [stable : Processor.Stable holds]

omit stable in
theorem segmentWith_preserves (test : SegmentDescriptor → Bool) {refusal : MonitorCondition}
    (error : refusal.policy = .monitorError) (address : VirtualAddress) :
    (segmentWith test refusal address).Preserves allows holds := by
  refine .get fun processor _ => ?_
  refine .bind (.silent (processor.translation.segmentDescriptor_reads _).silent) fun found => ?_
  cases found with
  | none => exact .faultAt address (accesses.fails _ error)
  | some descriptor =>
    dsimp only
    split
    · exact .pure fun _ => id
    · exact .faultAt address (accesses.fails _ error)

omit stable in
theorem requireBindingSection_preserves (address : VirtualAddress) :
    (requireBindingSection address).Preserves allows holds :=
  .bind (segmentWith_preserves _ rfl address) fun _ => .pure fun _ => id

/-- The pointer to a binding section has at least the ring of the caller. -/
theorem resolveEntry_ensures (pointer : VirtualAddress) {ring : Nat} (small : ring < 16)
    (guarded : Bool) :
    (resolveEntry pointer ring guarded).Ensures allows holds fun entry left =>
      holds left ∧ ∀ binding, entry.binding = some binding → ring ≤ binding.ring.toNat := by
  unfold resolveEntry
  extract_lets follow
  -- With or without the check of the binding section, the pointer is followed in the same way.
  have followed : (follow ()).Ensures allows holds fun entry left =>
      holds left ∧ ∀ binding, entry.binding = some binding → ring ≤ binding.ring.toNat := by
    refine .bind (loadWord_preserves pointer) fun word => ?_
    extract_lets code finish enter
    have finished (binding : Option VirtualAddress)
        (above : ∀ address, binding = some address → ring ≤ address.ring.toNat) :
        (finish binding).Ensures allows holds fun entry left =>
          holds left ∧ ∀ binding, entry.binding = some binding → ring ≤ binding.ring.toNat := by
      refine .bind (segmentWith_preserves _ rfl code) fun segment => ?_
      extract_lets target
      split
      · exact .failThen (.faultAt code (accesses.fails _ rfl))
      · exact .pure fun _ starts => ⟨starts, above⟩
    split
    · exact .failThen (.faultAt pointer (accesses.fails _ rfl))
    unfold enter
    split
    -- Only an external pointer names a binding section, whose address is raised to the ring.
    · refine .bind (loadWord_preserves _) fun binding => ?_
      extract_lets sectionAddress guard
      have bound : (guard ()).Ensures allows holds _ := finished _ fun address same => by
        cases same
        rw [VirtualAddress.ring_ringAtLeast _ _ small]
        exact Nat.le_max_right _ _
      split
      · exact .bind (requireBindingSection_preserves _) fun _ => bound
      · exact bound
    · exact finished none fun address same => by cases same
  split
  · exact .bind (requireBindingSection_preserves _) fun _ => followed
  · exact followed

end

end Execution

end Mainframe
