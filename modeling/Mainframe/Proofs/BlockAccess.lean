import Mainframe.Proofs.MemoryDifferences

/-! Blocks of virtual memory, read and stored again. What is read from one memory can be read from
another in which the same translations succeed. A block that could be stored in part is stored anew
as if nothing of it had been stored before. -/

set_option autoImplicit false

namespace Mainframe

variable {α β μ : Type}

/-! ## The way of an access through its pages -/

namespace Access

section

variable [Bus μ]

/-- The places of the bytes of some pieces, up to the first piece that does not translate, and what
is wrong with that one. -/
def travel (unit : TranslationUnit) (memory : μ) :
    List Nat → Access → List Address × Option TranslationFault
  | [], _ => ([], none)
  | count :: rest, access =>
    match access.outcome unit memory with
    | .error fault => ([], some fault)
    | .ok real =>
      let (places, fault) := travel unit memory rest (access.onward count)
      (run count real ++ places, fault)

variable {unit : TranslationUnit} {memory kept : μ} {access : Access} {count : Nat}
  {rest pieces : List Nat}

theorem travel_ok {real : Address} (found : access.outcome unit memory = .ok real) :
    travel unit memory (count :: rest) access =
      (run count real ++ (travel unit memory rest (access.onward count)).1,
        (travel unit memory rest (access.onward count)).2) := by
  rw [travel, found]

theorem travel_error {fault : TranslationFault}
    (fails : access.outcome unit memory = .error fault) :
    travel unit memory (count :: rest) access = ([], some fault) := by
  rw [travel, fails]

theorem address_of_error {fault : TranslationFault}
    (fails : access.outcome unit memory = .error fault) : fault.address = access.address := by
  have prescribed := unit.prescribes_translate memory access.address access.modes access.key
  unfold outcome translate at fails
  generalize (unit.translate access.address access.modes access.key).perform memory = result
    at prescribed fails
  cases prescribed with
  | success => cases fails
  | _ =>
    cases fails
    rfl

theorem exists_of_travel_fault {fault : TranslationFault}
    (ends : (travel unit memory pieces access).2 = some fault) :
    ∃ other : Access, other.address = fault.address ∧ other.outcome unit memory = .error fault := by
  induction pieces generalizing access with
  | nil => cases ends
  | cons count rest ih =>
    cases found : access.outcome unit memory with
    | error other =>
      rw [travel_error found] at ends
      cases ends
      exact ⟨access, (address_of_error found).symm, found⟩
    | ok real =>
      rw [travel_ok found] at ends
      exact ih ends

/-- An access that comes through goes the same way wherever the same translations succeed. -/
theorem travel_of_serves (serves : unit.Serves memory kept)
    (through : (travel unit memory pieces access).2 = none) :
    travel unit kept pieces access = travel unit memory pieces access := by
  induction pieces generalizing access with
  | nil => rfl
  | cons count rest ih =>
    cases found : access.outcome unit memory with
    | error fault =>
      rw [travel_error found] at through
      cases through
    | ok real =>
      rw [travel_ok found] at through ⊢
      rw [travel_ok (serves access real found), ih through]

end

end Access

namespace Execution

theorem ending_bind_error [Bus μ] {execution : Execution α} {continuation : α → Execution β}
    {processor : Processor} {memory : μ} {condition : Condition}
    (fails : (execution.ending processor memory).1.1 = .error condition) :
    ((execution >>= continuation).ending processor memory).1.1 = .error condition := by
  rw [ending_bind]
  generalize execution.ending processor memory = ended at fails ⊢
  obtain ⟨⟨_ | _, _⟩, _⟩ := ended
  · cases fails
    rfl
  · cases fails

section

variable [Bus μ] [SlottedBus μ] {unit : TranslationUnit} {processor : Processor}
  {start memory : μ} {modes : AccessModes} {address : VirtualAddress}

/-! ## Reading -/

variable [ForgetfulBus μ] {pieces : List Nat}

theorem ending_readPieces (pieces : List Nat) (address : VirtualAddress)
    (shares : unit.SharesTables processor.translation)
    (apart : unit.TablesApart start) (alike : unit.SearchesAlike start memory)
    (spares : ∀ place ∈ ((processor.access .forRead address).travel unit start pieces).1,
      unit.SparesWord start place) :
    match (processor.access .forRead address).travel unit start pieces with
    | (places, none) => ∃ kept, (readPieces pieces address).ending processor memory =
        ((.ok (places.map (byteAt memory)), processor), kept) ∧ unit.DiffersAt [] memory kept
    | (_, some fault) =>
      ((readPieces pieces address).ending processor memory).1.1 = .error (.ofFault fault) := by
  induction pieces generalizing address memory with
  | nil => exact ⟨memory, rfl, .refl⟩
  | cons count rest ih =>
    rw [readPieces, ending_bind, ending_translate_shared shares alike address rfl]
    cases found : (processor.access .forRead address).outcome unit start with
    | error fault =>
      rw [Access.travel_error found]
    | ok real =>
      rw [Access.travel_ok found] at spares ⊢
      obtain ⟨here, there⟩ := List.forall_mem_append.mp spares
      -- The invariant is that memory differs from the start in marks alone: a translation may mark
      -- an entry between two pieces.
      have leaves := unit.differsAt_leave apart alike (processor.access .forRead address)
      have spared (place : Address) (spared : unit.SparesWord start place) :
          byteAt ((processor.access .forRead address).leave unit start memory) place =
            byteAt memory place :=
        leaves.bytes place ((alike.sparesWord_iff place).mpr spared) List.not_mem_nil
      generalize (processor.access .forRead address).leave unit start memory = marked
        at leaves spared ⊢
      have later := ih (address.offset count) (alike.trans leaves.toSearchesAlike) there
      dsimp only
      rw [ending_bind, ending_liftM, Activity.perform_readBytes,
        (Activity.readBytes_reads _ _).perform_memory]
      change match (processor.access .forRead address |>.onward count).travel unit start rest with
        | (places, none) => _
        | (_, some fault) => _ at later
      rcases travelled : ((processor.access .forRead address).onward count).travel unit start rest
        with ⟨places, _ | fault⟩
      · rw [travelled] at later there
        obtain ⟨kept, ends, differs⟩ := later
        refine ⟨kept, ?_, leaves.trans differs⟩
        dsimp only
        rw [ending_bind, ends]
        have first : (run count real).map (byteAt marked) = (run count real).map (byteAt memory) :=
          List.map_congr_left fun place member => spared place (here place member)
        have rest : places.map (byteAt marked) = places.map (byteAt memory) :=
          List.map_congr_left fun place member => spared place (there place member)
        dsimp only
        rw [List.map_append, first, rest]
        rfl
      · rw [travelled] at later
        exact ending_bind_error later

/-! ## Storing -/

variable {bytes : List Byte} {count : Nat} {rest : List Nat}

omit [ForgetfulBus μ] in
theorem ending_writePieces_error {fault : TranslationFault}
    (shares : unit.SharesTables processor.translation) (alike : unit.SearchesAlike start memory)
    (fails : (processor.access .forWrite address).outcome unit start = .error fault) :
    (writePieces (count :: rest) bytes address).ending processor memory =
      ((.error (.ofFault fault),
        processor.tracing address processor.translation.executePrivilege), memory) := by
  rw [writePieces, ending_bind, ending_translate_shared shares alike address rfl, fails]

omit [ForgetfulBus μ] in
theorem ending_writePieces_ok {real : Address} (shares : unit.SharesTables processor.translation)
    (alike : unit.SearchesAlike start memory)
    (found : (processor.access .forWrite address).outcome unit start = .ok real) :
    (writePieces (count :: rest) bytes address).ending processor memory =
      (writePieces rest (bytes.drop count) (address.offset count)).ending processor
        ((Activity.writeBytes (bytes.take count) real).perform
          ((processor.access .forWrite address).leave unit start memory)).2 := by
  rw [writePieces, ending_bind, ending_translate_shared shares alike address rfl, found]
  dsimp only
  rw [ending_bind, ending_liftM]

theorem differsAt_piece {real : Address} (length : (bytes.take count).length = count)
    (apart : unit.TablesApart start) (alike : unit.SearchesAlike start memory)
    (outside : unit.Outside start (run count real)) (access : Access) :
    unit.DiffersAt (run count real) memory
      ((Activity.writeBytes (bytes.take count) real).perform
        (access.leave unit start memory)).2 := by
  have leaves := unit.differsAt_leave apart alike access
  have outside := outside.congr (alike.trans leaves.toSearchesAlike).slots
  have stored := unit.differsAt_writeBytes (bytes.take count) real (length.symm ▸ outside)
  rw [length] at stored
  exact leaves.trans stored

theorem ending_writePieces {pieces : List Nat} (address : VirtualAddress)
    (length : pieces.sum = bytes.length)
    (shares : unit.SharesTables processor.translation) (apart : unit.TablesApart start)
    (alike : unit.SearchesAlike start memory)
    (outside : unit.Outside start
      ((processor.access .forWrite address).travel unit start pieces).1) :
    let (places, fault) := (processor.access .forWrite address).travel unit start pieces
    unit.DiffersAt places memory ((writePieces pieces bytes address).ending processor memory).2 ∧
      ((writePieces pieces bytes address).ending processor memory).1 =
        match fault with
        | none => (.ok (), processor)
        | some fault => (.error (.ofFault fault),
            processor.tracing fault.address processor.translation.executePrivilege) := by
  induction pieces generalizing address memory bytes with
  | nil => exact ⟨.refl, rfl⟩
  | cons count rest ih =>
    cases found : (processor.access .forWrite address).outcome unit start with
    | error fault =>
      rw [Access.travel_error found, ending_writePieces_error shares alike found]
      refine ⟨.refl, ?_⟩
      dsimp only
      rw [Access.address_of_error found]
      rfl
    | ok real =>
      rw [List.sum_cons] at length
      have taken : (bytes.take count).length = count := List.length_take_of_le (by omega)
      have left : rest.sum = (bytes.drop count).length := by
        rw [List.length_drop]
        omega
      rw [Access.travel_ok found] at outside ⊢
      obtain ⟨here, there⟩ := TranslationUnit.outside_append.mp outside
      -- A piece is stored before the next one is translated, so the rest goes by the memory that
      -- the piece has left.
      have first := differsAt_piece taken apart alike here (processor.access .forWrite address)
      rw [ending_writePieces_ok shares alike found]
      obtain ⟨differs, ends⟩ := ih (address.offset count) left
        (alike.trans first.toSearchesAlike) there
      exact ⟨first.trans differs, ends⟩

end

end Execution

/-! ## Storing again -/

/-- The second processor differs in its untranslatable pointer and its count of steps alone. -/
def Processor.Parallels (processor other : Processor) : Prop :=
  ∃ untranslatable freeRunning, other = { processor with
    translation := { processor.translation with untranslatable }
    freeRunning }

namespace Processor.Parallels

variable {processor other : Processor} (parallels : processor.Parallels other)

include parallels

theorem sharesTables {unit : TranslationUnit} (shares : unit.SharesTables processor.translation) :
    unit.SharesTables other.translation := by
  obtain ⟨_, _, rfl⟩ := parallels
  obtain ⟨_, privilege, same⟩ := shares
  exact ⟨_, privilege, by rw [same]⟩

theorem access_eq (modes : AccessModes) (address : VirtualAddress) :
    other.access modes address = processor.access modes address := by
  obtain ⟨_, _, rfl⟩ := parallels
  rfl

theorem tracing (address : VirtualAddress) :
    (processor.tracing address processor.translation.executePrivilege).Parallels
      (other.tracing address other.translation.executePrivilege) := by
  obtain ⟨_, _, rfl⟩ := parallels
  exact ⟨address, _, rfl⟩

theorem commit (completed : Bool) :
    (processor.commit completed).Parallels (other.commit completed) := by
  obtain ⟨untranslatable, freeRunning, rfl⟩ := parallels
  exact ⟨untranslatable, freeRunning, rfl⟩

theorem fault (condition : Condition) :
    (processor.fault condition).Parallels (other.fault condition) := by
  obtain ⟨untranslatable, freeRunning, rfl⟩ := parallels
  have action : Processor.actionOf { processor with
      translation := { processor.translation with untranslatable }
      freeRunning } condition = processor.actionOf condition := by
    cases condition <;> rfl
  unfold Processor.fault
  rw [action]
  split <;> cases condition <;> exact ⟨untranslatable, freeRunning, rfl⟩

end Processor.Parallels

namespace Execution

section

variable [Bus μ] [SlottedBus μ]

/-- The second of two executions ends like the first, with the same tables and the same bytes
outside of them. -/
structure EndsAlike (unit : TranslationUnit) (first second : (Except Condition α × Processor) × μ) :
    Prop where
  result : second.1.1 = first.1.1
  processors : first.1.2.Parallels second.1.2
  memories : unit.DiffersAt [] first.2 second.2

variable [ForgetfulBus μ] {unit : TranslationUnit} {processor other : Processor}
  {start base memory kept : μ} {address : VirtualAddress} {pieces : List Nat} {bytes : List Byte}

theorem writePieces_alike (parallels : processor.Parallels other)
    (shares : unit.SharesTables processor.translation) (apart : unit.TablesApart memory)
    (differs : unit.DiffersAt [] memory kept) :
    EndsAlike unit ((writePieces pieces bytes address).ending processor memory)
      ((writePieces pieces bytes address).ending other kept) := by
  induction pieces generalizing address memory kept bytes with
  | nil => exact ⟨rfl, parallels, differs⟩
  | cons count rest ih =>
    have sharesToo := parallels.sharesTables shares
    cases found : (processor.access .forWrite address).outcome unit memory with
    | error fault =>
      rw [ending_writePieces_error shares .refl found,
        ending_writePieces_error sharesToo differs.toSearchesAlike (by rwa [parallels.access_eq])]
      exact ⟨rfl, parallels.tracing address, differs⟩
    | ok real =>
      have marked := differs.leave apart (processor.access .forWrite address)
      rw [ending_writePieces_ok shares .refl found,
        ending_writePieces_ok sharesToo differs.toSearchesAlike (by rwa [parallels.access_eq]),
        parallels.access_eq]
      refine ih (apart.congr fun other => ?_) (marked.mono (List.nil_subset _)).writeBytes
      exact (TranslationUnit.slot_writeBytes _ _ _ other).trans
        ((unit.differsAt_leave apart .refl _).slots other)

/-- A block that was stored up to a page that was missing is stored over what is left of it. Where
the translations of the first time succeed, and the places of the bytes of then are all that makes
a difference, none is left. -/
theorem writePieces_again (address : VirtualAddress) (length : pieces.sum = bytes.length)
    (parallels : processor.Parallels other)
    (shares : unit.SharesTables processor.translation) (serves : unit.Serves start base)
    (apart : unit.TablesApart base) (alike : unit.SearchesAlike base memory)
    (outside : unit.Outside base
      ((processor.access .forWrite address).travel unit start pieces).1)
    (differs : unit.DiffersAt ((processor.access .forWrite address).travel unit start pieces).1
      memory kept) :
    EndsAlike unit ((writePieces pieces bytes address).ending processor memory)
      ((writePieces pieces bytes address).ending other kept) := by
  induction pieces generalizing address memory kept bytes with
  | nil => exact ⟨rfl, parallels, differs⟩
  | cons count rest ih =>
    cases found : (processor.access .forWrite address).outcome unit start with
    | error fault =>
      -- From the missing page on there is nothing that was stored before.
      rw [Access.travel_error found] at differs
      exact writePieces_alike parallels shares (apart.congr alike.slots) differs
    | ok real =>
      have sharesToo := parallels.sharesTables shares
      rw [List.sum_cons] at length
      have taken : (bytes.take count).length = count := List.length_take_of_le (by omega)
      have left : rest.sum = (bytes.drop count).length := by
        rw [List.length_drop]
        omega
      rw [Access.travel_ok found] at outside differs
      obtain ⟨here, there⟩ := TranslationUnit.outside_append.mp outside
      have again : (processor.access .forWrite address).outcome unit memory = .ok real :=
        (alike.outcome_eq _).trans (serves _ _ found)
      have marked := differs.leave (apart.congr alike.slots) (processor.access .forWrite address)
      have stored := differsAt_piece taken (apart.congr alike.slots) .refl
        (here.congr alike.slots) (processor.access .forWrite address)
      rw [ending_writePieces_ok shares .refl again,
        ending_writePieces_ok sharesToo differs.toSearchesAlike (by rwa [parallels.access_eq]),
        parallels.access_eq]
      refine ih (address.offset count) left (alike.trans stored.toSearchesAlike) there
        (TranslationUnit.DiffersAt.writeBytes ?_)
      rw [taken]
      exact marked

end

end Execution

end Mainframe
