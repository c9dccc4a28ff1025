import Mainframe.Proofs.BlockAccess

/-! What block instructions gather before they store it. They look at runs of bytes, one after
another, and what they find may say where they look next. The real places of these bytes are all
that what they gather depends on. -/

set_option autoImplicit false

namespace Mainframe

variable {α β μ : Type}

/-- Something made of bytes in virtual memory, or the condition that there is instead. -/
inductive Gathering (α : Type) where
  | done (result : α)
  | fail (condition : MonitorCondition)
  | look (address : VirtualAddress) (count : Nat) (next : List Byte → Gathering α)

namespace Gathering

def bind : Gathering α → (α → Gathering β) → Gathering β
  | .done result, continuation => continuation result
  | .fail condition, _ => .fail condition
  | .look address count next, continuation =>
    .look address count fun bytes => (next bytes).bind continuation

def execution : Gathering α → Execution α
  | .done result => return result
  | .fail condition => Execution.monitorFault condition
  | .look address count next => do
    let bytes ← Execution.readVirtual address count
    (next bytes).execution

theorem execution_bind (gathering : Gathering α) (continuation : α → Gathering β) :
    (gathering.bind continuation).execution =
      gathering.execution >>= fun result => (continuation result).execution := by
  induction gathering with
  | done result => rw [bind, execution, pure_bind]
  | fail condition => rfl
  | look address count next ih =>
    rw [bind, execution, execution, bind_assoc]
    congr
    funext bytes
    exact ih bytes

section

variable [Bus μ] (unit : TranslationUnit) (key : Byte) (memory : μ)

def wayTo (address : VirtualAddress) (count : Nat) : List Address × Option TranslationFault :=
  (⟨address, .forRead, key⟩ : Access).travel unit memory (unit.pieces address.byteNumber count)

/-- The places of the bytes that are looked at, up to the first page that does not translate. -/
def places : Gathering α → List Address
  | .done _ => []
  | .fail _ => []
  | .look address count next =>
    match wayTo unit key memory address count with
    | (places, some _) => places
    | (places, none) => places ++ (next (places.map (byteAt memory))).places

def result : Gathering α → Option α
  | .done result => some result
  | .fail _ => none
  | .look address count next =>
    match wayTo unit key memory address count with
    | (_, some _) => none
    | (places, none) => (next (places.map (byteAt memory))).result

end

/-! ## Gathering from memories -/

variable [Bus μ] {unit : TranslationUnit} {key : Byte} {start base memory : μ}

/-- What was made of the bytes in one memory is made again where the same translations succeed and
the bytes at its places are the same. -/
theorem result_of_serves {gathering : Gathering α} {result : α} (serves : unit.Serves start base)
    (same : ∀ place ∈ gathering.places unit key start, byteAt base place = byteAt start place)
    (made : gathering.result unit key start = some result) :
    gathering.result unit key base = some result ∧
      gathering.places unit key base = gathering.places unit key start := by
  induction gathering with
  | done => exact ⟨made, rfl⟩
  | fail => cases made
  | look address count next ih =>
    rw [Gathering.result] at made
    rw [Gathering.places] at same
    rw [Gathering.result, Gathering.places, Gathering.places]
    rcases travelled : wayTo unit key start address count with ⟨places, _ | fault⟩
    · rw [travelled] at made same
      obtain ⟨here, there⟩ := List.forall_mem_append.mp same
      have way : wayTo unit key base address count = (places, none) := by
        have through : (wayTo unit key start address count).2 = none := by rw [travelled]
        exact (Access.travel_of_serves serves through).trans travelled
      have bytes : places.map (byteAt base) = places.map (byteAt start) := List.map_congr_left here
      rw [way]
      dsimp only
      rw [bytes]
      obtain ⟨again, places⟩ := ih _ there made
      exact ⟨again, by rw [places]⟩
    · rw [travelled] at made
      cases made

variable [SlottedBus μ] [ForgetfulBus μ] {processor : Processor}

theorem ending_execution (gathering : Gathering α)
    (shares : unit.SharesTables processor.translation)
    (apart : unit.TablesApart start) (differs : unit.DiffersAt [] start memory)
    (spares : ∀ place ∈ gathering.places unit processor.key start, unit.SparesWord start place) :
    match gathering.result unit processor.key start with
    | some result => ∃ kept, gathering.execution.ending processor memory =
        ((.ok result, processor), kept) ∧ unit.DiffersAt [] start kept
    | none => ∀ result, (gathering.execution.ending processor memory).1.1 ≠ .ok result := by
  induction gathering generalizing memory with
  | done result => exact ⟨memory, rfl, differs⟩
  | fail condition => exact fun _ => nofun
  | look address count next ih =>
    have pieces : processor.translation.pieces = unit.pieces := by
      obtain ⟨_, _, same⟩ := shares
      rw [same]
      rfl
    have way : wayTo unit processor.key start address count =
        (processor.access .forRead address).travel unit start
          (processor.translation.pieces address.byteNumber count) := by
      rw [pieces]
      rfl
    -- The way to the bytes is that of the pieces that are read.
    have reads := Execution.ending_readPieces
      (processor.translation.pieces address.byteNumber count) address shares apart
      differs.toSearchesAlike
    rw [← way] at reads
    rw [Gathering.places] at spares
    rw [Gathering.result]
    rcases travelled : wayTo unit processor.key start address count with ⟨places, _ | fault⟩
    · -- What is looked at next depends on bytes that are as they were at the start.
      rw [travelled] at spares reads
      obtain ⟨here, there⟩ := List.forall_mem_append.mp spares
      obtain ⟨kept, ends, looked⟩ := reads here
      have bytes : places.map (byteAt memory) = places.map (byteAt start) :=
        List.map_congr_left fun place member =>
          differs.bytes place (here place member) List.not_mem_nil
      rw [bytes] at ends
      rw [execution, Execution.ending_bind, Execution.ending_readVirtual, ends]
      exact ih _ (differs.trans looked) there
    · rw [travelled] at spares reads
      have fails : (execution (.look address count next) |>.ending processor memory).1.1 = _ :=
        Execution.ending_bind_error (reads spares)
      dsimp only
      exact fun result completes => nomatch fails.symm.trans completes

section

variable {gathering : Gathering α} {result : α}

theorem ending_of_result (named : processor.key = key)
    (shares : unit.SharesTables processor.translation) (apart : unit.TablesApart start)
    (differs : unit.DiffersAt [] start memory)
    (spares : ∀ place ∈ gathering.places unit key start, unit.SparesWord start place)
    (made : gathering.result unit key start = some result) :
    ∃ kept, gathering.execution.ending processor memory = ((.ok result, processor), kept) ∧
      unit.DiffersAt [] start kept := by
  subst named
  have ends := gathering.ending_execution shares apart differs spares
  rwa [made] at ends

theorem result_of_ending (named : processor.key = key)
    (shares : unit.SharesTables processor.translation) (apart : unit.TablesApart start)
    (differs : unit.DiffersAt [] start memory)
    (spares : ∀ place ∈ gathering.places unit key start, unit.SparesWord start place)
    (completes : (gathering.execution.ending processor memory).1.1 = .ok result) :
    gathering.result unit key start = some result := by
  subst named
  have ends := gathering.ending_execution shares apart differs spares
  cases made : gathering.result unit processor.key start with
  | none =>
    rw [made] at ends
    exact (ends result completes).elim
  | some other =>
    rw [made] at ends
    obtain ⟨_, ends, -⟩ := ends
    rw [ends] at completes
    cases completes
    rfl

end

end Gathering

/-! ## Block instructions -/

def Gathering.editStep (editor : Editor) (limit : Nat) (byte operand : Word) : Gathering Editor :=
  match editor.applyWithin limit (byte.extractLsb' 4 4) (byte.extractLsb' 0 4)
      (operand.setWidth 8) with
  | some edited => .done edited
  | none => .fail .instructionSpecification

def Gathering.editUnder (limit : Nat) :
    (budget : Nat) → VirtualAddress → Editor → Gathering Editor
  | 0, _, editor => .done editor
  | budget + 1, address, editor => .look address 1 fun bytes =>
    let byte := Word.ofBytes bytes
    let operation : BitVec 4 := byte.extractLsb' 4 4
    if operation = 0 then .done editor
    else if Editor.takesOperand operation then .look (address.offset 1) 1 fun more =>
      (editStep editor limit byte (Word.ofBytes more)).bind fun edited =>
        match budget with
        | 0 => .done edited
        | rest + 1 => editUnder limit rest (address.offset 2) edited
    else (editStep editor limit byte 0).bind fun edited =>
      editUnder limit budget (address.offset 1) edited

namespace Processor

variable (processor : Processor) (instruction : Instruction)

def copyGathering (change : Byte → Byte) : Gathering (List Byte) :=
  let length := Execution.destinationLength processor
  .look (processor.addressRegister instruction.j)
    (min (Execution.sourceLength processor) length) fun bytes =>
      .done ((padded length bytes).map change)

/-- What a block instruction stores at its destination, if it has one. -/
def gathering : BlockOperation → Option (Gathering (List Byte))
  | .move => some (processor.copyGathering instruction id)
  | .translate => some (.look (processor.tableOperand instruction) 256 fun table =>
      processor.copyGathering instruction (tableEntry table))
  | .edit =>
    let limit := Execution.destinationLength processor
    some (.look (processor.addressRegister instruction.j) (Execution.sourceLength processor)
      fun source => (Gathering.editUnder limit 256 (processor.tableOperand instruction)
        (.start source)).bind fun editor => .done (editor.finish limit))
  | _ => none

end Processor

namespace Execution

theorem loadBytes_one (address : VirtualAddress) :
    loadBytes address 1 = (readVirtual address 1 >>= fun bytes => pure (Word.ofBytes bytes)) := rfl

theorem execution_editStep (editor : Editor) (limit : Nat) (byte operand : Word) :
    (Gathering.editStep editor limit byte operand).execution =
      editStep editor limit byte operand := by
  unfold Gathering.editStep editStep
  cases editor.applyWithin limit (byte.extractLsb' 4 4) (byte.extractLsb' 0 4)
    (operand.setWidth 8) <;> rfl

theorem execution_editUnder (limit budget : Nat) (address : VirtualAddress) (editor : Editor) :
    (Gathering.editUnder limit budget address editor).execution =
      editUnder limit budget address editor := by
  -- An operation with an operand takes two steps of the budget.
  induction budget using Nat.strongRecOn generalizing address editor with
  | ind budget ih =>
    rcases budget with _ | budget
    · rfl
    rw [editUnder_succ, loadBytes_one, bind_assoc, Gathering.editUnder.eq_def]
    dsimp only
    rw [Gathering.execution]
    congr
    funext bytes
    rw [pure_bind]
    split
    · rfl
    split
    · rw [loadBytes_one, bind_assoc, Gathering.execution]
      congr
      funext more
      rw [pure_bind, Gathering.execution_bind, execution_editStep]
      congr
      funext edited
      cases budget with
      | zero => rfl
      | succ rest => exact ih rest (by omega) _ _
    · rw [Gathering.execution_bind, execution_editStep]
      congr
      funext edited
      exact ih budget (by omega) _ _

section

variable [Bus μ] {processor : Processor} {memory : μ} {instruction : Instruction}

theorem ending_copyBlock (change : Byte → Byte) (processor : Processor) (memory : μ) :
    (copyBlock change instruction).ending processor memory =
      ((processor.copyGathering instruction change).execution >>= fun bytes =>
        writeVirtual (processor.addressRegister instruction.k) bytes).ending processor memory := by
  rw [Processor.copyGathering, Gathering.execution, bind_assoc]
  unfold copyBlock
  rw [ending, course_get, ← ending]
  rfl

theorem ending_block {operation : BlockOperation} {gathering : Gathering (List Byte)}
    (gathers : processor.gathering instruction operation = some gathering) :
    (block operation instruction).ending processor memory =
      (gathering.execution >>= fun bytes =>
        writeVirtual (processor.addressRegister instruction.k) bytes).ending processor memory := by
  cases operation with
  | move =>
    rw [Processor.gathering, Option.some.injEq] at gathers
    subst gathers
    exact ending_copyBlock id processor memory
  | translate =>
    rw [Processor.gathering, Option.some.injEq] at gathers
    subst gathers
    rw [Gathering.execution, bind_assoc, block, translateBytes, readTable, bind_assoc]
    rw [ending, course_get, ← ending, ending_bind, ending_bind]
    -- The table is read before the source, and leaves the processor as it was.
    have inspects := readVirtual_inspects processor memory (processor.tableOperand instruction) 256
    rcases ends : (readVirtual (processor.tableOperand instruction) 256).ending processor memory
      with ⟨⟨_ | table, left⟩, kept⟩
    · rfl
    · obtain ⟨rfl, -⟩ := inspects.completed ends
      exact ending_copyBlock (tableEntry table) _ kept
  | edit =>
    rw [Processor.gathering, Option.some.injEq] at gathers
    subst gathers
    rw [Gathering.execution, bind_assoc, block, editBytes, ending, course_get, ← ending]
    refine congrArg (fun execution : Execution Unit => execution.ending processor memory)
      (congrArg (readVirtual _ _ >>= ·) (funext fun source => ?_))
    rw [Gathering.execution_bind, execution_editUnder, bind_assoc]
    rfl
  | _ => cases gathers

end

end Execution

end Mainframe
