import Mainframe.Machine.Basic
import Mainframe.Proofs.AreaAccess
import Mainframe.Proofs.BytewiseMemory
import Mainframe.Proofs.PageBytes

/-! Access to virtual memory byte by byte. Runs of bytes are moved in pieces of pages, and whole
words at once, but they end as if each byte were translated and moved on its own: with the same
memory, and with the same fault at the first byte that does not translate. -/

set_option autoImplicit false

namespace Mainframe

variable {α β γ μ : Type}

/-! ## Translations in executions -/

def Processor.access (processor : Processor) (modes : AccessModes) (address : VirtualAddress) :
    Access := ⟨address, modes, processor.key⟩

namespace Execution

variable [Bus μ] [SlottedBus μ] {processor : Processor} {start memory : μ} {modes : AccessModes}
  {address : VirtualAddress}

section

variable {unit : TranslationUnit} (shares : unit.SharesTables processor.translation)
  (alike : unit.SearchesAlike start memory)

include shares alike

theorem ending_translate_resembling (modes : AccessModes) (address : VirtualAddress) :
    ∃ left, processor.Resembles left ∧
      (translate address modes).ending processor memory =
        ((((processor.access modes address).outcome unit start).mapError .ofFault, left),
          (processor.access modes address).leave unit start memory) := by
  obtain ⟨_, -, goes⟩ := (processor.access modes address).perform_translate shares alike
  obtain ⟨privilege, ends⟩ := ending_translate_eq processor address modes goes
  rw [ends]
  cases (processor.access modes address).outcome unit start with
  | error fault => exact ⟨_, ⟨_, _, rfl⟩, rfl⟩
  | ok real => exact ⟨_, processor.resembles_afterTranslation modes privilege, rfl⟩

theorem ending_translate_shared (address : VirtualAddress) (fetching : modes.execute = false) :
    (translate address modes).ending processor memory =
      match (processor.access modes address).outcome unit start with
      | .ok real => ((.ok real, processor),
          (processor.access modes address).leave unit start memory)
      | .error fault => ((.error (.ofFault fault),
          processor.tracing address processor.translation.executePrivilege), memory) := by
  obtain ⟨_, -, goes⟩ := (processor.access modes address).perform_translate shares alike
  obtain ⟨privilege, ends⟩ := ending_translate_eq processor address modes goes
  rw [ends]
  cases outcome : (processor.access modes address).outcome unit start with
  | error fault =>
    -- What fails marks nothing.
    rw [Access.leave, Access.place, outcome]
  | ok real =>
    rw [Processor.afterTranslation, fetching]
    rfl

end

theorem ending_translate (fetching : modes.execute = false)
    (alike : processor.translation.SearchesAlike start memory) :
    (translate address modes).ending processor memory =
      match (processor.access modes address).outcome processor.translation start with
      | .ok real => ((.ok real, processor),
          (processor.access modes address).leave processor.translation start memory)
      | .error fault => ((.error (.ofFault fault),
          processor.tracing address processor.translation.executePrivilege), memory) :=
  ending_translate_shared ⟨_, _, rfl⟩ alike address fetching

/-! ## One byte after another -/

/-- Translate the address of one byte after another, and do with each what is to be done. -/
def eachByte (modes : AccessModes) :
    List (Address → Activity β) → VirtualAddress → Execution (List β)
  | [], _ => return []
  | act :: rest, address => do
    let real ← translate address modes
    let result ← act real
    let more ← eachByte modes rest (address.offset 1)
    return result :: more

def readSingly (count : Nat) (address : VirtualAddress) : Execution (List Byte) :=
  eachByte .forRead (List.replicate count Activity.readByte) address

def writeSingly (bytes : List Byte) (address : VirtualAddress) : Execution Unit := do
  let _ ← eachByte .forWrite (bytes.map fun byte real => Activity.writeByte real byte) address

theorem eachByte_append (acts more : List (Address → Activity β)) (address : VirtualAddress) :
    eachByte modes (acts ++ more) address =
      eachByte modes acts address >>= fun first =>
        eachByte modes more (address.offset acts.length) >>= fun last => pure (first ++ last) := by
  induction acts generalizing address with
  | nil => simp [eachByte]
  | cons act rest ih =>
    have next : (address.offset 1).offset rest.length = address.offset (act :: rest).length := by
      rw [VirtualAddress.offset_offset, List.length_cons, Nat.cast_add, Nat.cast_one, Int.add_comm]
    rw [List.cons_append, eachByte, ih, next, eachByte]
    simp only [bind_assoc, pure_bind, List.cons_append]

variable (processor start modes) in
/-- What is done with the bytes, up to the first that does not translate, spares the tables. -/
def SparesTables (acts : List (Address → Activity β)) (address : VirtualAddress) : Prop :=
  ∀ index act, acts[index]? = some act →
    (processor.access modes address).Reaches processor.translation start index →
      ∀ real, ((processor.access modes address).onward index).outcome processor.translation start =
        .ok real → processor.translation.Spares start (act real)

namespace SparesTables

variable {acts more : List (Address → Activity β)} {act : Address → Activity β}

theorem reading (reads : ∀ real, (act real).OnlyReads) (count : Nat) :
    SparesTables processor start modes (List.replicate count act) address := by
  intro index other found _ real _
  obtain ⟨-, rfl⟩ := List.mem_replicate.mp (List.mem_of_getElem? found)
  exact .reading (reads real)

theorem writing {bytes : List Byte}
    (outside : (processor.access .forWrite address).Along processor.translation start bytes.length
      fun byte => byte.OutsideTables processor.translation start) :
    SparesTables processor start .forWrite
      (bytes.map fun byte real => Activity.writeByte real byte) address := by
  intro index act found reaches real translated
  rw [List.getElem?_map, Option.map_eq_some_iff] at found
  obtain ⟨byte, there, rfl⟩ := found
  have inside := (List.getElem?_eq_some_iff.mp there).1
  exact .writeByte byte (outside index inside reaches real translated)

theorem left (spares : SparesTables processor start modes (acts ++ more) address) :
    SparesTables processor start modes acts address := by
  intro index act found
  have inside := (List.getElem?_eq_some_iff.mp found).1
  exact spares index act (by rwa [List.getElem?_append_left inside])

theorem right (spares : SparesTables processor start modes (acts ++ more) address)
    (reaches : (processor.access modes address).Reaches processor.translation start acts.length) :
    SparesTables processor start modes more (address.offset acts.length) := by
  intro index act found there real translated
  refine spares (acts.length + index) act ?_ (Access.reaches_add.mpr ⟨reaches, there⟩) real ?_
  · rw [List.getElem?_append_right (Nat.le_add_right _ _), Nat.add_sub_cancel_left, found]
  · rwa [← Access.onward_onward]

theorem head (spares : SparesTables processor start modes (act :: more) address) {real : Address}
    (found : (processor.access modes address).outcome processor.translation start = .ok real) :
    processor.translation.Spares start (act real) :=
  spares 0 act rfl (fun _ before => (Nat.not_lt_zero _ before).elim) real
    (by rwa [Access.onward_zero])

theorem tail (spares : SparesTables processor start modes (act :: more) address) {real : Address}
    (found : (processor.access modes address).outcome processor.translation start = .ok real) :
    SparesTables processor start modes more (address.offset 1) := by
  have split : SparesTables processor start modes ([act] ++ more) address := spares
  exact split.right (Access.reaches_one found)

end SparesTables

section

variable {acts more : List (Address → Activity β)} {act : Address → Activity β}

theorem ending_eachByte_cons (fetching : modes.execute = false)
    (alike : processor.translation.SearchesAlike start memory) :
    (eachByte modes (act :: more) address).ending processor memory =
      match (processor.access modes address).outcome processor.translation start with
      | .ok real =>
        let (result, kept) := (act real).perform
          ((processor.access modes address).leave processor.translation start memory)
        (eachByte modes more (address.offset 1) >>= fun results =>
          pure (result :: results)).ending processor kept
      | .error fault => ((.error (.ofFault fault),
          processor.tracing address processor.translation.executePrivilege), memory) := by
  rw [eachByte, ending_bind, ending_translate fetching alike]
  cases (processor.access modes address).outcome processor.translation start with
  | error fault => rfl
  | ok real =>
    dsimp only
    rw [ending_bind, ending_liftM]

variable [ForgetfulBus μ]

theorem eachByte_completes (fetching : modes.execute = false)
    (apart : processor.translation.TablesApart start)
    (alike : processor.translation.SearchesAlike start memory)
    (reaches : (processor.access modes address).Reaches processor.translation start acts.length)
    (spares : SparesTables processor start modes acts address) :
    ∃ results kept, (eachByte modes acts address).ending processor memory =
        ((.ok results, processor), kept) ∧
      processor.translation.SearchesAlike start kept := by
  induction acts generalizing address memory with
  | nil => exact ⟨[], memory, rfl, alike⟩
  | cons act rest ih =>
    rw [List.length_cons, Nat.add_comm, Access.reaches_add] at reaches
    obtain ⟨here, there⟩ := reaches
    change (processor.access modes (address.offset 1)).Reaches _ _ _ at there
    obtain ⟨real, found⟩ := here 0 Nat.one_pos
    rw [Access.onward_zero] at found
    have first := (spares.head found).alike
      ((processor.access modes address).leave_alike apart alike)
    obtain ⟨results, last, ends, after⟩ := ih first there (spares.tail found)
    rw [ending_eachByte_cons fetching alike, found]
    dsimp only
    rw [ending_bind, ends]
    exact ⟨_, last, rfl, after⟩

theorem eachByte_stops (fetching : modes.execute = false)
    (apart : processor.translation.TablesApart memory)
    (spares : SparesTables processor memory modes acts address) {index : Nat}
    (inside : index < acts.length)
    (reaches : (processor.access modes address).Reaches processor.translation memory index)
    {fault : TranslationFault}
    (fails : ((processor.access modes address).onward index).outcome processor.translation memory =
      .error fault) :
    ∃ results kept, (eachByte modes (acts.take index) address).ending processor memory =
        ((.ok results, processor), kept) ∧
      (eachByte modes acts address).ending processor memory =
        ((.error (.ofFault fault), processor.tracing (address.offset index)
          processor.translation.executePrivilege), kept) := by
  have length : (acts.take index).length = index := List.length_take_of_le (Nat.le_of_lt inside)
  have split : acts = acts.take index ++ acts[index] :: acts.drop (index + 1) := by
    rw [← List.drop_eq_getElem_cons, List.take_append_drop]
  rw [split] at spares
  obtain ⟨results, kept, ends, alike⟩ :=
    eachByte_completes fetching apart .refl (by rwa [length]) spares.left
  refine ⟨results, kept, ends, ?_⟩
  change (processor.access modes (address.offset index)).outcome _ _ = _ at fails
  rw [split, eachByte_append, ending_bind, ends, length]
  dsimp only
  rw [ending_bind, ending_eachByte_cons fetching alike, fails]

/-! ## The bytes of one page -/

omit [ForgetfulBus μ] in
/-- Where the page has been accessed already, its bytes are all dealt with in real memory. -/
theorem eachByte_afterAccess (fetching : modes.execute = false) {index : PageIndex} {real : Address}
    (after : processor.translation.AfterAccess start index modes memory)
    (mapped : ∀ distance < acts.length,
      ((processor.access modes address).onward distance).outcome processor.translation start =
          .ok (real + BitVec.ofNat 64 distance) ∧
        ((processor.access modes address).onward distance).place processor.translation start =
          some index)
    (spares : SparesTables processor start modes acts address) :
    (eachByte modes acts address).ending processor memory =
        ((.ok ((Activity.onEach acts real).perform memory).1, processor),
          ((Activity.onEach acts real).perform memory).2) ∧
      processor.translation.AfterAccess start index modes
        ((Activity.onEach acts real).perform memory).2 := by
  induction acts generalizing address real memory with
  | nil => exact ⟨rfl, after⟩
  | cons act rest ih =>
    obtain ⟨here, placed⟩ := mapped 0 (Nat.succ_pos _)
    rw [Access.onward_zero] at here placed
    rw [BitVec.add_zero] at here
    -- The page is marked already, so a further access to it changes nothing.
    have still : (processor.access modes address).leave processor.translation start memory =
        memory := by
      rw [Access.leave, placed]
      exact after.marked_eq
    have others : ∀ distance < rest.length,
        ((processor.access modes (address.offset 1)).onward distance).outcome processor.translation
            start = .ok (real + 1 + BitVec.ofNat 64 distance) ∧
          ((processor.access modes (address.offset 1)).onward distance).place processor.translation
            start = some index := by
      intro distance inside
      have found := mapped (1 + distance) (by rw [List.length_cons]; omega)
      rw [← Access.onward_onward, BitVec.ofNat_add, ← BitVec.add_assoc] at found
      exact found
    obtain ⟨ends, last⟩ := ih ((spares.head here).afterAccess after) others (spares.tail here)
    rw [ending_eachByte_cons fetching after.alike, here]
    dsimp only
    rw [still, ending_bind, ends, Activity.onEach]
    simp only [Activity.perform_bind, Activity.perform_pure]
    exact ⟨rfl, last⟩

theorem eachByte_page (fetching : modes.execute = false)
    (apart : processor.translation.TablesApart start)
    (alike : processor.translation.SearchesAlike start memory) {real : Address}
    (succeeds : (processor.access modes address).outcome processor.translation start = .ok real)
    (aligned : (processor.access modes address).FrameAligned processor.translation start)
    (some : acts ≠ [])
    (fits : acts.length ≤ processor.translation.pageRemaining address.byteNumber)
    (spares : SparesTables processor start modes acts address) :
    let kept := (processor.access modes address).leave processor.translation start memory
    (eachByte modes acts address).ending processor memory =
        ((.ok ((Activity.onEach acts real).perform kept).1, processor),
          ((Activity.onEach acts real).perform kept).2) ∧
      processor.translation.SearchesAlike start ((Activity.onEach acts real).perform kept).2 := by
  intro kept
  obtain ⟨index, placed, -, finds⟩ := Access.place_of_ok succeeds
  have leaves (memory : μ) : (processor.access modes address).leave processor.translation start
      memory = processor.translation.marked memory index modes := by
    rw [Access.leave, placed]
    rfl
  have after : processor.translation.AfterAccess start index modes kept := by
    rw [show kept = _ from leaves memory]
    exact alike.afterAccess apart finds.inTable modes
  have mapped (distance : Nat) (inside : distance < acts.length) :=
    Access.outcome_onward succeeds aligned (Nat.lt_of_lt_of_le inside fits)
  rw [placed] at mapped
  obtain ⟨ends, last⟩ := eachByte_afterAccess fetching after mapped spares
  refine ⟨ends ▸ ?_, last.alike⟩
  -- To access the page again changes nothing.
  have still := (leaves kept).trans after.marked_eq
  match acts, some with
  | act :: rest, _ =>
    rw [ending_eachByte_cons fetching alike, ending_eachByte_cons fetching after.alike, succeeds,
      still]

theorem ending_piece (whole : Address → Activity γ) (combine : List β → γ)
    (once : ∀ (real : Address) (memory : μ), (whole real).perform memory =
      (combine ((Activity.onEach acts real).perform memory).1,
        ((Activity.onEach acts real).perform memory).2))
    (fetching : modes.execute = false) (apart : processor.translation.TablesApart start)
    (alike : processor.translation.SearchesAlike start memory)
    (aligned : (processor.access modes address).FrameAligned processor.translation start)
    (some : acts ≠ [])
    (fits : acts.length ≤ processor.translation.pageRemaining address.byteNumber)
    (spares : SparesTables processor start modes acts address)
    {continuation : γ → Execution α} {following : List β → Execution α}
    (rest : ∀ results (kept : μ), processor.translation.SearchesAlike start kept →
      (processor.access modes address).Reaches processor.translation start acts.length →
      (continuation (combine results)).ending processor kept =
        (following results).ending processor kept) :
    (translate address modes >>= fun real => liftM (whole real) >>= continuation).ending processor
        memory =
      (eachByte modes acts address >>= following).ending processor memory := by
  rw [ending_bind, ending_bind, ending_translate fetching alike]
  cases outcome : (processor.access modes address).outcome processor.translation start with
  | error fault =>
    match acts, some with
    | act :: rest, _ => rw [ending_eachByte_cons fetching alike, outcome]
  | ok real =>
    obtain ⟨ends, last⟩ := eachByte_page fetching apart alike outcome aligned some fits spares
    rw [ends]
    dsimp only
    rw [ending_bind, ending_liftM, once]
    exact rest _ _ last (Access.reaches_page outcome aligned fits)

/-! ## Pieces -/

theorem readPieces_singly {pieces : List Nat} (some : ∀ count ∈ pieces, count ≠ 0)
    (fit : processor.translation.FitPages address pieces)
    (apart : processor.translation.TablesApart start)
    (alike : processor.translation.SearchesAlike start memory)
    (aligned : (processor.access .forRead address).Along processor.translation start pieces.sum
      fun byte => byte.FrameAligned processor.translation start) :
    (readPieces pieces address).ending processor memory =
      (readSingly pieces.sum address).ending processor memory := by
  induction pieces generalizing address memory with
  | nil => rfl
  | cons count rest ih =>
    obtain ⟨here, others⟩ := List.forall_mem_cons.mp some
    obtain ⟨fits, fit⟩ := fit
    have length : (List.replicate count Activity.readByte).length = count := List.length_replicate
    rw [List.sum_cons] at aligned
    rw [readPieces, List.sum_cons, readSingly, List.replicate_add, eachByte_append, length]
    refine ending_piece (Activity.readBytes count) id ?_ rfl apart alike
      (aligned.first (by omega)) ?_ (by rwa [length]) (.reading Activity.readByte_reads count) ?_
    · exact fun real memory => Activity.perform_readBytes_eq memory count real
    · simpa using here
    · intro bytes kept alike reaches
      rw [length] at reaches
      rw [ending_bind, ih others fit alike (aligned.right reaches), ending_bind]
      rfl

theorem writePieces_singly {pieces : List Nat} {bytes : List Byte}
    (length : bytes.length = pieces.sum) (some : ∀ count ∈ pieces, count ≠ 0)
    (fit : processor.translation.FitPages address pieces)
    (apart : processor.translation.TablesApart start)
    (alike : processor.translation.SearchesAlike start memory)
    (storable : (processor.access .forWrite address).Along processor.translation start bytes.length
      fun byte => byte.FrameAligned processor.translation start ∧
        byte.OutsideTables processor.translation start) :
    (writePieces pieces bytes address).ending processor memory =
      (writeSingly bytes address).ending processor memory := by
  induction pieces generalizing address memory bytes with
  | nil =>
    obtain rfl := List.eq_nil_of_length_eq_zero length
    rfl
  | cons count rest ih =>
    obtain ⟨here, others⟩ := List.forall_mem_cons.mp some
    obtain ⟨fits, fit⟩ := fit
    rw [List.sum_cons] at length
    have first : (bytes.take count).length = count := List.length_take_of_le (by omega)
    have last : (bytes.drop count).length = rest.sum := by rw [List.length_drop]; omega
    rw [length, ← last] at storable
    have piece := storable.left
    rw [← first] at piece
    have spares := SparesTables.writing (piece.mono fun _ => And.right)
    -- The bytes of the first piece lie in one page. They are written one by one as by one access,
    -- and the rest follows by induction.
    have split : writeSingly bytes address =
        eachByte .forWrite ((bytes.take count).map fun byte real => Activity.writeByte real byte)
          address >>= fun _ => writeSingly (bytes.drop count) (address.offset count) := by
      rw [writeSingly, ← List.take_append_drop count bytes, List.map_append, eachByte_append]
      simp only [bind_assoc, pure_bind, List.length_map, first, writeSingly,
        List.take_append_drop]
    rw [writePieces, split]
    refine ending_piece (Activity.writeBytes (bytes.take count)) (fun _ => ()) ?_ rfl apart alike
      (storable.first (by omega)).1 ?_ ?_ spares ?_
    · intro real memory
      rw [Activity.perform_writeBytes_eq, Activity.writeEach_eq, Activity.perform_bind]
      rfl
    · intro none
      rw [List.map_eq_nil_iff] at none
      rw [none] at first
      exact here first.symm
    · rwa [List.length_map, first]
    · intro _ kept alike reaches
      rw [List.length_map, first] at reaches
      exact ih last others fit alike (storable.right reaches)

/-! ## Whole words -/

omit [SlottedBus μ] [ForgetfulBus μ] in
theorem ending_readVirtual (processor : Processor) (memory : μ) (address : VirtualAddress)
    (count : Nat) :
    (readVirtual address count).ending processor memory =
      (readPieces (processor.translation.pieces address.byteNumber count) address).ending processor
        memory := rfl

omit [SlottedBus μ] [ForgetfulBus μ] in
theorem ending_writeVirtual (processor : Processor) (memory : μ) (address : VirtualAddress)
    (bytes : List Byte) :
    (writeVirtual address bytes).ending processor memory =
      (writePieces (processor.translation.pieces address.byteNumber bytes.length) bytes
        address).ending processor memory := rfl

omit [ForgetfulBus μ] in
theorem loadWord_general (processor : Processor) (memory : μ) (address : VirtualAddress) :
    (loadWord address).ending processor memory =
      (readVirtual address 8 >>= fun bytes => pure (Word.ofBytes bytes)).ending processor
        memory := by
  rw [loadWord]
  split
  · next aligned =>
    rw [ending_bind, ending_bind, ending_readVirtual, processor.translation.pieces_aligned aligned,
      readPieces, ending_bind]
    rcases ending : (translate address .forRead).ending processor memory with
      ⟨⟨condition | real, left⟩, kept⟩
    · rfl
    · obtain ⟨mapped, -⟩ := translate_ok processor memory ending
      have start := processor.translation.byteIndex_realAt aligned mapped
      have reads := Activity.readBytes_reads 8 real
      dsimp only
      rw [ending_liftM, ending_bind, ending_liftM, reads.perform_memory,
        Activity.perform_readBytes, map_byteAt_run kept start]
      change _ = ((Except.ok (Word.ofBytes ((Bus.readWord kept real).toBytes ++ [])), left), kept)
      rw [List.append_nil, Word.ofBytes_toBytes]
      rfl
  · rfl

theorem storeWord_general (processor : Processor) (memory : μ) (address : VirtualAddress)
    (word : Word) :
    (storeWord address word).ending processor memory =
      (writeVirtual address word.toBytes).ending processor memory := by
  rw [storeWord]
  split
  · next aligned =>
    rw [ending_bind, ending_writeVirtual, word.length_toBytes,
      processor.translation.pieces_aligned aligned, writePieces, ending_bind]
    rcases ending : (translate address .forWrite).ending processor memory with
      ⟨⟨condition | real, left⟩, kept⟩
    · rfl
    · obtain ⟨mapped, -⟩ := translate_ok processor memory ending
      have start := processor.translation.byteIndex_realAt aligned mapped
      have all : word.toBytes.take 8 = word.toBytes := rfl
      dsimp only
      rw [ending_liftM, ending_bind, ending_liftM, all, Activity.perform_writeBytes_eq,
        Activity.perform_writeEach_word kept start word.length_toBytes, Word.ofBytes_toBytes]
      rfl
  · rfl

omit [ForgetfulBus μ] in
theorem loadBytes_general (processor : Processor) (memory : μ) (address : VirtualAddress)
    (length : Nat) :
    (loadBytes address length).ending processor memory =
      (readVirtual address length >>= fun bytes => pure (Word.ofBytes bytes)).ending processor
        memory := by
  rw [loadBytes]
  split
  · next whole => rw [whole, loadWord_general]
  · rfl

theorem storeBytes_general (processor : Processor) (memory : μ) (address : VirtualAddress)
    (length : Nat) (word : Word) :
    (storeBytes address length word).ending processor memory =
      (writeVirtual address (word.toBytes.drop (8 - length))).ending processor memory := by
  rw [storeBytes]
  split
  · next whole =>
    rw [whole, storeWord_general]
    rfl
  · rfl

/-! ## Bytes taken singly -/

/-- An execution that takes so many bytes from an address on ends as if it took them singly, one
after another. It completes if and only if each of them translates on its own. The first that does
not makes the fault, and the memory that is left is that of the bytes before it. -/
structure TakesSingly (execution : Execution α) (singly : Nat → Execution α) (count : Nat)
    (modes : AccessModes) (address : VirtualAddress) (processor : Processor) (memory : μ) :
    Prop where
  same : execution.ending processor memory = (singly count).ending processor memory
  completes :
    (∃ result left kept, execution.ending processor memory = ((.ok result, left), kept)) ↔
      (processor.access modes address).Reaches processor.translation memory count
  faults : ∀ index < count,
    (processor.access modes address).Reaches processor.translation memory index →
      ∀ fault, ((processor.access modes address).onward index).outcome processor.translation
          memory = .error fault →
        ∃ result kept, (singly index).ending processor memory = ((.ok result, processor), kept) ∧
          execution.ending processor memory = ((.error (.ofFault fault),
            processor.tracing (address.offset index) processor.translation.executePrivilege), kept)

theorem TakesSingly.of_eachByte {execution : Execution α} {singly : Nat → Execution α}
    {acts : List (Address → Activity β)} {count : Nat} (length : acts.length = count)
    (combine : List β → α) (fetching : modes.execute = false)
    (apart : processor.translation.TablesApart memory)
    (spares : SparesTables processor memory modes acts address)
    (each : ∀ index ≤ count, singly index =
      eachByte modes (acts.take index) address >>= fun results => pure (combine results))
    (same : execution.ending processor memory = (singly count).ending processor memory) :
    TakesSingly execution singly count modes address processor memory := by
  subst length
  have whole := same
  rw [each _ (Nat.le_refl _), List.take_length, ending_bind] at whole
  refine ⟨same, ⟨?_, fun reaches => ?_⟩, fun index inside reaches fault fails => ?_⟩
  · rintro ⟨result, left, kept, ends⟩
    refine (Access.reaches_or_fails acts.length).resolve_right ?_
    rintro ⟨index, inside, reaches, fault, fails⟩
    obtain ⟨_, _, -, stops⟩ := eachByte_stops fetching apart spares inside reaches fails
    rw [whole, stops] at ends
    cases ends
  · obtain ⟨results, kept, ends, -⟩ := eachByte_completes fetching apart .refl reaches spares
    rw [whole, ends]
    exact ⟨combine results, processor, kept, rfl⟩
  · obtain ⟨results, kept, ends, stops⟩ :=
      eachByte_stops fetching apart spares inside reaches fails
    refine ⟨combine results, kept, ?_, by rw [whole, stops]⟩
    rw [each index (Nat.le_of_lt inside), ending_bind, ends]
    rfl

theorem readVirtual_singly (apart : processor.translation.TablesApart memory) {count : Nat}
    (aligned : (processor.access .forRead address).Along processor.translation memory count
      fun byte => byte.FrameAligned processor.translation memory) :
    (readVirtual address count).ending processor memory =
      (readSingly count address).ending processor memory := by
  have pieces := readPieces_singly
    (processor.translation.pieces_ne_zero address.byteNumber count)
    (processor.translation.fitPages_pieces _ _) apart .refl
    (by rwa [processor.translation.sum_pieces])
  rwa [processor.translation.sum_pieces] at pieces

theorem writeVirtual_singly (apart : processor.translation.TablesApart memory) {bytes : List Byte}
    (storable : (processor.access .forWrite address).Along processor.translation memory bytes.length
      fun byte => byte.FrameAligned processor.translation memory ∧
        byte.OutsideTables processor.translation memory) :
    (writeVirtual address bytes).ending processor memory =
      (writeSingly bytes address).ending processor memory :=
  writePieces_singly (processor.translation.sum_pieces _ _).symm
    (processor.translation.pieces_ne_zero _ _) (processor.translation.fitPages_pieces _ _) apart
    .refl storable

theorem TakesSingly.of_readVirtual {execution : Execution α} (combine : List Byte → α) {count : Nat}
    (apart : processor.translation.TablesApart memory)
    (aligned : (processor.access .forRead address).Along processor.translation memory count
      fun byte => byte.FrameAligned processor.translation memory)
    (same : execution.ending processor memory =
      (readVirtual address count >>= fun bytes => pure (combine bytes)).ending processor memory) :
    TakesSingly execution
      (fun count => readSingly count address >>= fun bytes => pure (combine bytes)) count .forRead
      address processor memory := by
  refine .of_eachByte List.length_replicate combine rfl apart
    (.reading Activity.readByte_reads count) (fun index inside => ?_) ?_
  · rw [List.take_replicate, Nat.min_eq_left inside, readSingly]
  · rw [same, ending_bind, readVirtual_singly apart aligned, ending_bind]

theorem TakesSingly.of_writeVirtual {execution : Execution Unit} {bytes : List Byte} {count : Nat}
    (length : bytes.length = count) (apart : processor.translation.TablesApart memory)
    (storable : (processor.access .forWrite address).Along processor.translation memory count
      fun byte => byte.FrameAligned processor.translation memory ∧
        byte.OutsideTables processor.translation memory)
    (same : execution.ending processor memory =
      (writeVirtual address bytes).ending processor memory) :
    TakesSingly execution (fun count => writeSingly (bytes.take count) address) count .forWrite
      address processor memory := by
  subst length
  refine .of_eachByte (List.length_map _) (fun _ => ()) rfl apart
    (.writing (storable.mono fun _ => And.right)) (fun index _ => ?_) ?_
  · rw [← List.map_take]
    rfl
  · rw [same, writeVirtual_singly apart storable, List.take_length]

/-- Reads and loads, writes and stores take bytes singly, if the pages that are touched have aligned
frames and no byte that is stored is in a table. -/
structure AccessesSingly (processor : Processor) (memory : μ) (address : VirtualAddress) :
    Prop where
  reads : ∀ count, (processor.access .forRead address).Along processor.translation memory count
      (fun byte => byte.FrameAligned processor.translation memory) →
    TakesSingly (readVirtual address count) (fun count => readSingly count address) count .forRead
      address processor memory
  loads : ∀ length, 1 ≤ length → length ≤ 8 →
    (processor.access .forRead address).Along processor.translation memory length
      (fun byte => byte.FrameAligned processor.translation memory) →
    TakesSingly (loadBytes address length)
      (fun count => do return BitVec.ofNat 64 (bigEndian (← readSingly count address))) length
      .forRead address processor memory
  writes : ∀ bytes : List Byte,
    (processor.access .forWrite address).Along processor.translation memory bytes.length
      (fun byte => byte.FrameAligned processor.translation memory ∧
        byte.OutsideTables processor.translation memory) →
    TakesSingly (writeVirtual address bytes) (fun count => writeSingly (bytes.take count) address)
      bytes.length .forWrite address processor memory
  stores : ∀ length word, 1 ≤ length → length ≤ 8 →
    (processor.access .forWrite address).Along processor.translation memory length
      (fun byte => byte.FrameAligned processor.translation memory ∧
        byte.OutsideTables processor.translation memory) →
    TakesSingly (storeBytes address length word)
      (fun count => writeSingly ((word.toBytes.drop (8 - length)).take count) address) length
      .forWrite address processor memory

/-- Memory is accessed in pages and in words as it would be byte by byte, whatever words of the
tables the bytes that are read lie in. A whole word at an aligned address is no exception. -/
theorem memory_accessed_singly (processor : Processor) (memory : μ) (address : VirtualAddress) :
    (processor.translation.TablesApart memory → AccessesSingly processor memory address) ∧
      (loadWord address).ending processor memory =
        (do return Word.ofBytes (← readVirtual address 8) : Execution Word).ending processor
          memory ∧
      ∀ word, (storeWord address word).ending processor memory =
        (writeVirtual address word.toBytes).ending processor memory := by
  refine ⟨fun apart => ⟨fun count aligned => ?reads, fun length _ _ aligned => ?loads,
      fun bytes storable => ?writes, fun length word _ short storable => ?stores⟩,
    loadWord_general processor memory address, storeWord_general processor memory address⟩
  case reads =>
    have takes : TakesSingly (readVirtual address count) _ count _ address processor memory :=
      .of_readVirtual id apart aligned (by simp only [id_eq, bind_pure])
    simpa only [id_eq, bind_pure] using takes
  case loads =>
    refine .of_readVirtual (fun bytes => BitVec.ofNat 64 (bigEndian bytes)) apart aligned ?_
    simp only [loadBytes_general, Word.ofBytes_eq]
  case writes => exact .of_writeVirtual rfl apart storable rfl
  case stores =>
    have last : (word.toBytes.drop (8 - length)).length = length := by
      rw [List.length_drop, word.length_toBytes]
      omega
    exact .of_writeVirtual last apart storable (storeBytes_general processor memory address _ _)

end

end Execution

/-! ## Pages in distant frames -/

/-- Two pages of a segment have frames that do not follow one another. The third is missing. -/
def scatteredMemory : CyclicMemory :=
  ⟨4096, ((((WordStore.empty.set 0 0x6ABB000000000000).set 512 0x8000000000000010).set 513
    0x8000000000400020).set 1087 0x1122334455667788).set 2048 0x99AABBCCDDEEFF00⟩

def scatteredJob : Processor := { Processor.initial 0 .standard with translation := sharedUnit }

theorem scatteredJob_apart : scatteredJob.translation.TablesApart scatteredMemory := by
  intro segment reached index within _
  exact sharedUnit_blank.apart segment reached index within

theorem scatteredJob_outside {real : Address} (high : 1024 ≤ scatteredMemory.slot real) :
    ¬ sharedUnit.InTables scatteredMemory real := by
  rintro (⟨segment, reached, same⟩ | ⟨index, within, same⟩)
  · obtain rfl : segment = 0 := Nat.le_zero.mp reached
    have slot := Option.some.inj same
    have first : scatteredMemory.slot (sharedUnit.segmentEntryAddress 0) = 0 := by decide
    omega
  · have slot := Option.some.inj same
    have bounded : index.toNat < 512 := within
    rw [CyclicMemory.slot, TranslationUnit.wordIndex_pageEntryAddress] at slot
    change (512 + index.toNat) % 4096 = _ at slot
    omega

/-- A load takes bytes from both frames. A store ends where the third page begins. -/
theorem scatteredJob_accesses :
    scatteredJob.translation.TablesApart scatteredMemory ∧
      ((Execution.loadBytes ⟨11, 0, 0x1FC⟩ 8).ending scatteredJob scatteredMemory =
          (do return BitVec.ofNat 64 (bigEndian (← Execution.readSingly 8 ⟨11, 0, 0x1FC⟩)) :
            Execution Word).ending scatteredJob scatteredMemory ∧
        ((Execution.loadBytes ⟨11, 0, 0x1FC⟩ 8).ending scatteredJob scatteredMemory).1.1 =
          .ok 0x5566778899AABBCC) ∧
      ∃ kept,
        (Execution.writeSingly [0xA1, 0xB2] ⟨11, 0, 0x3FE⟩).ending scatteredJob scatteredMemory =
          ((.ok (), scatteredJob), kept) ∧
        (Execution.storeBytes ⟨11, 0, 0x3FE⟩ 4 0xA1B2C3D4).ending scatteredJob scatteredMemory =
          ((.error (.ofFault ⟨.pageFault, ⟨11, 0, 0x400⟩⟩),
            scatteredJob.tracing ⟨11, 0, 0x400⟩ .nonExecutable), kept) ∧
        Bus.readWord kept 0x41F8 = 0xA1B2 := by
  have aligned : (scatteredJob.access .forRead ⟨11, 0, 0x1FC⟩).Along sharedUnit scatteredMemory 8
      fun byte => byte.FrameAligned sharedUnit scatteredMemory := by
    have each : ∀ index < 8, ((scatteredJob.access .forRead ⟨11, 0, 0x1FC⟩).onward
        index).FrameAligned sharedUnit scatteredMemory := by decide +kernel
    exact fun index inside _ => each index inside
  have storable : (scatteredJob.access .forWrite ⟨11, 0, 0x3FE⟩).Along sharedUnit scatteredMemory 4
      fun byte => byte.FrameAligned sharedUnit scatteredMemory ∧
        byte.OutsideTables sharedUnit scatteredMemory := by
    have each : ∀ index < 4, ((scatteredJob.access .forWrite ⟨11, 0, 0x3FE⟩).onward
        index).FrameAligned sharedUnit scatteredMemory := by decide +kernel
    have high : ∀ index < 4, (((scatteredJob.access .forWrite ⟨11, 0, 0x3FE⟩).onward
        index).outcome sharedUnit scatteredMemory).toOption.all
          (fun real => 1024 ≤ scatteredMemory.slot real) = true := by decide +kernel
    refine fun index inside _ => ⟨each index inside, fun real translated _ => ?_⟩
    have above := high index inside
    rw [translated] at above
    exact scatteredJob_outside (of_decide_eq_true above)
  have loads := ((Execution.memory_accessed_singly scatteredJob scatteredMemory
    ⟨11, 0, 0x1FC⟩).1 scatteredJob_apart).loads 8 (by decide) (by decide) aligned
  have stores := ((Execution.memory_accessed_singly scatteredJob scatteredMemory
    ⟨11, 0, 0x3FE⟩).1 scatteredJob_apart).stores 4 0xA1B2C3D4 (by decide) (by decide) storable
  have reaches : (scatteredJob.access .forWrite ⟨11, 0, 0x3FE⟩).Reaches sharedUnit scatteredMemory
      2 := by
    intro earlier before
    match earlier, before with
    | 0, _ => exact ⟨0x41FE, by decide +kernel⟩
    | 1, _ => exact ⟨0x41FF, by decide +kernel⟩
  obtain ⟨_, kept, singly, fails⟩ := stores.faults 2 (by decide) reaches
    ⟨.pageFault, ⟨11, 0, 0x400⟩⟩ (by decide +kernel)
  have first : ((Word.toBytes 0xA1B2C3D4).drop 4).take 2 = [0xA1, 0xB2] := by decide
  rw [first] at singly
  refine ⟨scatteredJob_apart, ⟨loads.same, by decide +kernel⟩, kept, singly, fails, ?_⟩
  have word : Bus.readWord ((Execution.writeSingly [0xA1, 0xB2] ⟨11, 0, 0x3FE⟩).ending scatteredJob
    scatteredMemory).2 0x41F8 = 0xA1B2 := by decide +kernel
  rwa [singly] at word

end Mainframe
