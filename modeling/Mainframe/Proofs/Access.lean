import Mainframe.Proofs.Conduct
import Mainframe.Proofs.LawfulBus

/-! The conduct of accesses by virtual address. Reading marks page table entries and changes
nothing else. Storing writes only in pages that were translated for it, one piece after another. -/

set_option autoImplicit false

namespace Mainframe

variable {α β μ : Type}

/-! ## Pieces of pages -/

namespace TranslationUnit

variable (unit : TranslationUnit)

/-- Every piece ends in the page in which it starts. -/
def FitPages : VirtualAddress → List Nat → Prop
  | _, [] => True
  | address, count :: rest =>
    count ≤ unit.pageRemaining address.byteNumber ∧ FitPages (address.offset count) rest

theorem offset_mod_pageSize (address : VirtualAddress) (count : Nat) :
    (address.offset count).byteNumber.toNat % unit.pageSize =
      (address.byteNumber.toNat + count) % unit.pageSize := by
  have whole : unit.pageSize ∣ 2 ^ 32 := Nat.dvd_trans unit.pageSize_dvd (by decide)
  simp only [VirtualAddress.offset, BitVec.ofInt_natCast, BitVec.toNat_add, BitVec.toNat_ofNat,
    Nat.add_mod_mod]
  exact Nat.mod_mod_of_dvd _ whole

theorem pageRemaining_of_start {byteNumber : HalfWord}
    (start : byteNumber.toNat % unit.pageSize = 0) :
    unit.pageRemaining byteNumber = unit.pageSize := by
  rw [pageRemaining, start, Nat.sub_zero]

theorem fitPages_replicate {last : Nat} (short : last ≤ unit.pageSize) (pages : Nat)
    (address : VirtualAddress) (start : address.byteNumber.toNat % unit.pageSize = 0) :
    unit.FitPages address (List.replicate pages unit.pageSize ++ [last]) := by
  -- Every whole page ends where the next one starts, and so does the address after it.
  induction pages generalizing address with
  | zero =>
    rw [List.replicate_zero, List.nil_append]
    refine ⟨?_, trivial⟩
    rwa [unit.pageRemaining_of_start start]
  | succ pages ih =>
    rw [List.replicate_succ, List.cons_append]
    refine ⟨Nat.le_of_eq (unit.pageRemaining_of_start start).symm, ih _ ?_⟩
    rw [offset_mod_pageSize, Nat.add_mod_right, start]

theorem FitPages.filter {unit : TranslationUnit} {lengths : List Nat} {address : VirtualAddress}
    (fit : unit.FitPages address lengths) : unit.FitPages address (lengths.filter (· != 0)) := by
  induction lengths generalizing address with
  | nil => trivial
  | cons length rest ih =>
    obtain ⟨here, after⟩ := fit
    by_cases isZero : length = 0
    · subst isZero
      simpa using ih after
    · simpa [isZero] using ⟨here, ih after⟩

theorem fitPages_pieces (address : VirtualAddress) (count : Nat) :
    unit.FitPages address (unit.pieces address.byteNumber count) := by
  unfold pieces
  refine FitPages.filter ⟨Nat.min_le_right _ _, ?_⟩
  by_cases short : count ≤ unit.pageRemaining address.byteNumber
  · rw [Nat.min_eq_left short, Nat.sub_self, Nat.zero_div, Nat.zero_mod]
    exact ⟨Nat.zero_le _, trivial⟩
  · have last := Nat.mod_lt (count - unit.pageRemaining address.byteNumber) unit.pageSize_pos
    rw [Nat.min_eq_right (Nat.le_of_not_le short)]
    refine unit.fitPages_replicate (Nat.le_of_lt last) _ _ ?_
    -- The first piece ends where the page ends.
    have inside := Nat.mod_lt address.byteNumber.toNat unit.pageSize_pos
    rw [offset_mod_pageSize, pageRemaining, ← Nat.mod_add_mod,
      Nat.add_sub_of_le (Nat.le_of_lt inside), Nat.mod_self]

theorem sum_filter_ne_zero (lengths : List Nat) : (lengths.filter (· != 0)).sum = lengths.sum := by
  induction lengths with
  | nil => rfl
  | cons length rest ih =>
    by_cases isZero : length = 0
    · simp [isZero, ih]
    · simp [isZero, ih]

theorem sum_pieces (byteNumber : HalfWord) (count : Nat) :
    (unit.pieces byteNumber count).sum = count := by
  have whole := Nat.div_add_mod (count - min count (unit.pageRemaining byteNumber)) unit.pageSize
  rw [Nat.mul_comm] at whole
  simp only [pieces, sum_filter_ne_zero, List.sum_cons, List.sum_append_nat,
    List.sum_replicate_nat, List.sum_nil]
  omega

end TranslationUnit

/-! ## Translations -/

theorem Condition.isError_ofFault (fault : TranslationFault) : (ofFault fault).IsError := by
  obtain ⟨kind, address⟩ := fault
  cases kind <;> exact .inl rfl

def Processor.afterTranslation (processor : Processor) (modes : AccessModes)
    (privilege : ExecutePrivilege) : Processor :=
  if modes.execute then processor.tracing processor.translation.untranslatable privilege
  else processor

theorem Processor.resembles_afterTranslation (processor : Processor) (modes : AccessModes)
    (privilege : ExecutePrivilege) :
    processor.Resembles (processor.afterTranslation modes privilege) := by
  unfold afterTranslation
  split
  · exact ⟨_, _, rfl⟩
  · exact .refl _

theorem Processor.Confines.mark [Bus μ] {processor : Processor} {memory : μ}
    {place : VirtualAddress} {modes : AccessModes} {descriptor : SegmentDescriptor}
    {lookup : PageLookup}
    (translates : processor.translation.Translates processor.key memory place modes descriptor
      lookup) (kept : μ) :
    processor.Confines ((lookup.mark modes).history memory ++
      [⟨kept, .notify ⟨processor.number, .translated place modes (.ok lookup.address)⟩⟩]) := by
  obtain ⟨-, entry, -, -⟩ := processor.translation.pageAt_some translates.page
  unfold PageLookup.mark
  split
  · intro earlier moment later split address word writes
    rcases earlier with _ | ⟨first, earlier⟩
    · obtain ⟨rfl, rfl⟩ := List.cons.inj split
      rcases writes with written | ⟨_, modified, _⟩
      · obtain ⟨rfl, rfl⟩ := Request.write.inj written
        refine .inl ⟨place, modes, descriptor, lookup, translates, rfl, ?_, _, [], rfl, rfl⟩
        rw [entry, PageEntry.toWord_touched]
      · cases modified
    · -- After the write there is only the report.
      have last : moment ∈ earlier ++ moment :: later := by simp
      obtain ⟨-, tail⟩ := List.cons.inj split
      change _ = earlier ++ moment :: later at tail
      rw [← tail] at last
      cases List.mem_singleton.mp last
      exact absurd writes (Moment.not_writes_notify _ _)
  · exact .notify _ _

namespace Execution

variable (processor : Processor) (address : VirtualAddress) (modes : AccessModes)

theorem course_translate :
    (translate address modes).course processor =
      processor.translation.locate address modes processor.key >>= fun found =>
        match found with
        | .error fault => .notify ⟨processor.number, .translated address modes (.error fault)⟩
            (pure (.error (.ofFault fault),
              processor.tracing address processor.translation.executePrivilege))
        | .ok (real, privilege) =>
          .notify ⟨processor.number, .translated address modes (.ok real)⟩
            (pure (.ok real, processor.afterTranslation modes privilege)) := by
  unfold translate
  rw [course_get, course_bind, course_liftM, bind_assoc]
  unfold TranslationUnit.translate
  rw [bind_assoc]
  congr
  funext found
  rcases found with fault | ⟨real, privilege⟩
  · rfl
  · unfold Processor.afterTranslation
    cases modes.execute <;> rfl

theorem ending_translate_eq [Bus μ] {memory kept : μ} {unit : TranslationUnit}
    {outcome : Except TranslationFault Address}
    (goes : (processor.translation.translate address modes processor.key).perform memory =
      ((outcome, unit), kept)) :
    ∃ privilege, (translate address modes).ending processor memory =
      (match outcome with
        | .ok real => (.ok real, processor.afterTranslation modes privilege)
        | .error fault => (.error (.ofFault fault),
            processor.tracing address processor.translation.executePrivilege), kept) := by
  rw [TranslationUnit.translate, Activity.perform_bind] at goes
  rw [ending, course_translate, Activity.perform_bind]
  generalize (processor.translation.locate address modes processor.key).perform memory = located
    at goes ⊢
  obtain ⟨fault | ⟨real, privilege⟩, left⟩ := located
  · cases goes
    exact ⟨processor.translation.executePrivilege, rfl⟩
  · cases goes
    exact ⟨privilege, rfl⟩

/-- A translation fails, with nothing written, or reports the page that it has found. -/
theorem translate_cases [Bus μ] (memory : μ) :
    (∃ fault, (translate address modes).ending processor memory =
        ((.error (.ofFault fault),
          processor.tracing address processor.translation.executePrivilege), memory) ∧
      processor.Confines ((translate address modes).history processor memory)) ∨
    ∃ descriptor lookup,
      processor.translation.Translates processor.key memory address modes descriptor lookup ∧
      (translate address modes).ending processor memory =
        ((.ok lookup.address, processor.afterTranslation modes descriptor.execute),
          ((lookup.mark modes).perform memory).2) ∧
      processor.Confines ((translate address modes).history processor memory) ∧
      processor.Translated ((translate address modes).history processor memory) address modes
        descriptor lookup := by
  unfold ending history
  rw [course_translate, Activity.perform_bind, Activity.history_bind]
  rcases processor.translation.locate_cases memory address modes processor.key with
    ⟨fault, located, reads⟩ | ⟨descriptor, lookup, translates, located, reads, steps, reading, read⟩
  · rw [located]
    exact .inl ⟨fault, rfl, .append (.of_reads reads) (.notify _ _)⟩
  · rw [located, steps, List.append_assoc]
    refine .inr ⟨descriptor, lookup, translates, rfl, ?_, ?_⟩
    · exact .append (.of_reads reading) (.mark translates _)
    · exact ⟨⟨_, List.mem_append_left _ read, rfl, translates⟩,
        ⟨_, List.mem_append_right _ (List.mem_append_right _ List.mem_cons_self), rfl⟩⟩

variable {processor address modes} [Bus μ] {memory : μ}

namespace Orderly

theorem translate : (Execution.translate address modes).Orderly processor memory
    fun real left kept => ∃ descriptor lookup,
      processor.translation.Translates processor.key memory address modes descriptor lookup ∧
        real = lookup.address ∧ left = processor.afterTranslation modes descriptor.execute ∧
        kept = ((lookup.mark modes).perform memory).2 := by
  rcases translate_cases processor address modes memory with
    ⟨fault, failed, confined⟩ | ⟨descriptor, lookup, translates, found, confined, -⟩
  · refine ⟨confined, ?_⟩
    rw [failed]
    exact ⟨Condition.isError_ofFault fault, _, _, rfl⟩
  · refine ⟨confined, ?_⟩
    rw [found]
    exact ⟨descriptor, lookup, translates, rfl, rfl, rfl⟩

/-- In a page that is translated for writing, words that hold bytes from the address on may be
written, up to the end of the page. -/
theorem store {act : Address → Activity α} {continuation : Address → α → Execution β}
    {final : β → Processor → μ → Prop} {count : Nat} (writing : modes.write = true)
    (fetching : modes.execute = false)
    (fits : count ≤ processor.translation.pageRemaining address.byteNumber)
    (covers : ∀ real, real.toNat < 2 ^ 31 → (act real).WritesOnly (Covers real count))
    (rest : ∀ real result kept, (continuation real result).Orderly processor kept final) :
    (Execution.translate address modes >>= fun real =>
      liftM (act real) >>= continuation real).Orderly processor memory final := by
  rcases translate_cases processor address modes memory with
    ⟨fault, failed, confined⟩ | ⟨descriptor, lookup, translates, found, confined, translated⟩
  · constructor
    · rw [history_bind, failed, List.append_nil]
      exact confined
    · rw [ending_bind, failed]
      exact ⟨Condition.isError_ofFault fault, _, _, rfl⟩
  · have same : processor.afterTranslation modes descriptor.execute = processor := by
      rw [Processor.afterTranslation, fetching]
      rfl
    rw [same] at found
    -- The page has been translated for writing, and what is written lies in it.
    have inside := covers lookup.address (processor.translation.pageAddress_lt translates.page)
    constructor
    · rw [history_bind, found]
      dsimp only
      rw [history_bind, ending_liftM, history_liftM, ← List.append_assoc]
      refine (confined.stores translated writing ?_).append (rest _ _ _).confined
      intro aligned moment member word content writes
      exact processor.translation.inFrame_of_covers translates.page aligned fits
        (inside.allowed_of_writes member writes)
    · rw [ending_bind, found]
      dsimp only
      rw [ending_bind, ending_liftM]
      exact (rest _ _ _).ended

end Orderly

/-! ## Loads -/

/-- The execution changes no register. -/
def Stores (execution : Execution α) (processor : Processor) (memory : μ) : Prop :=
  execution.Orderly processor memory fun _ left _ => left = processor

theorem Stores.of_bind_ok {execution : Execution α} {continuation : α → Execution β}
    (stores : execution.Stores processor memory) {final : β} {left : Processor} {last : μ}
    (ended : (execution >>= continuation).ending processor memory = ((.ok final, left), last)) :
    ∃ result kept, execution.ending processor memory = ((.ok result, processor), kept) ∧
      (continuation result).ending processor kept = ((.ok final, left), last) := by
  have stored := stores.ended
  rw [ending_bind] at ended
  rcases ending : execution.ending processor memory with ⟨⟨condition | result, between⟩, kept⟩
  · rw [ending] at ended
    cases ended
  · rw [ending] at ended stored
    cases stored
    exact ⟨result, kept, rfl, ended⟩

/-- The execution changes no register, and nothing in memory but marks of use. -/
def Inspects (execution : Execution α) (processor : Processor) (memory : μ) : Prop :=
  execution.Orderly processor memory fun _ left kept => left = processor ∧ OnlyMarks memory kept

namespace Inspects

variable {execution : Execution α} {continuation : α → Execution β}

theorem done (result : α) : (pure result : Execution α).Inspects processor memory :=
  Orderly.done ⟨rfl, .refl⟩

theorem reading {activity : Activity α} (reads : activity.OnlyReads) :
    (liftM activity : Execution α).Inspects processor memory :=
  Orderly.mono (Checks.reading reads) fun _ _ _ ⟨same, unchanged, _⟩ => ⟨same, unchanged ▸ .refl⟩

theorem andThen {final : β → Processor → μ → Prop} (inspects : execution.Inspects processor memory)
    (rest : ∀ result kept, OnlyMarks memory kept →
      execution.ending processor memory = ((.ok result, processor), kept) →
      (continuation result).Orderly processor kept final) :
    (execution >>= continuation).Orderly processor memory final := by
  refine .bind (inspects.with_ending.mono fun result left kept ended => ?_)
  obtain ⟨⟨rfl, marks⟩, ending⟩ := ended
  exact ⟨.refl _, rest result kept marks ending⟩

theorem bind (inspects : execution.Inspects processor memory)
    (rest : ∀ result (kept : μ), (continuation result).Inspects processor kept) :
    (execution >>= continuation).Inspects processor memory := by
  apply inspects.andThen
  intro result kept marks _
  have after := rest result kept
  exact Orderly.mono after fun _ _ _ ⟨same, more⟩ => ⟨same, marks.trans more⟩

theorem of_bind_ok (inspects : execution.Inspects processor memory) {final : β} {left : Processor}
    {last : μ} (ended : (execution >>= continuation).ending processor memory =
      ((.ok final, left), last)) :
    ∃ result kept, execution.ending processor memory = ((.ok result, processor), kept) ∧
      (continuation result).ending processor kept = ((.ok final, left), last) :=
  Stores.of_bind_ok (Orderly.mono inspects fun _ _ _ inspected => inspected.1) ended

theorem get {continuation : Processor → Execution β}
    (rest : (continuation processor).Inspects processor memory) :
    (MonadState.get >>= continuation : Execution β).Inspects processor memory := Orderly.get rest

end Inspects

variable (processor) (memory)

theorem translate_inspects (address : VirtualAddress) {modes : AccessModes}
    (fetching : modes.execute = false) :
    (translate address modes).Inspects processor memory := by
  apply Orderly.translate.mono
  intro real left kept found
  obtain ⟨descriptor, lookup, translates, -, rfl, rfl⟩ := found
  refine ⟨?_, .mark_page translates modes⟩
  rw [Processor.afterTranslation, fetching]
  rfl

theorem readPieces_inspects (pieces : List Nat) (address : VirtualAddress) :
    (readPieces pieces address).Inspects processor memory := by
  induction pieces generalizing address memory with
  | nil => exact .done _
  | cons count rest ih =>
    refine .bind (translate_inspects processor memory address rfl) fun real kept => ?_
    refine .bind (.reading (Activity.readBytes_reads count real)) fun bytes kept => ?_
    exact .bind (ih kept _) fun more kept => .done _

theorem readVirtual_inspects (address : VirtualAddress) (count : Nat) :
    (readVirtual address count).Inspects processor memory :=
  .get (readPieces_inspects processor memory _ address)

theorem loadWord_inspects (address : VirtualAddress) :
    (loadWord address).Inspects processor memory := by
  unfold loadWord
  split
  · refine .bind (translate_inspects processor memory address rfl) fun real kept => ?_
    exact .reading (.readWord real)
  · exact .bind (readVirtual_inspects processor memory address 8) fun bytes kept => .done _

theorem loadBytes_inspects (address : VirtualAddress) (length : Nat) :
    (loadBytes address length).Inspects processor memory := by
  unfold loadBytes
  split
  · exact loadWord_inspects processor memory address
  · exact .bind (readVirtual_inspects processor memory address length) fun bytes kept => .done _

theorem loadWords_inspects (count : Nat) (address : VirtualAddress) :
    (loadWords count address).Inspects processor memory := by
  induction count generalizing address memory with
  | zero => exact .done _
  | succ count ih =>
    refine .bind (loadWord_inspects processor memory address) fun word kept => ?_
    exact .bind (ih kept _) fun rest kept => .done _

/-! ## Stores -/

variable {processor memory}

theorem Stores.done (result : α) : (pure result : Execution α).Stores processor memory :=
  Orderly.done rfl

theorem Stores.andThen {execution : Execution α} {continuation : α → Execution β}
    {final : β → Processor → μ → Prop} (stores : execution.Stores processor memory)
    (rest : ∀ result kept, execution.ending processor memory = ((.ok result, processor), kept) →
      (continuation result).Orderly processor kept final) :
    (execution >>= continuation).Orderly processor memory final := by
  refine .bind (stores.with_ending.mono fun result left kept ended => ?_)
  obtain ⟨rfl, ending⟩ := ended
  exact ⟨.refl _, rest result kept ending⟩

theorem Stores.bind {execution : Execution α} {continuation : α → Execution β}
    (stores : execution.Stores processor memory)
    (rest : ∀ result (kept : μ), (continuation result).Stores processor kept) :
    (execution >>= continuation).Stores processor memory :=
  Orderly.andThen (stores.mono fun _ _ _ same => ⟨same, trivial⟩) fun result kept _ =>
    rest result kept

variable (processor memory)

theorem writePieces_stores (pieces : List Nat) (bytes : List Byte) (address : VirtualAddress)
    (fit : processor.translation.FitPages address pieces) :
    (writePieces pieces bytes address).Stores processor memory := by
  -- The pieces that were stored before do not matter to the rest, only where it starts.
  induction pieces generalizing bytes address memory with
  | nil => exact .done _
  | cons count rest ih =>
    obtain ⟨here, after⟩ := fit
    refine Orderly.store rfl rfl here ?_ fun real _ kept => ih kept _ _ after
    intro real low
    have small : count ≤ 2 ^ 16 :=
      Nat.le_trans here (Nat.le_trans (Nat.sub_le _ _) processor.translation.pageSize_le)
    have taken : (bytes.take count).length ≤ count := List.length_take_le _ _
    apply (Activity.writeBytes_covers _ real (by omega)).mono
    intro _ covers
    exact covers.widen (Nat.le_refl _) (by omega)

theorem writeVirtual_stores (address : VirtualAddress) (bytes : List Byte) :
    (writeVirtual address bytes).Stores processor memory :=
  Orderly.get (writePieces_stores processor memory _ bytes address
    (processor.translation.fitPages_pieces address bytes.length))

theorem toNat_mod_eight {address : VirtualAddress} (aligned : isAligned address = true) :
    address.byteNumber.toNat % 8 = 0 := by
  have low : (address.byteNumber.extractLsb' 0 3).toNat = 0 := by
    rw [isAligned, beq_iff_eq] at aligned
    rw [aligned]
    rfl
  simpa [BitVec.extractLsb'_toNat] using low

theorem storeWord_stores (address : VirtualAddress) (word : Word) :
    (storeWord address word).Stores processor memory := by
  unfold storeWord
  split
  · next aligned =>
    have fits := processor.translation.eight_le_pageRemaining (toNat_mod_eight aligned)
    -- Nothing follows the write.
    have last : (fun real => (liftM (Activity.writeWord real word) : Execution Unit)) =
        fun real => liftM (Activity.writeWord real word) >>= pure := by
      funext real
      rw [bind_pure]
    change (translate address .forWrite >>= fun real =>
      (liftM (Activity.writeWord real word) : Execution Unit)).Stores processor memory
    rw [last]
    refine Orderly.store rfl rfl fits (fun real _ => .writeWord ?_ word) fun _ _ _ => .done rfl
    exact (Covers.self real).widen (Nat.le_refl _) (by omega)
  · exact writeVirtual_stores processor memory address _

theorem storeBytes_stores (address : VirtualAddress) (length : Nat) (word : Word) :
    (storeBytes address length word).Stores processor memory := by
  unfold storeBytes
  split
  · exact storeWord_stores processor memory address word
  · exact writeVirtual_stores processor memory address _

theorem storeWords_stores (words : List Word) (address : VirtualAddress) :
    (storeWords words address).Stores processor memory := by
  induction words generalizing address memory with
  | nil => exact .done _
  | cons word rest ih =>
    exact .bind (storeWord_stores processor memory address word) fun _ kept => ih kept _

end Execution

end Mainframe
