import Mainframe.Proofs.VirtualWords

/-! Access to areas of virtual memory that lie outside the tables. Executions that only look leave
such an area alone, a load finds the words that are in it, and words that are stored in it are
there. -/

set_option autoImplicit false

namespace Mainframe

variable {μ : Type}

/-! ## Executions that look and leave marks -/

namespace Execution

variable {α β : Type} [Bus μ] [SlottedBus μ] {processor : Processor} {memory : μ}

/-- If the execution completes, nothing in memory has changed but for marks in the tables. -/
def Peeks (execution : Execution α) (processor : Processor) (memory : μ) : Prop :=
  ∀ result left kept, execution.ending processor memory = ((.ok result, left), kept) →
    processor.Resembles left ∧ Keeps (processor.translation.tableSlots memory) memory kept

namespace Peeks

variable {execution : Execution α} {continuation : α → Execution β}

theorem done (result : α) : (pure result : Execution α).Peeks processor memory := by
  rintro _ _ _ ⟨⟩
  exact ⟨.refl _, .refl⟩

theorem faultAt (address : VirtualAddress) (condition : MonitorCondition) :
    (Execution.faultAt address condition : Execution α).Peeks processor memory := by
  rintro _ _ _ ⟨⟩

theorem reading {activity : Activity α} (reads : activity.OnlyReads) :
    (liftM activity : Execution α).Peeks processor memory := by
  intro result left kept ending
  rw [ending_liftM, reads.perform_memory] at ending
  cases ending
  exact ⟨.refl _, .refl⟩

theorem bind (first : execution.Peeks processor memory)
    (rest : ∀ result left (kept : μ), processor.Resembles left →
      (continuation result).Peeks left kept) :
    (execution >>= continuation).Peeks processor memory := by
  intro final last later ended
  rw [ending_bind] at ended
  rcases ending : execution.ending processor memory with ⟨⟨condition | result, left⟩, kept⟩
  · rw [ending] at ended
    cases ended
  · rw [ending] at ended
    obtain ⟨alike, keeps⟩ := first _ _ _ ending
    obtain ⟨more, after⟩ := rest result left kept alike _ _ _ ended
    refine ⟨alike.trans more, keeps.trans ?_⟩
    obtain ⟨_, _, rfl⟩ := alike
    rwa [← TranslationUnit.tableSlots_congr _ keeps.slots]

theorem get {continuation : Processor → Execution β}
    (rest : (continuation processor).Peeks processor memory) :
    (MonadState.get >>= continuation : Execution β).Peeks processor memory := by
  intro result left kept ended
  rw [ending, course_get] at ended
  exact rest _ _ _ ended

end Peeks

variable (processor memory)

theorem translate_keeps {address : VirtualAddress} {modes : AccessModes} {real : Address}
    {left : Processor} {kept : μ}
    (ending : (translate address modes).ending processor memory = ((.ok real, left), kept)) :
    Keeps (processor.translation.entrySlots memory) memory kept := by
  rcases translate_cases processor address modes memory with
    ⟨fault, failed, -⟩ | ⟨descriptor, lookup, translates, found, -, -⟩
  · rw [failed] at ending
    cases ending
  · rw [found] at ending
    cases ending
    obtain ⟨-, entry, -, -⟩ := processor.translation.pageAt_some translates.page
    unfold PageLookup.mark
    split
    · rw [entry, PageEntry.toWord_touched]
      exact .mark (processor.translation.entrySlots_entry translates.page) modes
    · exact .refl

theorem translate_ok {address : VirtualAddress} {modes : AccessModes} {real : Address}
    {left : Processor} {kept : μ}
    (ending : (translate address modes).ending processor memory = ((.ok real, left), kept)) :
    processor.translation.realAt memory address = some real ∧ processor.Resembles left ∧
      Keeps (processor.translation.tableSlots memory) memory kept := by
  have keeps := (translate_keeps processor memory ending).widen fun _ =>
    processor.translation.tableSlots_of_entrySlots
  rcases translate_cases processor address modes memory with
    ⟨fault, failed, -⟩ | ⟨descriptor, lookup, translates, found, -, -⟩
  · rw [failed] at ending
    cases ending
  · rw [found] at ending
    cases ending
    refine ⟨?_, processor.resembles_afterTranslation _ _, keeps⟩
    rw [TranslationUnit.realAt, translates.segment, Option.bind_some, translates.page]
    rfl

theorem translate_peeks (address : VirtualAddress) (modes : AccessModes) :
    (translate address modes).Peeks processor memory :=
  fun _ _ _ ending => (translate_ok processor memory ending).2

theorem readPieces_peeks (pieces : List Nat) (address : VirtualAddress) :
    (readPieces pieces address).Peeks processor memory := by
  induction pieces generalizing address processor memory with
  | nil => exact .done _
  | cons count rest ih =>
    refine .bind (translate_peeks processor memory address _) fun real left kept _ => ?_
    refine .bind (.reading (Activity.readBytes_reads count real)) fun bytes left kept _ => ?_
    exact .bind (ih left kept _) fun more left kept _ => .done _

theorem loadWord_peeks (address : VirtualAddress) : (loadWord address).Peeks processor memory := by
  unfold loadWord
  split
  · refine .bind (translate_peeks processor memory address _) fun real left kept _ => ?_
    exact .reading (.readWord real)
  · exact .bind (.get (readPieces_peeks processor memory _ address)) fun bytes left kept _ => .done _

/-! ## What loads find -/

variable {processor memory}

theorem bind_ok {execution : Execution α} {continuation : α → Execution β} {final : β}
    {left : Processor} {last : μ}
    (inspects : execution.Inspects processor memory) (peeks : execution.Peeks processor memory)
    (ended : (execution >>= continuation).ending processor memory = ((.ok final, left), last)) :
    ∃ result kept, execution.ending processor memory = ((.ok result, processor), kept) ∧
      Keeps (processor.translation.tableSlots memory) memory kept ∧
      (continuation result).ending processor kept = ((.ok final, left), last) := by
  obtain ⟨result, kept, first, rest⟩ := inspects.of_bind_ok ended
  exact ⟨result, kept, first, (peeks _ _ _ first).2, rest⟩

theorem readPieces_bytes {pieces : List Nat} {address : VirtualAddress} {places : List Address}
    {bytes : List Byte} {left : Processor} {last : μ}
    (mapped : processor.translation.placesIn memory pieces address = some places)
    (outside : ∀ place ∈ places,
      ¬ processor.translation.tableSlots memory (SlottedBus.slot memory place))
    (ended : (readPieces pieces address).ending processor memory = ((.ok bytes, left), last)) :
    bytes = places.map (byteAt memory) := by
  induction pieces generalizing address places bytes memory with
  | nil =>
    cases mapped
    cases ended
    rfl
  | cons count rest ih =>
    obtain ⟨real, between, translated, marks, reading⟩ :=
      bind_ok (translate_inspects processor memory address rfl) (translate_peeks _ _ _ _) ended
    obtain ⟨others, onward, rfl⟩ :=
      processor.translation.placesIn_cons (translate_ok _ _ translated).1 mapped
    have reads := Activity.readBytes_reads count real
    rw [ending_bind, ending_liftM, reads.perform_memory, Activity.perform_readBytes] at reading
    obtain ⟨more, later, found, -, joined⟩ :=
      bind_ok (readPieces_inspects _ _ _ _) (readPieces_peeks _ _ _ _) reading
    cases joined
    -- Outside the tables nothing has changed since.
    have kept : ∀ place ∈ run count real ++ others, byteAt between place = byteAt memory place :=
      fun place member => marks.byteAt_eq (outside place member)
    rw [← processor.translation.placesIn_stored marks] at onward
    rw [ih onward (marks.outside outside fun place => List.mem_append_right _) found,
      ← List.map_append]
    exact List.map_congr_left kept

theorem loadWord_bytes {address : VirtualAddress} {places : List Address} {word : Word}
    {left : Processor} {last : μ}
    (mapped : processor.translation.placesIn memory
      (processor.translation.pieces address.byteNumber 8) address = some places)
    (outside : ∀ place ∈ places,
      ¬ processor.translation.tableSlots memory (SlottedBus.slot memory place))
    (ended : (loadWord address).ending processor memory = ((.ok word, left), last)) :
    word = Word.ofBytes (places.map (byteAt memory)) := by
  unfold loadWord at ended
  split at ended
  -- An aligned word is read at once, and lies in one page; others are put together from bytes.
  · next aligned =>
    obtain ⟨real, between, translated, marks, reading⟩ :=
      bind_ok (translate_inspects processor memory address rfl) (translate_peeks _ _ _ _) ended
    have place := (translate_ok _ _ translated).1
    rw [processor.translation.placesIn_aligned aligned place] at mapped
    cases mapped
    rw [ending_liftM] at reading
    cases reading
    have start := processor.translation.byteIndex_realAt aligned place
    rw [← List.map_congr_left fun place member => marks.byteAt_eq (outside place member),
      map_byteAt_run between start, Word.ofBytes_toBytes]
    rfl
  · obtain ⟨bytes, between, found, -, rest⟩ :=
      bind_ok (readVirtual_inspects processor memory address 8)
        (.get (readPieces_peeks processor memory _ address)) ended
    cases rest
    rw [readVirtual, ending, course_get] at found
    rw [readPieces_bytes mapped outside found]

/-- Wherever loaded words and the words of an area overlap, they are the same. -/
theorem loadWords_known {count more : Nat} {address : VirtualAddress} {known words : List Word}
    {left : Processor} {last : μ}
    (stored : processor.translation.wordsAt memory count address = some known)
    (secluded : processor.translation.Secludes memory count address)
    (ended : (loadWords more address).ending processor memory = ((.ok words, left), last))
    {index : Nat} {found expected : Word} (loaded : words[index]? = some found)
    (there : known[index]? = some expected) : found = expected := by
  -- The induction is on the words that are loaded; both areas lose their first word at once.
  induction more generalizing count address known words memory index with
  | zero =>
    cases ended
    cases loaded
  | succ more ih =>
    obtain ⟨word, between, head, marks, rest⟩ :=
      bind_ok (loadWord_inspects _ _ _) (loadWord_peeks _ _ _) ended
    obtain ⟨fewer, later, tail, joined⟩ := (loadWords_inspects _ _ _ _).of_bind_ok rest
    cases joined
    rcases count with _ | count
    · cases stored
      cases there
    obtain ⟨first, others, rfl, here, outside, stored, secluded⟩ :=
      TranslationUnit.wordsAt_succ stored secluded
    cases index with
    | zero =>
      cases loaded
      cases there
      exact loadWord_bytes here outside head
    | succ index =>
      refine ih ?_ (marks.secludes secluded) tail loaded there
      rw [marks.wordsAt_eq secluded, stored]

theorem loadWord_known (index : Nat) {count : Nat} {address : VirtualAddress} {known : List Word}
    {found expected : Word} {left : Processor} {last : μ}
    (stored : processor.translation.wordsAt memory count address = some known)
    (secluded : processor.translation.Secludes memory count address)
    (ended : (loadWord (address.offset (8 * index))).ending processor memory =
      ((.ok found, left), last))
    (there : known[index]? = some expected) : found = expected := by
  induction index generalizing count address known with
  | zero =>
    rcases count with _ | count
    · cases stored
      cases there
    obtain ⟨first, others, rfl, here, outside, -, -⟩ :=
      TranslationUnit.wordsAt_succ stored secluded
    cases there
    rw [Nat.cast_zero, Int.mul_zero, VirtualAddress.offset_zero] at ended
    exact loadWord_bytes here outside ended
  | succ index ih =>
    rcases count with _ | count
    · cases stored
      cases there
    obtain ⟨first, others, rfl, -, -, stored, secluded⟩ :=
      TranslationUnit.wordsAt_succ stored secluded
    refine ih stored secluded ?_ there
    have next : (8 : Int) + 8 * index = 8 * (index + 1 : Nat) := by omega
    rwa [VirtualAddress.offset_offset, next]

/-! ## What stores leave -/

theorem writePieces_exact {pieces : List Nat} {bytes : List Byte} {address : VirtualAddress}
    {places : List Address} {left : Processor} {last : μ}
    (mapped : processor.translation.placesIn memory pieces address = some places)
    (apart : Apart (processor.translation.tableSlots memory) memory places)
    (length : bytes.length = pieces.sum)
    (ended : (writePieces pieces bytes address).ending processor memory = ((.ok (), left), last)) :
    Stored (processor.translation.entrySlots memory) memory places bytes last := by
  induction pieces generalizing address places bytes memory with
  | nil =>
    cases mapped
    cases ended
    rw [List.eq_nil_of_length_eq_zero length]
    exact Keeps.refl
  | cons count rest ih =>
    rw [List.sum_cons] at length
    obtain ⟨real, between, translated, marks, writing⟩ :=
      bind_ok (translate_inspects processor memory address rfl) (translate_peeks _ _ _ _) ended
    obtain ⟨others, onward, rfl⟩ :=
      processor.translation.placesIn_cons (translate_ok _ _ translated).1 mapped
    have taken : (bytes.take count).length = count := List.length_take_of_le (by omega)
    have outside : Apart (processor.translation.entrySlots memory) memory _ :=
      apart.narrow fun _ => processor.translation.tableSlots_of_entrySlots
    have first := Activity.writeBytes_stored taken (outside.left.of_slots marks.slots)
    rw [ending_bind, ending_liftM] at writing
    dsimp only at writing
    generalize ((Activity.writeBytes (bytes.take count) real).perform between).2 = middle
      at first writing
    -- The first piece is stored before the rest is translated.
    have first := (translate_keeps _ _ translated).then_stored outside.left first
    have spared := first.widen (fun _ => processor.translation.tableSlots_of_entrySlots)
      apart.left.outside
    have rest : Stored (processor.translation.entrySlots middle) middle others
        (bytes.drop count) last := by
      refine ih ?_ ?_ (by rw [List.length_drop]; omega) writing
      · rw [processor.translation.placesIn_stored spared, onward]
      · rw [processor.translation.tableSlots_congr first.slots]
        exact apart.right.of_slots first.slots
    rw [processor.translation.entrySlots_congr first.slots] at rest
    have stored := first.append outside rest
    rwa [List.take_append_drop] at stored

theorem storeWord_exact {address : VirtualAddress} {places : List Address} {word : Word}
    {left : Processor} {last : μ}
    (mapped : processor.translation.placesIn memory
      (processor.translation.pieces address.byteNumber 8) address = some places)
    (apart : Apart (processor.translation.tableSlots memory) memory places)
    (ended : (storeWord address word).ending processor memory = ((.ok (), left), last)) :
    Stored (processor.translation.entrySlots memory) memory places word.toBytes last := by
  unfold storeWord at ended
  split at ended
  · next aligned =>
    obtain ⟨real, between, translated, marks, writing⟩ :=
      bind_ok (translate_inspects processor memory address rfl) (translate_peeks _ _ _ _) ended
    have place := (translate_ok _ _ translated).1
    rw [processor.translation.placesIn_aligned aligned place] at mapped
    cases mapped
    rw [ending_liftM] at writing
    cases writing
    have outside : Apart (processor.translation.entrySlots memory) memory _ :=
      apart.narrow fun _ => processor.translation.tableSlots_of_entrySlots
    have start := processor.translation.byteIndex_realAt aligned place
    exact (translate_keeps _ _ translated).then_stored outside
      (.writeWord start (outside.of_slots marks.slots) word)
  · rw [writeVirtual, ending, course_get] at ended
    refine writePieces_exact mapped apart ?_ ended
    rw [processor.translation.sum_pieces, word.length_toBytes]

theorem storeWords_exact {words : List Word} {address top : VirtualAddress}
    {places : List Address} {left : Processor} {last : μ}
    (mapped : processor.translation.areaPlaces memory words.length address = some places)
    (apart : Apart (processor.translation.tableSlots memory) memory places)
    (ended : (storeWords words address).ending processor memory = ((.ok top, left), last)) :
    Stored (processor.translation.entrySlots memory) memory places (words.flatMap Word.toBytes)
      last := by
  induction words generalizing address places memory with
  | nil =>
    cases mapped
    cases ended
    exact Keeps.refl
  | cons word rest ih =>
    obtain ⟨here, others, rfl, -, first, mapped⟩ := TranslationUnit.areaPlaces_succ mapped
    obtain ⟨_, middle, storing, ended⟩ := (storeWord_stores _ _ _ _).of_bind_ok ended
    have first := storeWord_exact first apart.left storing
    have spared := first.widen (fun _ => processor.translation.tableSlots_of_entrySlots)
      apart.left.outside
    have rest : Stored (processor.translation.entrySlots middle) middle others
        (rest.flatMap Word.toBytes) last := by
      refine ih ?_ ?_ ended
      · rw [processor.translation.areaPlaces_stored spared, mapped]
      · rw [processor.translation.tableSlots_congr first.slots]
        exact apart.right.of_slots first.slots
    rw [processor.translation.entrySlots_congr first.slots] at rest
    exact first.append (apart.narrow fun _ => processor.translation.tableSlots_of_entrySlots) rest

theorem storeWords_stored {words : List Word} {address top : VirtualAddress}
    {places : List Address} {left : Processor} {last : μ}
    (mapped : processor.translation.areaPlaces memory words.length address = some places)
    (apart : Apart (processor.translation.tableSlots memory) memory places)
    (ended : (storeWords words address).ending processor memory = ((.ok top, left), last)) :
    Stored (processor.translation.tableSlots memory) memory places (words.flatMap Word.toBytes)
      last :=
  (storeWords_exact mapped apart ended).widen
    (fun _ => processor.translation.tableSlots_of_entrySlots) apart.outside

theorem storeWords_wordsAt {words : List Word} {address top : VirtualAddress}
    {left : Processor} {last : μ}
    (apart : processor.translation.SetsApart memory words.length address)
    (ended : (storeWords words address).ending processor memory = ((.ok top, left), last)) :
    processor.translation.wordsAt last words.length address = some words := by
  obtain ⟨places, mapped, apart⟩ := apart
  exact (storeWords_stored mapped apart ended).wordsAt_eq mapped

end Execution

end Mainframe
