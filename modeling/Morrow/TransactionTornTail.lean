import Morrow.LineFile
import Morrow.TransactionCheckpoint
import Morrow.WalRecord

/-!
# A journal of transactions that was cut

The journal is a text file with one delta on each line, in JSON and together with a
checksum of it. A crash leaves the file cut at some length. The reader has no notion
of a torn last line: unless the cut leaves whole lines, or a last line that lacks
only its newline, the rest of the line is taken for an entry, refused, and the files
cannot be opened any more.
-/

namespace Morrow

open ByteCodec FramedLog LineFile TransactionCoordinator List Option

structure JournalEntry where
  delta : TransactionDelta
  checksum : ℕ
deriving DecidableEq

/-- The JSON values in the journal. Reading includes the check that a line is text. -/
structure JournalJson where
  delta : Json TransactionDelta
  entry : Json JournalEntry

namespace JournalJson

variable (json : JournalJson) (delta : TransactionDelta)

/-- The entry that is written for a delta. -/
def entryOf : JournalEntry :=
  ⟨delta, crc32 (json.delta.toVec delta)⟩

/-- The line of a delta. -/
def body : Bytes := json.entry.toVec (json.entryOf delta)

/-- The bytes of a journal. -/
def file (journal : List TransactionDelta) : Bytes := encodeAll (encodeLine json.body) journal

/-- The ASCII characters that Rust trims. -/
def whitespace (byte : UInt8) : Bool := byte = 32 ∨ 9 ≤ byte ∧ byte ≤ 13

/-- Read one line and apply its delta; blank lines are skipped. -/
def replayLine (state : TransactionState × ℕ) (line : Bytes) : Outcome (TransactionState × ℕ) :=
  if line.all whitespace then .ok state
  else
    match json.entry.fromSlice line with
    | .error _ => .error (.error "decoding transaction journal")
    | .ok entry => do
      ensure (crc32 (json.delta.toVec entry.delta) = entry.checksum)
        "transaction journal checksum mismatch"
      let applied ← state.1.applyDelta entry.delta
      pure (applied, state.2 + 1)

/-- Read the lines of a journal. -/
def replayLines : TransactionState × ℕ → List Bytes → Outcome (TransactionState × ℕ)
  | state, [] => .ok state
  | state, line :: lines => do
    let next ← json.replayLine state line
    replayLines next lines

/-- Open the files: the state they stand for and the number of entries. -/
def openFiles (snapshot : Option TransactionState) (journal : Bytes) :
    Outcome (TransactionState × ℕ) :=
  json.replayLines (snapshot.getD TransactionState.default, 0) (lines journal)

/-- What is assumed of the JSON library for a delta: it reads its line back and
refuses every proper part of it, and it writes an object on one line. -/
structure Writes (delta : TransactionDelta) : Prop where
  roundTrips : json.entry.RoundTrips (json.entryOf delta)
  refuses : ∀ part, part <+: json.body delta → part ≠ json.body delta →
    ∀ entry, json.entry.fromSlice part ≠ .ok entry
  braced : (json.body delta).head? = some 123
  oneLine : OneLine (json.body delta)

variable {json} {delta : TransactionDelta} {deltas : List TransactionDelta}

section

variable (writes : json.Writes delta)

include writes

theorem Writes.nonempty : json.body delta ≠ [] := by
  intro empty
  have braced := writes.braced
  rw [empty] at braced
  cases braced

/-- No part of the line is blank. -/
theorem Writes.not_blank {part : Bytes}
    (front : part <+: json.body delta) (nonempty : part ≠ []) : part.all whitespace = false := by
  obtain ⟨first, rest, rfl⟩ := exists_cons_of_ne_nil nonempty
  obtain ⟨more, whole⟩ := front
  have braced := writes.braced
  rw [← whole] at braced
  obtain rfl : first = 123 := some.inj braced
  rfl

theorem Writes.replayLine (state : TransactionState × ℕ) :
    json.replayLine state (json.body delta) =
      (state.1.applyDelta delta).map fun applied => (applied, state.2 + 1) := by
  have blank := writes.not_blank prefix_rfl writes.nonempty
  have back : json.entry.fromSlice (json.body delta) = .ok (json.entryOf delta) :=
    writes.roundTrips
  have sound : crc32 (json.delta.toVec (json.entryOf delta).delta) =
      (json.entryOf delta).checksum := rfl
  simp only [JournalJson.replayLine, blank, back]
  rw [if_neg Bool.false_ne_true, ensure_of sound, ok_bind]
  cases applied : state.1.applyDelta delta with
  | error failure => simp only [entryOf, applied, error_bind, Except.map]
  | ok next => simp only [entryOf, applied, ok_bind, Except.map, pure, Except.pure]

/-- The rest of a torn line is refused. -/
theorem Writes.replayLine_torn (state : TransactionState × ℕ)
    {part : Bytes} (front : part <+: json.body delta) (nonempty : part ≠ [])
    (torn : part ≠ json.body delta) (next : TransactionState × ℕ) :
    json.replayLine state part ≠ .ok next := by
  have blank := writes.not_blank front nonempty
  simp only [JournalJson.replayLine, blank]
  cases read : json.entry.fromSlice part with
  | error message => exact fun impossible => by cases impossible
  | ok entry => exact absurd read (writes.refuses part front torn entry)

end

/-- The lines of deltas are replayed as the deltas are. -/
theorem replayLines_append (writes : ∀ delta ∈ deltas, json.Writes delta)
    (state : TransactionState) (count : ℕ) (rest : List Bytes) :
    json.replayLines (state, count) (deltas.map json.body ++ rest) =
      state.applyDeltas deltas >>= fun applied =>
        json.replayLines (applied, count + deltas.length) rest := by
  induction deltas generalizing state count with
  | nil => rfl
  | cons delta deltas ih =>
    rw [map_cons, cons_append, replayLines,
      (writes delta mem_cons_self).replayLine, TransactionState.applyDeltas]
    cases applied : state.applyDelta delta with
    | error failure => rfl
    | ok next =>
      simp only [Except.map, ok_bind]
      rw [ih (forall_mem_cons.mp writes).2, length_cons, Nat.add_right_comm, Nat.add_assoc]

/-- Open a journal of whole lines and the rest of one. -/
theorem openFiles_append (writes : ∀ delta ∈ deltas, json.Writes delta)
    (snapshot : Option TransactionState) (rest : Bytes) :
    json.openFiles snapshot (json.file deltas ++ rest) =
      recovered snapshot deltas >>= fun state =>
        json.replayLines (state, deltas.length) (lines rest) := by
  rw [openFiles, file, lines_encodeAll json.body fun delta member => (writes delta member).oneLine,
    replayLines_append writes, Nat.zero_add]
  rfl

/-! ### Cuts -/

/-- The cut leaves whole lines, or a last line that lacks only its newline. -/
def CutAtLine (json : JournalJson) (journal : List TransactionDelta) (cut : ℕ) : Prop :=
  (json.file journal).length ≤ cut ∨ ∃ count ≤ journal.length,
    cut = lineEnd json.body journal count ∨ cut + 1 = lineEnd json.body journal count

/-- The delta at the index lies completely before the cut. -/
def Present (json : JournalJson) (journal : List TransactionDelta) (cut index : ℕ) : Prop :=
  ∃ delta, journal[index]? = some delta ∧
    lineEnd json.body journal index + (json.body delta).length ≤ cut

variable {journal : List TransactionDelta} {cut : ℕ}

/-- Where the deltas that are present end. -/
theorem present_iff (writes : ∀ delta ∈ journal, json.Writes delta) {kept : ℕ}
    (bounded : kept ≤ journal.length) (reached : lineEnd json.body journal kept ≤ cut + 1)
    (ends : cut ≤ lineEnd json.body journal kept ∨ kept = journal.length) (index : ℕ) :
    Present json journal cut index ↔ index < kept := by
  constructor
  · rintro ⟨delta, found, present⟩
    by_contra beyond
    have inside := (List.getElem?_eq_some_iff.mp found).1
    have nonempty := length_pos_iff.mpr (writes delta (mem_of_getElem? found)).nonempty
    have ordered := lineEnd_mono json.body journal (Nat.le_of_not_lt beyond)
    omega
  · intro before
    have found := getElem?_eq_getElem (before.trans_le bounded)
    have next : lineEnd json.body journal (index + 1) = _ := lineEnd_succ found
    have ordered : lineEnd json.body journal (index + 1) ≤ lineEnd json.body journal kept :=
      lineEnd_mono json.body journal before
    exact ⟨_, found, by omega⟩

variable {snapshot : Option TransactionState} {state : TransactionState}

theorem recovered_take (sound : recovered snapshot journal = .ok state) (count : ℕ) :
    ∃ before, recovered snapshot (journal.take count) = .ok before := by
  rw [recovered, ← take_append_drop count journal, TransactionState.applyDeltas_append] at sound
  obtain ⟨before, first, -⟩ := bind_eq_ok.mp sound
  exact ⟨before, first⟩

/-- Open a journal of whole lines. -/
theorem openFiles_file (writes : ∀ delta ∈ deltas, json.Writes delta)
    (sound : recovered snapshot deltas = .ok state) :
    json.openFiles snapshot (json.file deltas) = .ok (state, deltas.length) := by
  have whole := openFiles_append writes snapshot []
  rw [append_nil, sound] at whole
  exact whole

/-- Open a journal whose last line lacks its newline. -/
theorem openFiles_body (writes : ∀ delta ∈ deltas, json.Writes delta) (last : json.Writes delta)
    (sound : recovered snapshot (deltas ++ [delta]) = .ok state) :
    json.openFiles snapshot (json.file deltas ++ json.body delta) =
      .ok (state, deltas.length + 1) := by
  rw [recovered, TransactionState.applyDeltas_append] at sound
  obtain ⟨before, first, second⟩ := bind_eq_ok.mp sound
  rw [TransactionState.applyDeltas_singleton] at second
  rw [openFiles_append writes, recovered, first, ok_bind,
    lines_last last.oneLine.1 last.nonempty, replayLines, last.replayLine]
  simp only [second, Except.map, ok_bind, replayLines]

/-- At such a cut, the deltas that are present are the first ones, and opening the
files applies them. -/
theorem openFiles_cut (writes : ∀ delta ∈ journal, json.Writes delta) {final : TransactionState}
    (sound : recovered snapshot journal = .ok final) (atLine : CutAtLine json journal cut) :
    ∃ kept state, (∀ index, Present json journal cut index ↔ index < kept) ∧
      recovered snapshot (journal.take kept) = .ok state ∧
      json.openFiles snapshot ((json.file journal).take cut) = .ok (state, kept) := by
  rcases atLine with beyond | ⟨kept, bounded, whole | lacking⟩
  · refine ⟨journal.length, final, ?_, ?_, ?_⟩
    · apply present_iff writes le_rfl _ (.inr rfl)
      rw [lineEnd_length]
      exact Nat.le_succ_of_le beyond
    · rw [take_length]
      exact sound
    · rw [take_of_length_le beyond]
      exact openFiles_file writes sound
  · obtain ⟨state, before⟩ := recovered_take sound kept
    refine ⟨kept, state, present_iff writes bounded (by omega) (.inl whole.le), before, ?_⟩
    rw [whole, file, take_lineEnd, ← file, openFiles_file
      (fun delta member => writes delta (mem_of_mem_take member)) before,
      length_take_of_le bounded]
  · obtain ⟨state, before⟩ := recovered_take sound kept
    refine ⟨kept, state, present_iff writes bounded (by omega) (.inl (by omega)), before, ?_⟩
    cases kept with
    | zero =>
      cases lacking
    | succ count =>
      have found := getElem?_eq_getElem bounded
      rw [lineEnd_succ found] at lacking
      rw [take_add_one, found] at before
      obtain rfl : cut = lineEnd json.body journal count + (json.body journal[count]).length := by
        omega
      have opens := openFiles_body
        (fun delta member => writes delta (mem_of_mem_take member))
        (writes _ (getElem_mem bounded)) before
      rw [file, take_inside found le_rfl, take_length, ← file, opens,
        length_take_of_le (Nat.le_of_succ_le bounded)]

/-- At every other cut the files cannot be opened. -/
theorem openFiles_torn (writes : ∀ delta ∈ journal, json.Writes delta)
    (snapshot : Option TransactionState) (torn : ¬ CutAtLine json journal cut)
    (opened : TransactionState × ℕ) :
    json.openFiles snapshot ((json.file journal).take cut) ≠ .ok opened := by
  have within : cut < (json.file journal).length := by
    by_contra beyond
    exact torn (.inl (Nat.le_of_not_lt beyond))
  obtain ⟨index, delta, found, above, below⟩ := exists_line within
  have bounded := (List.getElem?_eq_some_iff.mp found).1
  have writesDelta := writes delta (mem_of_getElem? found)
  obtain ⟨inside, rfl⟩ := Nat.exists_eq_add_of_le above
  have positive : inside ≠ 0 := by
    rintro rfl
    exact torn (.inr ⟨index, bounded.le, .inl rfl⟩)
  have short : inside ≠ (json.body delta).length := by
    rintro rfl
    exact torn (.inr ⟨index + 1, bounded, .inr (lineEnd_succ found).symm⟩)
  have front := take_prefix inside (json.body delta)
  have nonempty : (json.body delta).take inside ≠ [] := by
    simp [positive, writesDelta.nonempty]
  have strict : (json.body delta).take inside ≠ json.body delta := by
    intro same
    have lengths := congrArg length same
    rw [length_take] at lengths
    omega
  rw [file, take_inside found (by omega), ← file,
    openFiles_append fun delta member => writes delta (mem_of_mem_take member),
    lines_last (writesDelta.oneLine.part front).1 nonempty]
  intro opens
  obtain ⟨state, -, replayed⟩ := bind_eq_ok.mp opens
  obtain ⟨next, refused, -⟩ := bind_eq_ok.mp replayed
  exact writesDelta.replayLine_torn _ front nonempty strict next refused

end JournalJson

/-! ### What is visible afterwards -/

namespace TransactionState

variable {id : String}

theorem visibleBatch_isSome {state : TransactionState} :
    (state.visibleBatch id).isSome ↔
      ∃ record, state.transactions.get? id = some record ∧ record.status = .committed := by
  unfold visibleBatch
  cases state.transactions.get? id with
  | none => simp
  | some record =>
    simp only [bind_eq_bind, bind_some, some.injEq, exists_eq_left']
    split <;> simp [*]

variable {stored : Option TransactionRecord} {after : TransactionRecord}

/-- A change that leaves the status alone commits nothing. -/
theorem committed_map {target : String} {change : TransactionRecord → TransactionRecord}
    (changed : (if target = id then stored.map change else stored) = some after)
    (keeps : ∀ record, (change record).status = record.status)
    (committed : after.status = .committed) :
    ∃ before, stored = some before ∧ before.status = .committed := by
  split at changed
  · obtain ⟨before, rfl, rfl⟩ := map_eq_some_iff.mp changed
    exact ⟨before, rfl, (keeps before).symm.trans committed⟩
  · exact ⟨after, changed, committed⟩

theorem committed_source {delta : TransactionDelta} (begins : BeginOpened [delta])
    (found : delta.record id stored = some after) (committed : after.status = .committed) :
    (∃ before, stored = some before ∧ before.status = .committed) ∨
      delta = .status id .committed := by
  cases delta with
  | begin begun =>
    simp only [TransactionDelta.record] at found
    split at found
    · obtain rfl := some.inj found
      rw [begins begun mem_cons_self] at committed
      cases committed
    · exact .inl ⟨after, found, committed⟩
  | producerEpoch producer epoch => exact .inl ⟨after, found, committed⟩
  | write target item => exact .inl (committed_map found (fun _ => rfl) committed)
  | offset target item => exact .inl (committed_map found (fun _ => rfl) committed)
  | view target item => exact .inl (committed_map found (fun _ => rfl) committed)
  | status target given =>
    rw [record_edit rfl] at found
    split at found
    · rename_i same
      obtain ⟨before, -, rfl⟩ := map_eq_some_iff.mp found
      right
      rw [same, show given = .committed from committed]
    · exact .inl ⟨after, found, committed⟩

/-- A transaction is visible only if it was before or a delta commits it. -/
theorem visible_source {state next : TransactionState} {deltas : List TransactionDelta}
    (begins : BeginOpened deltas) (applied : state.applyDeltas deltas = .ok next)
    (visible : (next.visibleBatch id).isSome) :
    (state.visibleBatch id).isSome ∨ .status id .committed ∈ deltas := by
  induction deltas generalizing state with
  | nil =>
    obtain rfl := Except.ok.inj applied
    exact .inl visible
  | cons delta deltas ih =>
    obtain ⟨between, first, rest⟩ := bind_eq_ok.mp applied
    have later := ih (fun record member =>
      begins record (mem_cons_of_mem _ member)) rest
    rcases later with already | member
    · obtain ⟨record, found, committed⟩ := visibleBatch_isSome.mp already
      rw [applyDelta_record first] at found
      have single : BeginOpened [delta] := fun record member =>
        begins record (mem_singleton.mp member ▸ mem_cons_self)
      rcases committed_source single found committed with ⟨before, stored, held⟩ | rfl
      · exact .inl (visibleBatch_isSome.mpr ⟨before, stored, held⟩)
      · exact .inr mem_cons_self
    · exact .inr (mem_cons_of_mem _ member)

end TransactionState

namespace TransactionCoordinator

open JournalJson

/-- Opening a journal that was cut gives the state of its first deltas, among which
are all that lie before the cut; and only what these or the snapshot committed is
visible. -/
def RecoversCut (coordinator : TransactionCoordinator) (json : JournalJson) (cut : ℕ) : Prop :=
  ∃ state entries kept,
    json.openFiles coordinator.snapshot ((json.file coordinator.journal).take cut) =
      .ok (state, entries) ∧
    recovered coordinator.snapshot (coordinator.journal.take kept) = .ok state ∧
    (∀ index, Present json coordinator.journal cut index → index < kept) ∧
    ∀ id, (state.visibleBatch id).isSome →
      ((coordinator.snapshot.getD TransactionState.default).visibleBatch id).isSome ∨
        ∃ index, Present json coordinator.journal cut index ∧
          coordinator.journal[index]? = some (.status id .committed)

/-- The journal of any coordinator survives exactly the cuts at its lines. -/
theorem recoversCut_iff (json : JournalJson) (limits : TransactionLimits)
    (operations : List Operation) (cut : ℕ)
    (writes : ∀ delta ∈ ((new limits).performAll operations).journal, json.Writes delta) :
    ((new limits).performAll operations).RecoversCut json cut ↔
      CutAtLine json ((new limits).performAll operations).journal cut := by
  have durable := (durable_new limits).performAll operations
  generalize (new limits).performAll operations = coordinator at writes durable ⊢
  constructor
  · rintro ⟨state, entries, -, opens, -⟩
    by_contra torn
    exact openFiles_torn writes _ torn _ opens
  · intro atLine
    obtain ⟨kept, state, present, before, opens⟩ := openFiles_cut writes durable.recovered atLine
    refine ⟨state, kept, kept, opens, before, fun index => (present index).mp, ?_⟩
    intro id visible
    have begins : BeginOpened (coordinator.journal.take kept) :=
      fun record member => durable.begins record (mem_of_mem_take member)
    rcases TransactionState.visible_source begins before visible with held | committed
    · exact .inl held
    · right
      obtain ⟨index, found⟩ := mem_iff_getElem?.mp committed
      have inside : index < kept := by
        have bounded := (List.getElem?_eq_some_iff.mp found).1
        rw [length_take] at bounded
        omega
      rw [getElem?_take_of_lt inside] at found
      exact ⟨index, (present index).mpr inside, found⟩

/-! ### A journal of two lines -/

def sampleLimits : TransactionLimits := ⟨10, 1000, 10, 1000, 1⟩

def sampleOperations : List Operation :=
  [.begin "t" "tenant" "producer" 0 0, .append "t" ⟨"s", 0, 0, [1]⟩ 0]

def sampleBegin : TransactionDelta :=
  .begin ⟨"t", "tenant", "producer", 0, 0, 1000, .opened, [], [], []⟩

def sampleWrite : TransactionDelta := .write "t" ⟨"s", 0, 0, [1]⟩

/-- What the library in use writes for the two deltas. -/
def sampleText (delta : TransactionDelta) : String :=
  if delta = sampleBegin then
    "\x7b\"Begin\":\x7b\"id\":\"t\",\"tenant\":\"tenant\",\"producer\":\"producer\"," ++
    "\"producer_epoch\":0,\"started_at_ms\":0,\"deadline_ms\":1000,\"status\":\"Open\"," ++
    "\"writes\":[],\"offsets\":[],\"views\":[]\x7d\x7d"
  else
    "\x7b\"Write\":\x7b\"id\":\"t\",\"write\":\x7b\"stream\":\"s\"," ++
    "\"partition\":0,\"offset\":0,\"bytes\":[1]\x7d\x7d\x7d"

def sampleLine (entry : JournalEntry) : Bytes :=
  utf8 ("\x7b\"delta\":" ++ sampleText entry.delta ++ ",\"checksum\":" ++
    toString entry.checksum ++ "\x7d")

def sampleEntry (delta : TransactionDelta) : JournalEntry :=
  ⟨delta, crc32 (utf8 (sampleText delta))⟩

/-- A library that knows the two deltas. -/
def sampleJson : JournalJson where
  delta := ⟨fun delta => utf8 (sampleText delta), fun _ => .error "expected value"⟩
  entry := ⟨sampleLine, fun bytes =>
    match [sampleBegin, sampleWrite].find?
      (fun delta => sampleLine (sampleEntry delta) = bytes) with
    | some delta => .ok (sampleEntry delta)
    | none => .error "expected value"⟩

theorem sampleJson_writes :
    ∀ delta ∈ ((new sampleLimits).performAll sampleOperations).journal,
      sampleJson.Writes delta := by
  have journal : ((new sampleLimits).performAll sampleOperations).journal =
      [sampleBegin, sampleWrite] := by decide
  have apart : ∀ first ∈ [sampleBegin, sampleWrite], ∀ second ∈ [sampleBegin, sampleWrite],
      sampleJson.body first <+: sampleJson.body second → first = second := by decide +kernel
  rw [journal]
  intro delta member
  refine ⟨?_, ?_, ?_, ?_⟩
  · unfold Json.RoundTrips
    revert delta
    decide +kernel
  · intro part front strict entry read
    simp only [sampleJson] at read
    split at read
    · rename_i other found
      obtain rfl : sampleLine (sampleEntry other) = part := by simpa using find?_some found
      exact strict (congrArg sampleJson.body
        (apart other (mem_of_find?_eq_some found) delta member front))
    · cases read
  · revert delta
    decide +kernel
  · revert delta
    decide +kernel

/-- The first line survives a cut behind it. -/
theorem recoversCut_iff_first_line :
    ((new sampleLimits).performAll sampleOperations).RecoversCut sampleJson 201 :=
  (recoversCut_iff sampleJson sampleLimits sampleOperations 201 sampleJson_writes).mpr
    (.inr ⟨1, by decide, .inl (by decide +kernel)⟩)

/-- One byte of the second line is left, and the first is lost with it. -/
theorem torn_line_loses_journal :
    (∀ delta ∈ ((new sampleLimits).performAll sampleOperations).journal,
        sampleJson.Writes delta) ∧
      ¬ ((new sampleLimits).performAll sampleOperations).RecoversCut sampleJson 202 := by
  refine ⟨sampleJson_writes, ?_⟩
  rintro ⟨state, entries, kept, opens, -⟩
  have read : Except.isOk _ = true := congrArg Except.isOk opens
  exact absurd read (by decide +kernel)

end TransactionCoordinator

end Morrow
