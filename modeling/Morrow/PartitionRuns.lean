import Morrow.GuardedRuns
import Morrow.IndexedLog

/-!
# Histories of a partition log

A log is appended to, crashes and is opened again, any number of times. A crash keeps
some initial part of every segment, with its header, and independently of every index.
A directory that cannot be opened is left alone.

Segments and indexes are written without an order between them, and opening rebuilds
an index only if its segment was torn or the index is missing. A crash that cuts the
active segment between two batches may therefore leave entries for envelopes that are
gone, and one that cuts its index within an entry misplaces all later entries.
-/

namespace Morrow

open ByteCodec FramedLog GuardedRuns OrderedMap List SegmentedLog.Sample Option

/-- What a crash keeps of each segment and of each index. -/
structure CrashCuts where
  segment : ℕ → ℕ
  header : ∀ id, SegmentedLog.segmentHeader.length ≤ segment id
  index : ℕ → ℕ

/-- The directory after a crash. -/
def LogFiles.cut (files : LogFiles) (cuts : CrashCuts) : LogFiles :=
  { files with
    segments := files.segments.mapValues fun id file => file.take (cuts.segment id)
    indexes := files.indexes.mapValues fun id index => index.take (cuts.index id) }

/-- An open log, a directory that nobody has open, or one that could not be opened. -/
inductive PartitionState
  | running (log : SegmentedLog)
  | stopped (files : LogFiles)
  | refused

inductive PartitionAction
  | append (envelope : MessageEnvelope)
  | crash (cuts : CrashCuts)
  | reopen

namespace PartitionState

open SegmentedLog

section Machine

variable (legacy : Bytes → Except String MessageEnvelope) (dir : String) (stream : StreamId)
  (partition : PartitionId) (segmentBytes : ℕ)

/-- Open a directory. -/
def opened (files : LogFiles) : PartitionState :=
  match openLog legacy dir stream partition segmentBytes files with
  | .ok (log, _) => running log
  | .error _ => refused

/-- One action. Envelopes are handed to the log of their own partition, and a failed
append leaves the log as it was. -/
def next : PartitionState → PartitionAction → PartitionState
  | running log, .append envelope =>
    if envelope.stream = stream ∧ envelope.partition = partition then
      match log.appendCommitted legacy envelope with
      | .ok later => running later
      | .error _ => running log
    else running log
  | running log, .crash cuts => stopped (log.files.cut cuts)
  | stopped files, .crash cuts => stopped (files.cut cuts)
  | stopped files, .reopen => opened legacy dir stream partition segmentBytes files
  | state, _ => state

/-- The log of an empty directory. -/
def start : PartitionState :=
  opened legacy dir stream partition segmentBytes (LogFiles.fresh none)

end Machine

/-- In every history of admitted actions, reading any offset of an open log finds
exactly what a full scan of its segments finds. -/
def IndexAgrees (guard : PartitionState → PartitionAction → Prop) : Prop :=
  ∀ legacy dir stream partition segmentBytes log,
    Reaches (next legacy dir stream partition segmentBytes) guard
        (start legacy dir stream partition segmentBytes) (running log) →
      ∀ target, ∃ found, scanSegments legacy target log.files.segments.entries = .ok found ∧
        log.readOffset legacy target = .ok found

/-- The segment ends behind a complete batch. -/
def EndsWhole (file : Bytes) : Prop :=
  ∃ records : List StoredEnvelope, file = segmentFile records []

/-- If the last segment ends behind a complete batch, its index ends behind a complete
entry and no entry points behind the segment. -/
def IndexSettled (files : LogFiles) : Prop :=
  ∀ id file index, files.segments.lastKey? = some id → files.segments.get? id = some file →
    files.indexes.get? id = some index → EndsWhole file →
      index.length % 16 = 0 ∧ ∀ entry ∈ loadSparseIndex (some index), entry.2 < file.length

/-- Envelopes can be read back, counters do not overflow, and logs are opened only with
a settled index. -/
def Settled : PartitionState → PartitionAction → Prop
  | running log, .append envelope => envelope.Storable ∧ log.nextOffset < u64Max ∧
      log.activeBytes + (frame envelope.body).length < 2 ^ 64
  | stopped files, .reopen => IndexSettled files
  | _, _ => True

end PartitionState

/-! ### What a crash leaves -/

namespace SegmentedLog

variable {legacy : Bytes → Except String MessageEnvelope}

theorem take_file (records : List StoredEnvelope) {cut : ℕ} (header : segmentHeader.length ≤ cut) :
    (segmentFile records []).take cut =
      segmentFile (completeWithin batchOf (cut - segmentHeader.length) records)
        (cutRecord batchOf (cut - segmentHeader.length) records) := by
  rw [segmentFile, append_nil, take_append, take_of_length_le header, take_encodeAll]
  rfl

namespace Image

variable (image : Image) (cuts : CrashCuts) (id : ℕ) (records : List StoredEnvelope)

/-- The envelopes of a segment that a crash leaves complete. -/
def kept : List StoredEnvelope :=
  completeWithin batchOf (cuts.segment id - segmentHeader.length) records

/-- What a crash leaves of the batch it falls into. -/
def torn : Bytes :=
  cutRecord batchOf (cuts.segment id - segmentHeader.length) records

/-- The envelopes after a crash. -/
def cut : Image where
  sealedRecords := image.sealedRecords.mapValues (kept cuts)
  activeId := image.activeId
  active := kept cuts image.activeId image.active
  above := by
    intro entry member
    obtain ⟨source, listed, rfl⟩ := mem_map.mp member
    exact image.above source listed

variable (legacy) in
/-- What is left behind the complete batches is nothing or a torn batch. -/
theorem batchStep_torn (repairs : Bool)
    (nonempty : torn cuts id records ≠ []) :
    ∃ message, batchStep legacy repairs (torn cuts id records) =
      if repairs then .torn else .corrupt message := by
  cases next : records[(kept cuts id records).length]? with
  | none => exact absurd (cutRecord_end batchOf next) nonempty
  | some record =>
    obtain ⟨part, strict⟩ := cutRecord_next batchOf next
    exact SegmentedLog.batchStep_torn part strict nonempty repairs

theorem kept_sublist :
    (kept cuts id records).Sublist records := completeWithin_sublist _ _ _

variable {image cuts}

theorem pieces_cut :
    (image.cut cuts).pieces =
      image.pieces.map fun piece => (piece.1, kept cuts piece.1 piece.2) := by
  simp [pieces, cut, OrderedMap.mapValues]

theorem records_cut : (image.cut cuts).records.Sublist image.records := by
  rw [records_eq, records_eq, pieces_cut]
  generalize image.pieces = pieces
  induction pieces with
  | nil => exact List.Sublist.refl _
  | cons piece pieces ih =>
    exact (kept_sublist cuts piece.1 piece.2).append ih

theorem Sound.cut {stream : StreamId} {partition : PartitionId}
    (sound : image.Sound stream partition) : (image.cut cuts).Sound stream partition :=
  ⟨fun record member => sound.own record (records_cut.subset member),
    sound.increasing.sublist records_cut,
    fun record member => sound.bounded record (records_cut.subset member)⟩

/-- The segments after a crash that cuts no sealed segment within a batch. -/
theorem files_cut
    (whole : ∀ piece ∈ image.sealedRecords.entries, torn cuts piece.1 piece.2 = []) :
    (image.files []).mapValues (fun id file => file.take (cuts.segment id)) =
      (image.cut cuts).files (torn cuts image.activeId image.active) := by
  rw [files, mapValues_insert, take_file _ (cuts.header _)]
  congr 1
  apply ext_get?
  intro id
  simp only [sealedFiles, cut, get?_mapValues]
  cases found : image.sealedRecords.get? id with
  | none => rfl
  | some records =>
    have empty := whole (id, records) (mem_entries.mpr found)
    simp only [map_some, take_file _ (cuts.header _)]
    rw [show cutRecord batchOf _ records = [] from empty]
    rfl

end Image

/-! ### Opening what a crash has left -/

section Reopening

variable {log : SegmentedLog} {image : Image} {persisted : ℕ} {cuts : CrashCuts}

theorem Indexed.lastKey_cut (indexed : log.Indexed image persisted) :
    (log.files.cut cuts).segments.lastKey? = some image.activeId := by
  rw [LogFiles.cut, indexed.holds.segments, lastKey?_mapValues, image.lastKey_files]

variable {piece : ℕ × List StoredEnvelope}

/-- A segment after a crash. -/
theorem Indexed.get?_cut (cuts : CrashCuts) (indexed : log.Indexed image persisted)
    (member : piece ∈ image.pieces) :
    (log.files.cut cuts).segments.get? piece.1 =
      some (segmentFile (Image.kept cuts piece.1 piece.2) (Image.torn cuts piece.1 piece.2)) := by
  rw [LogFiles.cut, get?_mapValues, indexed.holds.segments,
    Image.get?_files_piece member, map_some, take_file _ (cuts.header _)]
  rfl

/-- A directory that is opened has no sealed segment that was cut within a batch. -/
theorem Indexed.sealed_whole (indexed : log.Indexed image persisted) {dir : String}
    {segmentBytes : ℕ} {result : SegmentedLog × List MessageEnvelope × ℕ}
    (opened : openLog legacy dir log.stream log.partition segmentBytes (log.files.cut cuts) =
      .ok result) :
    ∀ piece ∈ image.sealedRecords.entries, Image.torn cuts piece.1 piece.2 = [] := by
  intro piece member
  by_contra nonempty
  have listed : piece ∈ image.pieces := mem_append_left _ member
  have other : decide (piece.1 = (log.files.cut cuts).segments.lastKey?.getD 1) = false := by
    rw [indexed.lastKey_cut]
    exact decide_eq_false (image.above piece member).ne
  have own : Own log.stream log.partition (Image.kept cuts piece.1 piece.2) := by
    intro record inside
    apply indexed.holds.sound.own
    rw [image.records_eq]
    exact mem_flatMap.mpr ⟨piece, listed, (Image.kept_sublist cuts _ _).subset inside⟩
  have unmarked : (log.files.cut cuts).rewriteMarker = none := indexed.holds.unmarked
  have uncompacted : (log.files.cut cuts).compactionMarker = none := indexed.holds.uncompacted
  obtain ⟨scanned, replayed⟩ :=
    openLog_each unmarked uncompacted opened (indexed.get?_cut cuts listed)
  obtain ⟨message, invalid⟩ := Image.batchStep_torn legacy cuts _ _ false nonempty
  rw [other, replaySegment_corrupt own _ invalid] at replayed
  cases replayed

/-- An index after a crash still serves its segment. -/
theorem Indexed.serving_cut (indexed : log.Indexed image persisted) (member : piece ∈ image.pieces)
    {bytes : Bytes} (found : (log.files.cut cuts).indexes.get? piece.1 = some bytes) :
    ServingFile (Image.kept cuts piece.1 piece.2) bytes := by
  simp only [LogFiles.cut, get?_mapValues, map_eq_some_iff] at found
  obtain ⟨source, stored, rfl⟩ := found
  have serving : ServingFile piece.2 source := by
    rcases mem_append.mp member with inSealed | last
    · exact indexed.serving piece inSealed source stored
    · obtain ⟨entries, exactly⟩ := indexed.exactly
      rw [mem_singleton.mp last] at stored ⊢
      rw [show log.files.indexes.get? image.activeId = some source from stored] at exactly
      exact exactly.serving
  have increasing := indexed.holds.sound.piece_increasing piece member
  obtain ⟨rest, whole⟩ := completeWithin_initial batchOf
    (cuts.segment piece.1 - segmentHeader.length) piece.2
  rw [← whole] at serving increasing
  exact (serving.cut increasing).of_cut <| take_prefix _ _

theorem segmentEnd_kept (id : ℕ) (records : List StoredEnvelope) :
    segmentEnd (Image.kept cuts id records) ≤ segmentEnd records := by
  obtain ⟨rest, whole⟩ := completeWithin_initial batchOf
    (cuts.segment id - segmentHeader.length) records
  rw [Image.kept]
  nth_rewrite 2 [← whole]
  simp only [segmentEnd, encodeAll_append, length_append]
  omega

/-- An index that is rebuilt after a crash. -/
theorem Indexed.rebuilt (cuts : CrashCuts) (indexed : log.Indexed image persisted)
    (member : piece ∈ image.pieces) :
    ExactFile (Image.kept cuts piece.1 piece.2)
      (indexFile (sparseTable (Image.kept cuts piece.1 piece.2)))
      (sparseTable (Image.kept cuts piece.1 piece.2)) := by
  have sub := Image.kept_sublist cuts piece.1 piece.2
  apply exactFile_sparseTable
  · exact (indexed.holds.sound.piece_increasing piece member).sublist sub
  · intro record inside
    apply indexed.holds.sound.bounded
    rw [image.records_eq]
    exact mem_flatMap.mpr ⟨piece, member, sub.subset inside⟩
  · exact (segmentEnd_kept _ _).trans_lt (indexed.short piece member)

section

variable (indexed : log.Indexed image persisted)

include indexed

/-- The index of the active segment, if it is settled. -/
theorem Indexed.openedIndex_active
    (settled : PartitionState.IndexSettled (log.files.cut cuts)) {torn : Bool}
    (whole : torn = false → Image.torn cuts image.activeId image.active = []) :
    ∃ entries, ExactFile (Image.kept cuts image.activeId image.active)
      (openedIndex torn ((log.files.cut cuts).indexes.get? image.activeId)
        (Image.kept cuts image.activeId image.active)) entries := by
  have member : (image.activeId, image.active) ∈ image.pieces :=
    mem_append_right _ mem_cons_self
  have rebuilt := indexed.rebuilt cuts member
  cases torn with
  | true => exact ⟨_, rebuilt⟩
  | false =>
    cases found : (log.files.cut cuts).indexes.get? image.activeId with
    | none => exact ⟨_, rebuilt⟩
    | some bytes =>
      have stored := indexed.get?_cut cuts member
      simp only [whole rfl] at stored
      obtain ⟨aligned, within⟩ :=
        settled _ _ bytes indexed.lastKey_cut stored found ⟨_, rfl⟩
      rw [segmentFile_length] at within
      exact (indexed.serving_cut member found).exact aligned within

/-- The index of a segment of a directory that was cut and opened. -/
theorem Indexed.openedIndex_sealed
    (member : piece ∈ image.pieces) :
    ServingFile (Image.kept cuts piece.1 piece.2)
      (openedIndex false ((log.files.cut cuts).indexes.get? piece.1)
        (Image.kept cuts piece.1 piece.2)) := by
  cases found : (log.files.cut cuts).indexes.get? piece.1 with
  | some bytes => exact indexed.serving_cut member found
  | none => exact (indexed.rebuilt cuts member).serving

/-- A log that is opened after a crash has its indexes in order, if that of the active
segment is settled. -/
theorem Indexed.reopen {dir : String} {segmentBytes : ℕ}
    {reopened : SegmentedLog} {envelopes : List MessageEnvelope} {truncations : ℕ}
    (opened : openLog legacy dir log.stream log.partition segmentBytes (log.files.cut cuts) =
      .ok (reopened, envelopes, truncations))
    (settled : PartitionState.IndexSettled (log.files.cut cuts)) :
    reopened.Indexed (image.cut cuts) persisted ∧ reopened.stream = log.stream ∧
      reopened.partition = log.partition := by
  have whole := indexed.sealed_whole opened
  have sound : (image.cut cuts).Sound log.stream log.partition := indexed.holds.sound.cut
  have segments : (log.files.cut cuts).segments =
      (image.cut cuts).files (Image.torn cuts image.activeId image.active) := by
    rw [← Image.files_cut whole, ← indexed.holds.segments]
    rfl
  have stops : ∃ torn : Bool, (torn = false → Image.torn cuts image.activeId image.active = []) ∧
      batchStep legacy true (Image.torn cuts image.activeId image.active) =
        if torn then .torn else .ended := by
    by_cases empty : Image.torn cuts image.activeId image.active = []
    · exact ⟨false, fun _ => empty, by rw [empty]; rfl⟩
    · obtain ⟨message, step⟩ := Image.batchStep_torn legacy cuts _ _ true empty
      exact ⟨true, fun impossible => absurd impossible (by decide), step⟩
  obtain ⟨torn, untorn, step⟩ := stops
  have unmarked : (log.files.cut cuts).rewriteMarker = none := indexed.holds.unmarked
  have uncompacted : (log.files.cut cuts).compactionMarker = none := indexed.holds.uncompacted
  have retention : (log.files.cut cuts).readRetentionOffset = .ok persisted :=
    indexed.holds.retention
  rw [(image.cut cuts).openLog_files sound dir segmentBytes step segments unmarked uncompacted
    retention] at opened
  obtain ⟨rfl, -⟩ := Prod.mk.inj (Except.ok.inj opened)
  have distinct : ((image.cut cuts).sealedRecords.entries.map Prod.fst).Nodup :=
    (image.cut cuts).sealedRecords.keys_increasing.imp fun below => below.ne
  refine ⟨⟨(image.cut cuts).opened_holds sound dir segmentBytes torn unmarked uncompacted
    retention, rfl, ?_, ?_, ?_, ?_⟩, rfl, rfl⟩
  · intro piece member
    rw [Image.pieces_cut] at member
    obtain ⟨source, listed, rfl⟩ := mem_map.mp member
    exact (segmentEnd_kept _ _).trans_lt (indexed.short source listed)
  · intro piece member bytes found
    have other := ((image.cut cuts).above piece member).ne
    simp only [Image.opened, Image.indexes, get?_insert_of_ne _ _ other] at found
    rw [openedIndexes_of_mem distinct member] at found
    obtain ⟨source, listed, rfl⟩ := mem_map.mp member
    rw [← some.inj found]
    exact indexed.openedIndex_sealed (mem_append_left _ listed)
  · simp only [Image.opened, Image.indexes, get?_insert_self]
    exact indexed.openedIndex_active settled untorn
  · intro id beyond
    have other : id ≠ (image.cut cuts).activeId := beyond.ne'
    have absent : id ∉ (image.cut cuts).sealedRecords.entries.map Prod.fst := by
      intro member
      obtain ⟨entry, listed, rfl⟩ := mem_map.mp member
      exact absurd ((image.cut cuts).above entry listed) beyond.le.not_gt
    simp only [Image.opened, Image.indexes, get?_insert_of_ne _ _ other]
    rw [openedIndexes_other absent, LogFiles.cut, get?_mapValues, indexed.above id beyond]
    rfl

end

end Reopening

end SegmentedLog

/-! ### Histories -/

namespace PartitionState

open SegmentedLog

section Histories

variable {legacy : Bytes → Except String MessageEnvelope} {dir : String} {stream : StreamId}
  {partition : PartitionId} {segmentBytes : ℕ}

/-- A log of the partition whose indexes are in order. -/
def Orderly (stream : StreamId) (partition : PartitionId) (log : SegmentedLog) : Prop :=
  (∃ image persisted, log.Indexed image persisted) ∧ log.stream = stream ∧ log.partition = partition

/-- Open logs are in order, and directories are what crashes have left of such logs. -/
def Invariant (stream : StreamId) (partition : PartitionId) : PartitionState → Prop
  | running log => Orderly stream partition log
  | stopped files => ∃ log cuts, Orderly stream partition log ∧ files = log.files.cut cuts
  | refused => True

theorem take_take (map : OrderedMap ℕ Bytes) (first second : ℕ → ℕ) :
    (map.mapValues fun id file => file.take (first id)).mapValues
        (fun id file => file.take (second id)) =
      map.mapValues fun id file => file.take (min (second id) (first id)) := by
  apply ext_get?
  intro id
  simp only [get?_mapValues]
  cases map.get? id with
  | none => rfl
  | some file => simp [List.take_take]

/-- Two crashes in a row keep what one could have kept. -/
theorem cut_cut (files : LogFiles) (first second : CrashCuts) :
    ∃ both, (files.cut first).cut second = files.cut both := by
  refine ⟨⟨fun id => min (second.segment id) (first.segment id),
    fun id => le_min (second.header id) (first.header id),
    fun id => min (second.index id) (first.index id)⟩, ?_⟩
  simp only [LogFiles.cut, take_take]

variable {log later : SegmentedLog} {envelope : MessageEnvelope}

/-- An append that succeeds had the next offset or changes nothing. -/
theorem appendCommitted_cases (appended : log.appendCommitted legacy envelope = .ok later) :
    later = log ∨ envelope.offset = log.nextOffset := by
  rw [SegmentedLog.appendCommitted] at appended
  split at appended
  · obtain ⟨existing, -, appended⟩ := bind_eq_ok.mp appended
    left
    cases existing <;>
    · obtain ⟨stored, -, appended⟩ := bind_eq_ok.mp appended
      obtain ⟨checksum, -, appended⟩ := bind_eq_ok.mp appended
      obtain ⟨done, -, appended⟩ := bind_eq_ok.mp appended
      exact (Except.ok.inj appended).symm
  · obtain ⟨done, here, -⟩ := bind_eq_ok.mp appended
    exact .inr (ensure_eq_ok.mp here)

/-- Appending an envelope that can be read back. -/
theorem Orderly.appendCommitted (orderly : Orderly stream partition log)
    (storable : envelope.Storable) (own : envelope.stream = stream ∧ envelope.partition = partition)
    (room : log.nextOffset < u64Max)
    (short : log.activeBytes + (frame envelope.body).length < 2 ^ 64)
    (appended : log.appendCommitted legacy envelope = .ok later) :
    Orderly stream partition later := by
  obtain ⟨⟨image, persisted, indexed⟩, sameStream, samePartition⟩ := orderly
  rcases appendCommitted_cases appended with rfl | here
  · exact ⟨⟨image, persisted, indexed⟩, sameStream, samePartition⟩
  · let record : StoredEnvelope := ⟨envelope, storable⟩
    have next : record.offset = log.nextOffset := here
    have done : log.appendCommitted legacy record.toMessageEnvelope = .ok (log.added record) :=
      indexed.holds.appendCommitted next room
    rw [show log.appendCommitted legacy record.toMessageEnvelope = .ok later from appended] at done
    cases done
    refine ⟨⟨_, persisted, indexed.added ?_ next room ?_⟩, ?_, ?_⟩
    · rw [sameStream, samePartition]
      exact own
    · rw [← batchOf_length]
      exact short
    · rw [added_stream, sameStream]
    · rw [added_partition, samePartition]

/-- Opening what a crash has left of a log. -/
theorem Orderly.opened (orderly : Orderly stream partition log) {cuts : CrashCuts}
    (settled : IndexSettled (log.files.cut cuts)) :
    Invariant stream partition
      (opened legacy dir stream partition segmentBytes (log.files.cut cuts)) := by
  obtain ⟨⟨image, persisted, indexed⟩, rfl, rfl⟩ := orderly
  rw [PartitionState.opened]
  split
  · rename_i reopened rest result
    obtain ⟨kept, stream, partition⟩ := indexed.reopen result settled
    exact ⟨⟨_, persisted, kept⟩, stream, partition⟩
  · trivial

/-- Every settled action keeps the logs in order. -/
theorem next_invariant (state : PartitionState) (action : PartitionAction)
    (admitted : Settled state action) (holds : Invariant stream partition state) :
    Invariant stream partition (next legacy dir stream partition segmentBytes state action) := by
  cases state with
  | running log =>
    cases action with
    | append envelope =>
      obtain ⟨storable, room, short⟩ := admitted
      rw [next]
      split
      · rename_i own
        split
        · rename_i later appended
          exact Orderly.appendCommitted holds storable own room short appended
        · exact holds
      · exact holds
    | crash cuts => exact ⟨log, cuts, holds, rfl⟩
    | reopen => exact holds
  | stopped files =>
    obtain ⟨log, cuts, orderly, rfl⟩ := holds
    cases action with
    | append envelope => exact ⟨log, cuts, orderly, rfl⟩
    | crash again =>
      obtain ⟨both, same⟩ := cut_cut log.files cuts again
      exact ⟨log, both, orderly, same⟩
    | reopen => exact orderly.opened admitted
  | refused => cases action <;> trivial

/-- The envelopes of an empty directory: none. -/
def noEnvelopes : Image := ⟨∅, 1, [], fun _ member => absurd member not_mem_nil⟩

theorem start_invariant :
    Invariant stream partition (start legacy dir stream partition segmentBytes) := by
  have none : ∀ record, record ∉ noEnvelopes.records := fun _ => not_mem_nil
  have sound : noEnvelopes.Sound stream partition :=
    ⟨fun record member => absurd member (none record), List.Pairwise.nil,
      fun record member => absurd member (none record)⟩
  refine ⟨⟨noEnvelopes, 0, noEnvelopes.opened_holds sound dir segmentBytes false rfl rfl rfl, rfl,
    ?_, ?_, ?_, ?_⟩, rfl, rfl⟩
  · intro piece member
    rw [mem_singleton.mp member]
    decide
  · exact fun piece member => absurd member not_mem_nil
  · exact ⟨[], rfl, fun _ member => absurd member not_mem_nil, List.Pairwise.nil,
      fun _ member => absurd member not_mem_nil⟩
  · intro id beyond
    exact get?_insert_of_ne _ _ beyond.ne'

end Histories

/-- The indexes agree with the data in every history with settled openings. -/
theorem indexAgrees (legacy : Bytes → Except String MessageEnvelope) (dir : String)
    (stream : StreamId) (partition : PartitionId) (segmentBytes : ℕ) {log : SegmentedLog}
    (run : Reaches (next legacy dir stream partition segmentBytes) Settled
      (start legacy dir stream partition segmentBytes) (running log)) (target : ℕ) :
    ∃ found, scanSegments legacy target log.files.segments.entries = .ok found ∧
      log.readOffset legacy target = .ok found := by
  obtain ⟨⟨image, persisted, indexed⟩, -⟩ :=
    Reaches.invariant (Invariant stream partition) next_invariant run start_invariant
  exact indexed.agrees target

/-- A crash that loses the indexes and nothing of short segments. -/
def indexLost : CrashCuts := ⟨fun _ => 1024, fun _ => by decide, fun _ => 0⟩

theorem indexSettled_lost (files : LogFiles) : IndexSettled (files.cut indexLost) := by
  intro id file index _ _ found _
  simp only [LogFiles.cut, get?_mapValues, map_eq_some_iff] at found
  obtain ⟨whole, -, rfl⟩ := found
  have empty : loadSparseIndex (some []) = [] := by decide
  rw [show indexLost.index id = 0 from rfl, take_zero, empty]
  exact ⟨rfl, forall_mem_nil _⟩

/-- An envelope is appended, and the log is opened again after its index is lost. -/
theorem indexAgrees_reopened : ∃ log,
    [.append (envelope []), .crash indexLost, .reopen].foldl
        (next noLegacy "log" stream partition 1024) (start noLegacy "log" stream partition 1024) =
      running log ∧
      ∃ found, scanSegments noLegacy 0 log.files.segments.entries = .ok found ∧
        log.readOffset noLegacy 0 = .ok found := by
  have runs : (match next noLegacy "log" stream partition 1024
        (start noLegacy "log" stream partition 1024) (.append (envelope [])) with
      | running log =>
        (openLog noLegacy "log" stream partition 1024 (log.files.cut indexLost)).toBool
      | _ => false) = true := by
    decide +kernel
  split at runs
  · rename_i log appended
    cases opens : openLog noLegacy "log" stream partition 1024 (log.files.cut indexLost) with
    | error reason =>
      rw [opens] at runs
      cases runs
    | ok result =>
      have final : [.append (envelope []), .crash indexLost, .reopen].foldl
          (next noLegacy "log" stream partition 1024) (start noLegacy "log" stream partition 1024) =
          running result.1 := by
        rw [foldl_cons, appended, foldl_cons, foldl_cons, next, next, opened, opens, foldl_nil]
      refine ⟨result.1, final,
        indexAgrees noLegacy "log" stream partition 1024 (final ▸ Reaches.of_admits ?_) 0⟩
      refine ⟨⟨by decide +kernel, by decide +kernel, by decide +kernel⟩, trivial, ?_, trivial⟩
      rw [appended]
      exact indexSettled_lost log.files
  · cases runs

/-- A crash that keeps of the segment its header and of the index half an entry. -/
def halfEntry : CrashCuts := ⟨fun _ => segmentHeader.length, fun _ => le_rfl, fun _ => 8⟩

/-- A crash that loses nothing of short files. -/
def lossless : CrashCuts := ⟨fun _ => 1024, fun _ => by decide, fun _ => 1024⟩

/-- An entry that is written behind half of another one sends the reader to the header
of the segment. -/
theorem torn_entry_misplaces_index : ¬ IndexAgrees fun _ _ => True := by
  intro agrees
  let append : PartitionAction := .append (envelope [])
  let final := [append, .crash halfEntry, .reopen, append, .crash lossless, .reopen].foldl
    (next noLegacy "log" stream partition 1024)
    (start noLegacy "log" stream partition 1024)
  have fails : (match final with
      | running log => (log.readOffset noLegacy 0).toBool
      | _ => true) = false := by
    decide +kernel
  have run : Reaches _ _ _ final := Reaches.foldl _ _ fun _ _ _ => trivial
  cases state : final with
  | running log =>
    rw [state] at fails run
    obtain ⟨found, -, read⟩ := agrees _ _ _ _ _ log run 0
    simp only [read] at fails
    cases fails
  | stopped files =>
    rw [state] at fails
    cases fails
  | refused =>
    rw [state] at fails
    cases fails

end PartitionState

end Morrow
