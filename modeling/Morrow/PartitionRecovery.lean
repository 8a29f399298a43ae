import Morrow.PartitionSegments

/-!
# Opening a partition log and appending to it

An open log holds the envelopes of its directory and knows the offset behind them.
Appending an envelope at this offset puts it behind the others, in the active segment
or in a new one. Opening the directory again finds all of them.
-/

namespace Morrow

open ByteCodec FramedLog OrderedMap List

namespace SegmentedLog

variable {legacy : Bytes → Except String MessageEnvelope}

/-! ### Opening -/

variable {directory : LogFiles}

theorem installPendingRewrite_unmarked (unmarked : directory.rewriteMarker = none) :
    directory.installPendingRewrite = .ok directory := by
  rw [LogFiles.installPendingRewrite, LogFiles.installOperations, unmarked]
  rfl

theorem installPendingSegmentCompaction_unmarked (uncompacted : directory.compactionMarker = none) :
    directory.installPendingSegmentCompaction = directory := by
  rw [LogFiles.installPendingSegmentCompaction, uncompacted]

namespace Image

variable (image : Image)

/-- The log that opening a directory gives. -/
def opened (dir : String) (stream : StreamId) (partition : PartitionId) (segmentBytes : ℕ)
    (torn : Bool) (persisted : ℕ) (directory : LogFiles) : SegmentedLog where
  files := { directory with
    segments := image.files []
    indexes := image.indexes torn directory.indexes }
  dir := dir
  stream := stream
  partition := partition
  segmentId := image.activeId
  activeBytes := segmentEnd image.active
  segmentBytes := segmentBytes
  nextOffset := nextOffsetOf persisted (residents image.records)
  segmentRanges := rangesOf image.pieces (image.indexes torn directory.indexes)

/-- Opening a directory gives its envelopes, without what is torn at its end. -/
theorem openLog_files {stream : StreamId} {partition : PartitionId}
    (sound : image.Sound stream partition) (dir : String) (segmentBytes : ℕ) {tail : Bytes}
    {torn : Bool} (stops : batchStep legacy true tail = if torn then .torn else .ended)
    {directory : LogFiles} (segments : directory.segments = image.files tail)
    (unmarked : directory.rewriteMarker = none) (uncompacted : directory.compactionMarker = none)
    {persisted : ℕ} (retention : directory.readRetentionOffset = .ok persisted) :
    openLog legacy dir stream partition segmentBytes directory =
      .ok (image.opened dir stream partition segmentBytes torn persisted directory,
        residents image.records, if torn then 1 else 0) := by
  have installed := installPendingRewrite_unmarked unmarked
  have compacted := installPendingSegmentCompaction_unmarked uncompacted
  have present : directory.withFirstSegment = directory := by
    rw [LogFiles.withFirstSegment, segments, image.entries_files]
    simp
  have last : directory.segments.lastKey?.getD 1 = image.activeId := by
    rw [segments, image.lastKey_files]
    rfl
  have increasing : (residents image.records).Pairwise (·.offset < ·.offset) :=
    pairwise_map.mpr sound.increasing
  have sorted : (residents image.records).insertionSort (fun first second =>
      first.offset ≤ second.offset) = residents image.records :=
    (increasing.imp (·.le)).insertionSort_eq
  have active : ((image.files []).get? image.activeId).getD [] = segmentFile image.active [] := by
    rw [Image.files, get?_insert_self]
    rfl
  simp only [openLog, installed, ok_bind, compacted, present, last,
    image.openSegments_files sound dir stops segments, sorted, ensure_of increasing]
  have floor : LogFiles.readRetentionOffset { directory with
      segments := image.files []
      indexes := image.indexes torn directory.indexes } = .ok persisted := retention
  rw [floor, active, segmentFile_length]
  rfl

end Image

/-- If a directory was opened, each of its segments was replayed. -/
theorem openLog_each {dir : String} {stream : StreamId} {partition : PartitionId} {segmentBytes : ℕ}
    {result : SegmentedLog × List MessageEnvelope × ℕ} (unmarked : directory.rewriteMarker = none)
    (uncompacted : directory.compactionMarker = none)
    (opened : openLog legacy dir stream partition segmentBytes directory = .ok result) {id : ℕ}
    {file : Bytes} (found : directory.segments.get? id = some file) :
    ∃ scanned, replaySegment legacy stream partition (segmentPath dir id)
      (id = directory.segments.lastKey?.getD 1) file = .ok scanned := by
  have installed := installPendingRewrite_unmarked unmarked
  have compacted := installPendingSegmentCompaction_unmarked uncompacted
  have listed : (id, file) ∈ directory.segments.entries := mem_entries.mpr found
  have present : directory.withFirstSegment = directory := by
    rw [LogFiles.withFirstSegment, if_neg]
    rw [List.isEmpty_iff]
    exact List.ne_nil_of_mem listed
  rw [openLog, installed, ok_bind, compacted, present] at opened
  obtain ⟨progress, segments, -⟩ := bind_eq_ok.mp opened
  obtain ⟨before, after, here⟩ := openSegments_each segments listed
  obtain ⟨scanned, replayed, -⟩ := bind_eq_ok.mp here
  exact ⟨scanned, replayed⟩

/-! ### Appending -/

namespace Image

variable (image : Image) (record : StoredEnvelope)

/-- One more envelope in the active segment. -/
def push : Image := { image with active := image.active ++ [record] }

/-- The active segment is sealed and a new one started. -/
def rotated : Image where
  sealedRecords := image.sealedRecords.insert image.activeId image.active
  activeId := image.activeId + 1
  active := []
  above := by
    intro entry member
    rw [entries_insert_above image.active image.above, mem_append, mem_singleton] at member
    rcases member with earlier | rfl
    · exact Nat.lt_succ_of_lt (image.above entry earlier)
    · exact Nat.lt_succ_self _

theorem push_records :
    (image.push record).records = image.records ++ [record] := by
  simp [records, push]

theorem rotated_records : image.rotated.records = image.records := by
  simp [records, rotated, entries_insert_above image.active image.above]

theorem push_files :
    (image.files []).modify image.activeId (· ++ batchOf record) =
      (image.push record).files [] := by
  simp only [OrderedMap.modify, files, get?_insert_self, insert_insert, segmentFile_concat]
  rfl

theorem rotated_files :
    (image.files []).insert (image.activeId + 1) segmentHeader = image.rotated.files [] := by
  rw [files, files, sealedFiles, sealedFiles, rotated, mapValues_insert, segmentFile_nil]

/-- The next segment number is free. -/
theorem get?_files_above (tail : Bytes) : (image.files tail).get? (image.activeId + 1) = none := by
  rw [files, get?_insert_of_ne _ _ (by omega), sealedFiles,
    get?_mapValues, Option.map_eq_none_iff, Option.eq_none_iff_forall_ne_some]
  intro records listed
  have below := image.above _ (mem_entries.mpr listed)
  omega

end Image

/-- An open log and the envelopes of its directory. -/
structure Holds (log : SegmentedLog) (image : Image) (persisted : ℕ) : Prop where
  segments : log.files.segments = image.files []
  unmarked : log.files.rewriteMarker = none
  uncompacted : log.files.compactionMarker = none
  retention : log.files.readRetentionOffset = .ok persisted
  segmentId : log.segmentId = image.activeId
  activeBytes : log.activeBytes = segmentEnd image.active
  sound : image.Sound log.stream log.partition
  next : log.nextOffset = nextOffsetOf persisted (residents image.records)

section Appending

variable {log : SegmentedLog} {image : Image} {persisted : ℕ} {record : StoredEnvelope}

theorem nextOffsetOf_concat (persisted : ℕ) (records : List StoredEnvelope)
    (bounded : record.offset < u64Max) :
    nextOffsetOf persisted (residents (records ++ [record])) =
      max persisted (record.offset + 1) := by
  have last : (residents (records ++ [record])).getLast? = some record.intoResidentMetadata := by
    rw [residents_append]
    exact List.getLast?_concat
  rw [nextOffsetOf, last]
  simp only [MessageEnvelope.intoResidentMetadata_offset, saturatingSucc_of_lt bounded]

variable {partition : PartitionId} {stream : StreamId}

theorem Image.Sound.below
    (sound : image.Sound stream partition) (member : record ∈ image.records) (persisted : ℕ) :
    record.offset < nextOffsetOf persisted (residents image.records) := by
  have increasing := sound.increasing
  have bounded := sound.bounded
  rcases eq_nil_or_concat image.records with empty | ⟨front, last, whole⟩
  · rw [empty] at member
    cases member
  · rw [whole, concat_eq_append] at member increasing bounded ⊢
    have within : last.offset < u64Max := bounded last (by simp)
    rw [nextOffsetOf_concat persisted front within]
    rcases mem_append.mp member with earlier | same
    · have before := (pairwise_append.mp increasing).2.2 record earlier last (by simp)
      omega
    · rw [mem_singleton.mp same]
      omega

/-- The log after a rotation. -/
def sealActive (log : SegmentedLog) : SegmentedLog :=
  { log with
    files := { log.files with
      segments := log.files.segments.insert (log.segmentId + 1) segmentHeader }
    segmentRanges := updateRange log.segmentId (fun range =>
      { range with sparseIndex := loadSparseIndex (log.files.indexes.get? log.segmentId) })
      log.segmentRanges
    segmentId := log.segmentId + 1
    activeBytes := segmentHeader.length }

/-- The log that is ready for a batch. -/
def ready (log : SegmentedLog) (bytes : ℕ) : SegmentedLog :=
  if log.Rotates bytes then log.sealActive else log

/-- The log with an envelope at its end. -/
def added (log : SegmentedLog) (record : StoredEnvelope) : SegmentedLog :=
  let log := log.ready (batchOf record).length
  ((log.writeBatch (batchOf record)).extendRange record.offset).appendIndex record.offset
    log.activeBytes

theorem Holds.free (holds : log.Holds image persisted) :
    log.files.segments.get? (log.segmentId + 1) = none := by
  rw [holds.segments, holds.segmentId]
  exact image.get?_files_above []

/-- What an append at the next offset does. -/
theorem appendCommitted_eq_ok {later : SegmentedLog} {envelope : MessageEnvelope}
    (here : envelope.offset = log.nextOffset) :
    log.appendCommitted legacy envelope = .ok later ↔
      ∃ batch, encodeBatch envelope = .ok batch ∧
        (log.Rotates batch.length → log.files.segments.get? (log.segmentId + 1) = none) ∧
        log.nextOffset < u64Max ∧
        later = (((log.ready batch.length).writeBatch batch).extendRange
          envelope.offset).appendIndex envelope.offset (log.ready batch.length).activeBytes := by
  have notBelow : ¬ envelope.offset < log.nextOffset := by omega
  simp only [SegmentedLog.appendCommitted, if_neg notBelow, ensure_of here, ok_bind]
  cases encoded : encodeBatch envelope with
  | error message => exact ⟨nofun, nofun⟩
  | ok batch =>
    have sameRoom : log.sealActive.nextOffset = log.nextOffset := rfl
    have rotated : log.rotate = (ensure (log.files.segments.get? (log.segmentId + 1) = none)
      s!"creating partition-log segment {segmentPath log.dir (log.segmentId + 1)}" >>=
        fun _ => .ok log.sealActive) := rfl
    by_cases room : log.nextOffset < u64Max <;> by_cases rotates : log.Rotates batch.length <;>
      by_cases free : log.files.segments.get? (log.segmentId + 1) = none <;>
      simp [ready, rotated, ensure, rotates, free, room, sameRoom, bind, Except.bind, pure,
        Except.pure, eq_comm]

theorem Holds.appendCommitted (holds : log.Holds image persisted)
    (here : record.offset = log.nextOffset) (room : log.nextOffset < u64Max) :
    log.appendCommitted legacy record.toMessageEnvelope = .ok (log.added record) :=
  (appendCommitted_eq_ok here).mpr ⟨_, encodeBatch_short record.storable.short,
    fun _ => holds.free, room, rfl⟩

/-! ### What the log holds afterwards -/

theorem Holds.sealActive (holds : log.Holds image persisted) :
    log.sealActive.Holds image.rotated persisted where
  segments := by
    simp only [SegmentedLog.sealActive, holds.segments, holds.segmentId]
    exact image.rotated_files
  unmarked := holds.unmarked
  uncompacted := holds.uncompacted
  retention := holds.retention
  segmentId := congrArg (· + 1) holds.segmentId
  activeBytes := rfl
  sound := by
    have sound := holds.sound
    exact ⟨image.rotated_records ▸ sound.own, image.rotated_records ▸ sound.increasing,
      image.rotated_records ▸ sound.bounded⟩
  next := by
    rw [image.rotated_records]
    exact holds.next

theorem Holds.appendIndex (holds : log.Holds image persisted) (offset position : ℕ) :
    (log.appendIndex offset position).Holds image persisted := by
  unfold SegmentedLog.appendIndex
  split
  · exact ⟨holds.segments, holds.unmarked, holds.uncompacted, holds.retention, holds.segmentId,
      holds.activeBytes, holds.sound, holds.next⟩
  · exact holds

/-- An envelope at the next offset belongs behind the others. -/
theorem Image.Sound.push
    (sound : image.Sound stream partition)
    (own : record.stream = stream ∧ record.partition = partition)
    (here : record.offset = nextOffsetOf persisted (residents image.records))
    (bounded : record.offset < u64Max) : (image.push record).Sound stream partition := by
  have parts : ∀ other ∈ (image.push record).records, other ∈ image.records ∨ other = record := by
    intro other member
    rw [image.push_records] at member
    exact (mem_append.mp member).imp_right mem_singleton.mp
  refine ⟨?_, ?_, ?_⟩
  · intro other member
    rcases parts other member with earlier | rfl
    · exact sound.own other earlier
    · exact own
  · rw [image.push_records, pairwise_append]
    refine ⟨sound.increasing, pairwise_singleton _ _, ?_⟩
    intro earlier member last only
    rw [mem_singleton.mp only, here]
    exact sound.below member persisted
  · intro other member
    rcases parts other member with earlier | rfl
    · exact sound.bounded other earlier
    · exact bounded

theorem Holds.write (holds : log.Holds image persisted)
    (own : record.stream = log.stream ∧ record.partition = log.partition)
    (here : record.offset = log.nextOffset) (room : log.nextOffset < u64Max) :
    ((log.writeBatch (batchOf record)).extendRange record.offset).Holds (image.push record)
      persisted where
  segments := by
    simp only [extendRange, writeBatch, holds.segments, holds.segmentId]
    exact image.push_files record
  unmarked := holds.unmarked
  uncompacted := holds.uncompacted
  retention := holds.retention
  segmentId := holds.segmentId
  activeBytes := by
    have bytes := segmentEnd_concat image.active record
    simp only [extendRange, writeBatch, holds.activeBytes]
    exact bytes.symm
  sound := by
    have next := holds.next
    exact holds.sound.push own (here.trans next) (here ▸ room)
  next := by
    have next := holds.next
    have atLeast : persisted ≤ log.nextOffset := by
      rw [next, nextOffsetOf]
      split
      · exact le_rfl
      · exact le_max_left _ _
    rw [image.push_records, nextOffsetOf_concat persisted image.records (here ▸ room)]
    simp only [extendRange, writeBatch]
    omega

/-- The envelopes of the log after an append. -/
def imageAdded (log : SegmentedLog) (image : Image) (record : StoredEnvelope) : Image :=
  (if log.Rotates (batchOf record).length then image.rotated else image).push record

theorem imageAdded_records (log : SegmentedLog) (image : Image) (record : StoredEnvelope) :
    (imageAdded log image record).records = image.records ++ [record] := by
  rw [imageAdded, Image.push_records]
  split
  · rw [Image.rotated_records]
  · rfl

theorem Holds.added (holds : log.Holds image persisted)
    (own : record.stream = log.stream ∧ record.partition = log.partition)
    (here : record.offset = log.nextOffset) (room : log.nextOffset < u64Max) :
    (log.added record).Holds (imageAdded log image record) persisted := by
  rw [SegmentedLog.added, imageAdded, ready]
  split
  · exact (holds.sealActive.write own here room).appendIndex _ _
  · exact (holds.write own here room).appendIndex _ _

@[simp] theorem added_nextOffset : (log.added record).nextOffset = log.nextOffset + 1 := by
  simp only [SegmentedLog.added, SegmentedLog.appendIndex, ready]
  split <;> split <;> rfl

@[simp] theorem added_stream : (log.added record).stream = log.stream := by
  simp only [SegmentedLog.added, SegmentedLog.appendIndex, ready]
  split <;> split <;> rfl

@[simp] theorem added_partition : (log.added record).partition = log.partition := by
  simp only [SegmentedLog.added, SegmentedLog.appendIndex, ready]
  split <;> split <;> rfl

/-- A directory is opened as the log it was left by. -/
theorem Holds.openLog (holds : log.Holds image persisted) (dir : String) (segmentBytes : ℕ) :
    openLog legacy dir log.stream log.partition segmentBytes log.files =
      .ok (image.opened dir log.stream log.partition segmentBytes false persisted log.files,
        residents image.records, 0) :=
  image.openLog_files holds.sound dir segmentBytes rfl holds.segments holds.unmarked
    holds.uncompacted holds.retention

/-- An opened log holds the envelopes it was opened with. -/
theorem Image.opened_holds
    (sound : image.Sound stream partition) (dir : String) (segmentBytes : ℕ) (torn : Bool)
    {directory : LogFiles} (unmarked : directory.rewriteMarker = none)
    (uncompacted : directory.compactionMarker = none)
    (retention : directory.readRetentionOffset = .ok persisted) :
    (image.opened dir stream partition segmentBytes torn persisted directory).Holds image
      persisted :=
  ⟨rfl, unmarked, uncompacted, retention, rfl, rfl, sound, rfl⟩

end Appending

/-! ### An empty log -/

namespace Sample

def stream : StreamId := ⟨"orders", validStreamName_orders⟩

def partition : PartitionId := ⟨0, PartitionId.zero_bounded⟩

/-- An envelope with the given payload. -/
def envelope (payload : Bytes) : MessageEnvelope where
  nameSpace := "default"
  stream := stream
  partition := partition
  offset := 0
  subject := "orders"
  key := none
  headers := []
  timestampMs := 0
  replyTo := none
  schemaId := none
  payload := payload
  partitioningEpoch := 0
  leaderEpoch := 0
  legacySeq := 0

theorem envelope_body_length (payload : Bytes) :
    (envelope payload).body.length = (envelope []).body.length + payload.length := by
  simp only [envelope, MessageEnvelope.body, MessageEnvelope.fields, length_append,
    field_length, length_nil]
  omega

/-- No body is in the old format. -/
def noLegacy : Bytes → Except String MessageEnvelope := fun _ => .error "not a legacy body"

/-- The log that an empty directory is opened as. -/
def emptyLog : SegmentedLog where
  files := { LogFiles.fresh none with
    segments := (∅ : OrderedMap ℕ Bytes).insert 1 segmentHeader
    indexes := (∅ : OrderedMap ℕ Bytes).insert 1 [] }
  dir := "log"
  stream := stream
  partition := partition
  segmentId := 1
  activeBytes := segmentHeader.length
  segmentBytes := 1024
  nextOffset := 0
  segmentRanges := []

theorem openLog_empty : openLog noLegacy "log" stream partition 1024 (LogFiles.fresh none) =
    .ok (emptyLog, [], 0) := by
  decide +kernel

end Sample

end SegmentedLog

end Morrow
