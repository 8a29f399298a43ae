import Morrow.PartitionRecovery

/-!
# Recovery of a partition log from a torn tail

A crash leaves the active segment cut at some length. Opening the log keeps the
envelopes whose batches are complete, cuts the rest away and goes on behind them.

The writer accepts bodies up to the largest word of its length field, but the reader
refuses those over 64 MiB. One such envelope makes the whole log unreadable, whether
its batch is complete or torn behind its length field.
-/

namespace Morrow

open ByteCodec FramedLog OrderedMap List

/-- An envelope that an append accepts: its words fit their machine types, and its body
fits the length field. -/
structure AcceptedEnvelope extends MessageEnvelope where
  offsetFits : toMessageEnvelope.offset < 2 ^ 64
  timestampMsFits : toMessageEnvelope.timestampMs < 2 ^ 64
  schemaIdFits : toMessageEnvelope.schemaId.getD 0 < 2 ^ 64
  partitioningEpochFits : toMessageEnvelope.partitioningEpoch < 2 ^ 64
  leaderEpochFits : toMessageEnvelope.leaderEpoch < 2 ^ 64
  legacySeqFits : toMessageEnvelope.legacySeq < 2 ^ 64
  short : toMessageEnvelope.body.length ≤ u32Max

namespace AcceptedEnvelope

variable (envelope : AcceptedEnvelope)

/-- The batch of an envelope. -/
def batch : Bytes := frame envelope.body

/-- The reader does not refuse the envelope. -/
def Readable : Prop := envelope.body.length ≤ maxBatchBytes

/-- An envelope that is not refused can be read back. -/
def stored (readable : envelope.Readable) : StoredEnvelope where
  toMessageEnvelope := envelope.toMessageEnvelope
  storable := ⟨envelope.offsetFits, envelope.timestampMsFits, envelope.schemaIdFits,
    envelope.partitioningEpochFits, envelope.leaderEpochFits, envelope.legacySeqFits, readable⟩

/-- The envelope at another offset. -/
def at_ (offset : ℕ) (fits : offset < 2 ^ 64) :
    AcceptedEnvelope where
  toMessageEnvelope := { envelope.toMessageEnvelope with offset := offset }
  offsetFits := fits
  timestampMsFits := envelope.timestampMsFits
  schemaIdFits := envelope.schemaIdFits
  partitioningEpochFits := envelope.partitioningEpochFits
  leaderEpochFits := envelope.leaderEpochFits
  legacySeqFits := envelope.legacySeqFits
  short := by
    have short := envelope.short
    simp only [MessageEnvelope.body, MessageEnvelope.fields, length_append,
      littleEndian_length] at short ⊢
    exact short

variable {envelopes : List AcceptedEnvelope}

/-- Envelopes that can all be read back. -/
theorem exists_stored (readable : ∀ envelope ∈ envelopes, envelope.Readable) :
    ∃ records : List StoredEnvelope, records.map (·.toMessageEnvelope) =
      envelopes.map (·.toMessageEnvelope) := by
  induction envelopes with
  | nil => exact ⟨[], rfl⟩
  | cons envelope envelopes ih =>
    obtain ⟨records, same⟩ := ih (forall_mem_cons.mp readable).2
    refine ⟨envelope.stored (readable envelope mem_cons_self) :: records, ?_⟩
    rw [map_cons, same]
    rfl

end AcceptedEnvelope

/-! ### Reading batches that are too long -/

section Reading

variable (legacy : Bytes → Except String MessageEnvelope)

/-- A batch over the limit is refused once its length field is there. -/
theorem readBatch_refused {body front : Bytes} (short : body.length ≤ u32Max)
    (big : maxBatchBytes < body.length) (part : front <+: frame body) (long : 4 ≤ front.length)
    (rest : Bytes) :
    readBatch legacy (front ++ rest) =
      .failed (invalid "partition-log batch length exceeds limit") 4 := by
  have nonempty : (front ++ rest).isEmpty = false := by
    rw [isEmpty_eq_false_iff, ← length_pos_iff, length_append]
    omega
  have four : ¬ (front ++ rest).length < 4 := by
    rw [length_append]
    omega
  have length : fromLittleEndian ((front ++ rest).take 4) = body.length := by
    rw [take_append_of_le_length long]
    exact SegmentedLog.bodyLen_of_front short part long
  simp only [readBatch, nonempty, if_neg four, length, if_pos big, Bool.false_eq_true, if_false]

end Reading

/-! ### Logs that were cut -/

/-- A partition's directory with the active segment, written as given, cut at or behind
its header. -/
structure CutPartition where
  stream : StreamId
  partition : PartitionId
  sealedEnvelopes : OrderedMap ℕ (List AcceptedEnvelope)
  activeId : ℕ
  above : ∀ entry ∈ sealedEnvelopes.entries, entry.1 < activeId
  written : List AcceptedEnvelope
  own : ∀ envelope ∈ sealedEnvelopes.entries.flatMap Prod.snd ++ written,
    envelope.stream = stream ∧ envelope.partition = partition
  increasing : (sealedEnvelopes.entries.flatMap Prod.snd ++ written).Pairwise
    fun first second => first.offset < second.offset
  bounded : ∀ envelope ∈ sealedEnvelopes.entries.flatMap Prod.snd ++ written,
    envelope.offset < u64Max
  cut : ℕ
  header : SegmentedLog.segmentHeader.length ≤ cut
  floor : Option ℕ
  floorFits : floor.getD 0 < 2 ^ 64
  indexes : OrderedMap ℕ Bytes

namespace CutPartition

open SegmentedLog AcceptedEnvelope

variable (log : CutPartition)

/-- A segment as it was written. -/
def segment (envelopes : List AcceptedEnvelope) : Bytes :=
  segmentHeader ++ encodeAll AcceptedEnvelope.batch envelopes

/-- The directory after the crash. -/
def files : LogFiles where
  segments := (log.sealedEnvelopes.mapValues fun _ envelopes => segment envelopes).insert
    log.activeId ((segment log.written).take log.cut)
  indexes := log.indexes
  retentionOffset := log.floor.map (littleEndian 8)
  rewriteTmp := none
  rewriteMarker := none
  compactionTmp := none
  compactionMarker := none

/-- The envelopes whose batches lie completely before the cut. -/
def complete : List AcceptedEnvelope :=
  completeWithin AcceptedEnvelope.batch (log.cut - segmentHeader.length) log.written

/-- What the cut leaves of the batch it falls into. -/
def leftover : Bytes :=
  cutRecord AcceptedEnvelope.batch (log.cut - segmentHeader.length) log.written

/-- The envelopes that survive the crash. -/
def survivors : List AcceptedEnvelope :=
  log.sealedEnvelopes.entries.flatMap Prod.snd ++ log.complete

/-- One past the last survivor, and not below the persisted floor. -/
def next : ℕ :=
  log.survivors.getLast?.elim (log.floor.getD 0) fun last =>
    max (log.floor.getD 0) (last.offset + 1)

/-- The envelopes as they come back from opening a log. -/
def returned (envelopes : List MessageEnvelope) : List MessageEnvelope :=
  envelopes.map MessageEnvelope.intoResidentMetadata

/-- Envelopes with the offsets they get when they are appended. -/
def numbered (next : ℕ) : List AcceptedEnvelope → List MessageEnvelope
  | [] => []
  | envelope :: envelopes =>
    { envelope.toMessageEnvelope with offset := next } :: numbered (next + 1) envelopes

/-- The log opens with exactly the survivors and the offset behind them; further
envelopes are appended, and opening the log again gives the survivors and these. -/
def Recovers (legacy : Bytes → Except String MessageEnvelope) (dir : String) (segmentBytes : ℕ)
    (further : List AcceptedEnvelope) : Prop :=
  ∃ opened repairs, openLog legacy dir log.stream log.partition segmentBytes log.files =
      .ok (opened, returned (log.survivors.map (·.toMessageEnvelope)), repairs) ∧
    opened.nextOffset = log.next ∧
    ∃ later, opened.appendAll legacy (further.map (·.toMessageEnvelope)) = .ok later ∧
      ∃ reopened, openLog legacy dir log.stream log.partition segmentBytes later.files =
        .ok (reopened, returned (log.survivors.map (·.toMessageEnvelope) ++
          numbered log.next further), 0)

/-- No body is over the limit of the reader, except one that is torn within its length
field, and the offsets do not run out. -/
structure Readable (further : List AcceptedEnvelope) : Prop where
  survivors : ∀ envelope ∈ log.survivors, envelope.Readable
  torn : ∀ envelope, log.written[log.complete.length]? = some envelope →
    log.leftover.length ≤ 4 ∨ envelope.Readable
  appended : ∀ envelope ∈ further, envelope.Readable
  room : log.next + further.length ≤ u64Max

/-! ### The directory as the reader sees it -/

variable {log} {legacy : Bytes → Except String MessageEnvelope}

variable {records : List StoredEnvelope} {envelopes : List AcceptedEnvelope}

section

variable (same : records.map (·.toMessageEnvelope) = envelopes.map (·.toMessageEnvelope))

include same

theorem encodeAll_batchOf :
    encodeAll batchOf records = encodeAll AcceptedEnvelope.batch envelopes := by
  have first : encodeAll batchOf records =
      (records.map (·.toMessageEnvelope)).flatMap fun envelope => frame envelope.body := by
    rw [flatMap_map]
    rfl
  have second : encodeAll AcceptedEnvelope.batch envelopes =
      (envelopes.map (·.toMessageEnvelope)).flatMap fun envelope => frame envelope.body := by
    rw [flatMap_map]
    rfl
  rw [first, second, same]

theorem exists_source
    {record : StoredEnvelope} (member : record ∈ records) :
    ∃ envelope ∈ envelopes, envelope.toMessageEnvelope = record.toMessageEnvelope := by
  apply mem_map.mp
  rw [← same]
  exact mem_map_of_mem member

theorem segmentFile_eq
    (tail : Bytes) : segmentFile records tail = segment envelopes ++ tail := by
  rw [segmentFile, segment, encodeAll_batchOf same, append_assoc]

end

variable {envelopes : List MessageEnvelope}

theorem residents_eq
    (same : records.map (·.toMessageEnvelope) = envelopes) :
    residents records = returned envelopes := by
  rw [returned, ← same, map_map]
  rfl

/-- The active file is the complete batches and what the cut leaves of the next. -/
theorem active_eq : (segment log.written).take log.cut = segment log.complete ++ log.leftover := by
  rw [segment, take_append, take_of_length_le log.header, take_encodeAll]
  rfl

variable {envelope : AcceptedEnvelope}

theorem survivors_sublist :
    log.survivors.Sublist (log.sealedEnvelopes.entries.flatMap Prod.snd ++ log.written) :=
  List.Sublist.append (List.Sublist.refl _) (completeWithin_sublist _ _ _)

theorem own_survivors (member : envelope ∈ log.survivors) :
    envelope.stream = log.stream ∧ envelope.partition = log.partition :=
  log.own envelope (survivors_sublist.subset member)

theorem retention : log.files.readRetentionOffset = .ok (log.floor.getD 0) := by
  have fits := log.floorFits
  rw [LogFiles.readRetentionOffset, files]
  cases floor : log.floor with
  | none => rfl
  | some value =>
    rw [floor] at fits
    have length : (littleEndian 8 value).length = 8 := littleEndian_length 8 value
    simp only [Option.map_some]
    rw [fromLittleEndian_of_lt (by norm_num; exact fits)]
    rfl

/-- The survivors, if all of them can be read back. -/
structure Images (log : CutPartition) (image : Image) : Prop where
  files : log.files.segments = image.files log.leftover
  records : image.records.map (·.toMessageEnvelope) = log.survivors.map (·.toMessageEnvelope)

theorem exists_image (readable : ∀ envelope ∈ log.survivors, envelope.Readable) :
    ∃ image, Images log image := by
  have each : ∀ id, ∃ records : List StoredEnvelope, records.map (·.toMessageEnvelope) =
      ((log.sealedEnvelopes.get? id).getD []).map (·.toMessageEnvelope) := by
    intro id
    apply exists_stored
    intro envelope member
    cases found : log.sealedEnvelopes.get? id with
    | none =>
      rw [found] at member
      cases member
    | some envelopes =>
      rw [found] at member
      exact readable envelope (mem_append_left _ (mem_flatMap.mpr
        ⟨(id, envelopes), mem_entries.mpr found, member⟩))
  choose recordsOf same using each
  obtain ⟨active, sameActive⟩ : ∃ records : List StoredEnvelope,
      records.map (·.toMessageEnvelope) = log.complete.map (·.toMessageEnvelope) :=
    exists_stored fun envelope member => readable envelope (mem_append_right _ member)
  have listed : ∀ entry ∈ log.sealedEnvelopes.entries,
      (recordsOf entry.1).map (·.toMessageEnvelope) = entry.2.map (·.toMessageEnvelope) := by
    intro entry member
    have found : log.sealedEnvelopes.get? entry.1 = some entry.2 :=
      mem_entries.mp member
    rw [same, found]
    rfl
  refine ⟨{
    sealedRecords := log.sealedEnvelopes.mapValues fun id _ => recordsOf id
    activeId := log.activeId
    active := active
    above := ?_ }, ?_, ?_⟩
  · intro entry member
    obtain ⟨source, inside, rfl⟩ := mem_map.mp member
    exact log.above source inside
  · have sealedFiles : (log.sealedEnvelopes.mapValues fun id _ => recordsOf id).mapValues
        (fun _ records => segmentFile records []) =
          log.sealedEnvelopes.mapValues fun _ envelopes => segment envelopes := by
      apply ext_get?
      intro id
      simp only [get?_mapValues]
      cases found : log.sealedEnvelopes.get? id with
      | none => rfl
      | some envelopes =>
        have file := segmentFile_eq (listed (id, envelopes) (mem_entries.mpr found)) []
        rw [append_nil] at file
        exact congrArg some file
    rw [Image.files, Image.sealedFiles, sealedFiles, segmentFile_eq sameActive, ← active_eq]
    rfl
  · rw [Image.records, survivors, map_append, map_append]
    congr 1
    simp only [OrderedMap.mapValues, flatMap_map, map_flatMap]
    exact flatMap_congr listed

variable {image : Image}

/-- The survivors belong to the partition and are in order. -/
theorem Images.sound (images : Images log image) : image.Sound log.stream log.partition := by
  have increasing : (log.survivors.map (·.toMessageEnvelope)).Pairwise
      fun first second => first.offset < second.offset :=
    pairwise_map.mpr (log.increasing.sublist survivors_sublist)
  rw [← images.records, pairwise_map] at increasing
  refine ⟨?_, ?_, ?_⟩
  · intro record member
    obtain ⟨envelope, survived, same⟩ := exists_source images.records member
    rw [← same]
    exact own_survivors survived
  · exact increasing
  · intro record member
    obtain ⟨envelope, survived, same⟩ := exists_source images.records member
    rw [← same]
    exact log.bounded envelope (survivors_sublist.subset survived)

theorem Images.next (images : Images log image) :
    nextOffsetOf (log.floor.getD 0) (residents image.records) = log.next := by
  have last : (residents image.records).getLast? =
      log.survivors.getLast?.map (·.intoResidentMetadata) := by
    rw [residents_eq images.records, returned, map_map, List.getLast?_map]
    rfl
  rw [nextOffsetOf, last, CutPartition.next]
  cases found : log.survivors.getLast? with
  | none => rfl
  | some envelope =>
    have bounded : envelope.offset < u64Max :=
      log.bounded envelope (survivors_sublist.subset (mem_of_getLast? found))
    simp [saturatingSucc_of_lt bounded]

/-! ### Where reading stops -/

/-- A batch over the limit is never taken for a torn one, if more than its length field
is there. -/
theorem batchStep_refused (refused : ¬ envelope.Readable) {front : Bytes}
    (part : front <+: envelope.batch) (long : 4 < front.length) (rest : Bytes) (repairs : Bool) :
    ∃ message, batchStep legacy repairs (front ++ rest) = .corrupt message := by
  have big : maxBatchBytes < envelope.body.length := Nat.lt_of_not_le refused
  have read := readBatch_refused legacy envelope.short big part long.le rest
  have inside : ¬ (repairs = true ∧
      ((invalid "partition-log batch length exceeds limit").kind = .unexpectedEof ∨
        4 = (front ++ rest).length)) := by
    rintro ⟨-, kind | same⟩
    · cases kind
    · rw [length_append] at same
      omega
  exact ⟨_, by rw [batchStep, read]; exact if_neg inside⟩

variable (legacy) in
/-- The cut batch leaves nothing, or something that is taken for torn. -/
theorem batchStep_leftover
    (torn : ∀ envelope, log.written[log.complete.length]? = some envelope →
      log.leftover.length ≤ 4 ∨ envelope.Readable) :
    ∃ torn : Bool, batchStep legacy true log.leftover = if torn then .torn else .ended := by
  by_cases empty : log.leftover = []
  · exact ⟨false, by rw [empty]; rfl⟩
  · refine ⟨true, ?_⟩
    cases next : log.written[log.complete.length]? with
    | none => exact absurd (cutRecord_end AcceptedEnvelope.batch next) empty
    | some envelope =>
      obtain ⟨part, strict⟩ := cutRecord_next AcceptedEnvelope.batch next
      by_cases readable : envelope.Readable
      · obtain ⟨message, consumed, read⟩ := readBatch_torn legacy readable part strict empty
        exact batchStep_eof read true
      · have few := (torn envelope next).resolve_right readable
        by_cases field : log.leftover.length < 4
        · obtain ⟨message, consumed, read⟩ := readBatch_field legacy empty field
          exact batchStep_eof read true
        · have read := readBatch_refused legacy envelope.short (Nat.lt_of_not_le readable) part
            (Nat.le_of_not_lt field) []
          rw [append_nil] at read
          have whole : 4 = log.leftover.length := by omega
          rw [batchStep, show readBatch legacy log.leftover = _ from read]
          exact if_pos ⟨rfl, .inr whole⟩

/-! ### Appending to the log -/

section Appending

variable {opened : SegmentedLog} {image : Image} {persisted : ℕ} {envelope : AcceptedEnvelope}

theorem readable_at {offset : ℕ} {fits : offset < 2 ^ 64} :
    (envelope.at_ offset fits).Readable ↔ envelope.Readable := by
  simp only [AcceptedEnvelope.Readable, AcceptedEnvelope.at_, MessageEnvelope.body,
    MessageEnvelope.fields, length_append, littleEndian_length]

variable (legacy) in
/-- An envelope that can be read back is appended behind the others. -/
theorem append_readable (holds : opened.Holds image persisted)
    (own : envelope.stream = opened.stream ∧ envelope.partition = opened.partition)
    (readable : envelope.Readable) (room : opened.nextOffset < u64Max) :
    ∃ record : StoredEnvelope, record.toMessageEnvelope =
        { envelope.toMessageEnvelope with offset := opened.nextOffset } ∧
      opened.append legacy envelope.toMessageEnvelope = .ok (opened.added record) ∧
      (opened.added record).Holds (imageAdded opened image record) persisted := by
  let record := (envelope.at_ opened.nextOffset (room.trans_le (Nat.sub_le _ _))).stored
    (readable_at.mpr readable)
  have here : record.offset = opened.nextOffset := rfl
  exact ⟨record, rfl, holds.appendCommitted here room, holds.added own here room⟩

variable (legacy) in
/-- Envelopes that can be read back are appended behind the others. -/
theorem appendAll_readable (further : List AcceptedEnvelope)
    (holds : opened.Holds image persisted)
    (own : ∀ envelope ∈ further,
      envelope.stream = opened.stream ∧ envelope.partition = opened.partition)
    (readable : ∀ envelope ∈ further, envelope.Readable)
    (room : opened.nextOffset + further.length ≤ u64Max) :
    ∃ later final, opened.appendAll legacy (further.map (·.toMessageEnvelope)) = .ok later ∧
      later.Holds final persisted ∧ later.stream = opened.stream ∧
      later.partition = opened.partition ∧
      final.records.map (·.toMessageEnvelope) =
        image.records.map (·.toMessageEnvelope) ++ numbered opened.nextOffset further := by
  induction further generalizing opened image with
  | nil => exact ⟨opened, image, rfl, holds, rfl, rfl, (append_nil _).symm⟩
  | cons envelope further ih =>
    rw [length_cons] at room
    obtain ⟨record, same, appended, next⟩ := append_readable legacy holds
      (own envelope mem_cons_self) (readable envelope mem_cons_self) (by omega)
    obtain ⟨later, final, done, kept, stream, partition, records⟩ :=
      ih next
        (fun other member => by
          rw [added_stream, added_partition]
          exact own other (mem_cons_of_mem _ member))
        (forall_mem_cons.mp readable).2
        (by rw [added_nextOffset]; omega)
    rw [added_stream] at stream
    rw [added_partition] at partition
    refine ⟨later, final, ?_, kept, stream, partition, ?_⟩
    · rw [map_cons, appendAll, appended, ok_bind, done]
    · rw [records, imageAdded_records, map_append, append_assoc, added_nextOffset,
        map_singleton, same]
      rfl

/-- The log behind a batch. -/
def withBatch (log : SegmentedLog) (batch : Bytes) : SegmentedLog :=
  let ready := log.ready batch.length
  ((ready.writeBatch batch).extendRange log.nextOffset).appendIndex log.nextOffset
    ready.activeBytes

/-- What a successful append has done. -/
theorem append_ok {later : SegmentedLog} {envelope : MessageEnvelope}
    (appended : opened.append legacy envelope = .ok later) :
    ∃ batch, encodeBatch { envelope with offset := opened.nextOffset } = .ok batch ∧
      (opened.Rotates batch.length → opened.files.segments.get? (opened.segmentId + 1) = none) ∧
      opened.nextOffset < u64Max ∧ later = withBatch opened batch :=
  (appendCommitted_eq_ok rfl).mp appended

theorem withBatch_segments (log : SegmentedLog) (batch : Bytes) :
    (withBatch log batch).files.segments = (log.ready batch.length).files.segments.modify
      (log.ready batch.length).segmentId (· ++ batch) := by
  simp only [withBatch, SegmentedLog.appendIndex]
  split <;> rfl

/-- No segment loses anything to an append. -/
theorem withBatch_grows {batch : Bytes}
    (free : opened.Rotates batch.length →
      opened.files.segments.get? (opened.segmentId + 1) = none) {id : ℕ} {file : Bytes}
    (found : opened.files.segments.get? id = some file) :
    ∃ more, (withBatch opened batch).files.segments.get? id = some (file ++ more) := by
  have kept : (opened.ready batch.length).files.segments.get? id = some file := by
    rw [SegmentedLog.ready]
    split
    · rename_i rotates
      have other : id ≠ opened.segmentId + 1 := by
        rintro rfl
        rw [free rotates] at found
        cases found
      simp only [SegmentedLog.sealActive, get?_insert_of_ne _ _ other, found]
    · exact found
  rw [withBatch_segments, get?_modify]
  split
  · exact ⟨batch, by rw [kept]; rfl⟩
  · exact ⟨[], by rw [kept, append_nil]⟩

theorem withBatch_frame (log : SegmentedLog) (batch : Bytes) :
    (withBatch log batch).files.rewriteMarker = log.files.rewriteMarker ∧
      (withBatch log batch).files.compactionMarker = log.files.compactionMarker ∧
      (withBatch log batch).stream = log.stream ∧
      (withBatch log batch).partition = log.partition ∧
      (withBatch log batch).nextOffset = log.nextOffset + 1 := by
  simp only [withBatch, SegmentedLog.appendIndex, SegmentedLog.ready]
  split <;> split <;> exact ⟨rfl, rfl, rfl, rfl, rfl⟩

end Appending

/-! ### Logs that cannot be opened -/

/-- Among the batches of a segment is one that the reader refuses. -/
def Refused (stream : StreamId) (partition : PartitionId) (file : Bytes) : Prop :=
  ∃ (records : List StoredEnvelope) (envelope : AcceptedEnvelope) (front rest : Bytes),
    Own stream partition records ∧ ¬ envelope.Readable ∧ front <+: envelope.batch ∧
      4 < front.length ∧ file = segmentFile records (front ++ rest)

/-- One of the segments is refused. -/
structure Broken (stream : StreamId) (partition : PartitionId) (files : LogFiles) : Prop where
  unmarked : files.rewriteMarker = none
  uncompacted : files.compactionMarker = none
  segment : ∃ id file, files.segments.get? id = some file ∧ Refused stream partition file

section Broken

variable {stream : StreamId} {partition : PartitionId} {files : LogFiles}

theorem Refused.append {file : Bytes} (refused : Refused stream partition file) (more : Bytes) :
    Refused stream partition (file ++ more) := by
  obtain ⟨records, envelope, front, rest, own, big, part, long, rfl⟩ := refused
  refine ⟨records, envelope, front, rest ++ more, own, big, part, long, ?_⟩
  simp [segmentFile]

theorem Refused.replaySegment {file : Bytes} (refused : Refused stream partition file)
    (path : String) (active : Bool) (scanned : Scanned (List MessageEnvelope)) :
    replaySegment legacy stream partition path active file ≠ .ok scanned := by
  obtain ⟨records, envelope, front, rest, own, big, part, long, rfl⟩ := refused
  obtain ⟨message, invalid⟩ := batchStep_refused big part long rest active
  rw [replaySegment_corrupt own path invalid]
  intro replayed
  cases replayed

/-- Such a log is not opened. -/
theorem Broken.openLog (broken : Broken stream partition files) (dir : String)
    (segmentBytes : ℕ) (result : SegmentedLog × List MessageEnvelope × ℕ) :
    openLog legacy dir stream partition segmentBytes files ≠ .ok result := by
  obtain ⟨id, file, found, refused⟩ := broken.segment
  intro opened
  obtain ⟨scanned, replayed⟩ := openLog_each broken.unmarked broken.uncompacted opened found
  exact refused.replaySegment _ _ scanned replayed

/-- Appending does not mend it. -/
theorem Broken.append {log later : SegmentedLog} {envelope : MessageEnvelope}
    (broken : Broken log.stream log.partition log.files)
    (appended : log.append legacy envelope = .ok later) :
    Broken later.stream later.partition later.files := by
  obtain ⟨batch, -, free, -, rfl⟩ := append_ok appended
  obtain ⟨marker, compaction, stream, partition, -⟩ := withBatch_frame log batch
  obtain ⟨id, file, found, refused⟩ := broken.segment
  obtain ⟨more, grown⟩ := withBatch_grows free found
  refine ⟨marker.trans broken.unmarked, compaction.trans broken.uncompacted, id, file ++ more,
    grown, ?_⟩
  rw [stream, partition]
  exact refused.append more

theorem Broken.appendAll {log later : SegmentedLog} {envelopes : List MessageEnvelope}
    (broken : Broken log.stream log.partition log.files)
    (appended : log.appendAll legacy envelopes = .ok later) :
    Broken later.stream later.partition later.files := by
  induction envelopes generalizing log with
  | nil =>
    cases appended
    exact broken
  | cons envelope envelopes ih =>
    obtain ⟨next, first, rest⟩ := bind_eq_ok.mp appended
    exact ih (broken.append first) rest

/-- More than the length field of a refused batch. -/
theorem batch_long {envelope : AcceptedEnvelope} (refused : ¬ envelope.Readable) :
    4 < envelope.batch.length := by
  have big : maxBatchBytes < envelope.body.length := Nat.lt_of_not_le refused
  rw [AcceptedEnvelope.batch, frame_length]
  simp only [maxBatchBytes] at big
  omega

variable {envelopes : List AcceptedEnvelope}

section

variable (own : ∀ envelope ∈ envelopes, envelope.stream = stream ∧ envelope.partition = partition)

include own

theorem refused_torn
    (readable : ∀ envelope ∈ envelopes, envelope.Readable) {torn : AcceptedEnvelope}
    (refused : ¬ torn.Readable) {front : Bytes} (part : front <+: torn.batch)
    (long : 4 < front.length) : Refused stream partition (segment envelopes ++ front) := by
  obtain ⟨records, same⟩ := exists_stored readable
  refine ⟨records, torn, front, [], ?_, refused, part, long, ?_⟩
  · intro record member
    obtain ⟨source, inside, equal⟩ := exists_source same member
    rw [← equal]
    exact own source inside
  · rw [segmentFile_eq same, append_nil]

/-- Behind the envelopes in front of the first one that is refused comes its batch. -/
theorem refused_segment
    (unreadable : ¬ ∀ envelope ∈ envelopes, envelope.Readable) (tail : Bytes) :
    Refused stream partition (segment envelopes ++ tail) := by
  classical
  cases found : envelopes.find? (fun envelope => ¬ envelope.Readable) with
  | none => exact absurd (by simpa using found) unreadable
  | some envelope =>
    obtain ⟨refused, before, after, rfl, earlier⟩ := List.find?_eq_some_iff_append.mp found
    simp only [decide_eq_true_eq, decide_not, Bool.not_not, Bool.not_eq_true',
      decide_eq_false_iff_not]
      at refused earlier
    have torn := refused_torn (fun other member => own other (mem_append_left _ member))
      earlier refused (prefix_refl _) (batch_long refused)
    have whole := torn.append (encodeAll AcceptedEnvelope.batch after ++ tail)
    rw [segment, encodeAll_append, encodeAll_cons]
    simpa only [segment, append_assoc] using whole

end

end Broken

theorem get?_files_active :
    log.files.segments.get? log.activeId = some (segment log.complete ++ log.leftover) := by
  rw [← active_eq]
  exact get?_insert_self _ _ _

theorem own_complete : ∀ envelope ∈ log.complete,
    envelope.stream = log.stream ∧ envelope.partition = log.partition :=
  fun _ member => own_survivors (mem_append_right _ member)

/-- A log with a refused envelope among the survivors. -/
theorem broken_survivors (unreadable : ¬ ∀ envelope ∈ log.survivors, envelope.Readable) :
    Broken log.stream log.partition log.files := by
  by_cases complete : ∀ envelope ∈ log.complete, envelope.Readable
  · have earlier : ∃ entry ∈ log.sealedEnvelopes.entries,
        ¬ ∀ envelope ∈ entry.2, envelope.Readable := by
      by_contra none
      push Not at none
      apply unreadable
      intro envelope member
      rcases mem_append.mp member with inSealed | inActive
      · obtain ⟨entry, listed, inside⟩ := mem_flatMap.mp inSealed
        exact none entry listed envelope inside
      · exact complete envelope inActive
    obtain ⟨entry, listed, refused⟩ := earlier
    have found : log.sealedEnvelopes.get? entry.1 = some entry.2 :=
      mem_entries.mp listed
    have own : ∀ envelope ∈ entry.2,
        envelope.stream = log.stream ∧ envelope.partition = log.partition :=
      fun envelope inside => own_survivors (mem_append_left _ (mem_flatMap.mpr
        ⟨entry, listed, inside⟩))
    refine ⟨rfl, rfl, entry.1, segment entry.2 ++ [], ?_, refused_segment own refused []⟩
    rw [files, get?_insert_of_ne _ _ (log.above entry listed).ne, get?_mapValues, found, append_nil]
    rfl
  · exact ⟨rfl, rfl, log.activeId, _, get?_files_active,
      refused_segment own_complete complete log.leftover⟩

/-- An envelope that is refused breaks the log it is appended to. -/
theorem Broken.of_append {log later : SegmentedLog} {persisted : ℕ}
    (holds : log.Holds image persisted) (refused : ¬ envelope.Readable)
    (appended : log.append legacy envelope.toMessageEnvelope = .ok later) :
    Broken later.stream later.partition later.files := by
  obtain ⟨bytes, encoded, -, room, rfl⟩ := append_ok appended
  obtain ⟨marker, compaction, stream, partition, -⟩ := withBatch_frame log bytes
  have fits : log.nextOffset < 2 ^ 64 := room.trans_le (Nat.sub_le _ _)
  have same : bytes = (envelope.at_ log.nextOffset fits).batch := by
    have whole := encodeBatch_short (envelope.at_ log.nextOffset fits).short
    rw [show encodeBatch (envelope.at_ log.nextOffset fits).toMessageEnvelope = .ok bytes
      from encoded] at whole
    cases whole
    rfl
  have ready : ∃ image, (log.ready bytes.length).Holds image persisted ∧
      (log.ready bytes.length).stream = log.stream ∧
      (log.ready bytes.length).partition = log.partition := by
    rw [SegmentedLog.ready]
    split
    · exact ⟨_, holds.sealActive, rfl, rfl⟩
    · exact ⟨_, holds, rfl, rfl⟩
  obtain ⟨image, ready, sameStream, samePartition⟩ := ready
  refine ⟨marker.trans holds.unmarked, compaction.trans holds.uncompacted, image.activeId,
    segmentFile image.active bytes, ?_, ?_⟩
  · rw [withBatch_segments, ready.segments, ready.segmentId, get?_modify, Image.files]
    simp [segmentFile]
  · refine ⟨image.active, envelope.at_ log.nextOffset fits, bytes, [], ?_,
      readable_at.not.mpr refused, ?_, ?_, by rw [append_nil]⟩
    · rw [stream, partition, ← sameStream, ← samePartition]
      exact fun record member => ready.sound.own record (mem_append_right _ member)
    · rw [same]
    · rw [same]
      exact batch_long (readable_at.not.mpr refused)

/-- If envelopes were appended and the log can be opened again, all of them can be
read back. -/
theorem appendAll_inverse {log later : SegmentedLog} {persisted : ℕ}
    {further : List AcceptedEnvelope} (holds : log.Holds image persisted)
    (own : ∀ envelope ∈ further, envelope.stream = log.stream ∧ envelope.partition = log.partition)
    (within : log.nextOffset ≤ u64Max)
    (appended : log.appendAll legacy (further.map (·.toMessageEnvelope)) = .ok later)
    (sound : ¬ Broken later.stream later.partition later.files) :
    (∀ envelope ∈ further, envelope.Readable) ∧ log.nextOffset + further.length ≤ u64Max := by
  induction further generalizing log image with
  | nil => exact ⟨fun _ member => absurd member not_mem_nil, within⟩
  | cons envelope further ih =>
    obtain ⟨next, first, rest⟩ := bind_eq_ok.mp appended
    obtain ⟨-, -, -, room, -⟩ := append_ok first
    have readable : envelope.Readable := by
      by_contra refused
      exact sound ((Broken.of_append holds refused first).appendAll rest)
    obtain ⟨record, -, done, holds⟩ := append_readable legacy holds
      (own envelope mem_cons_self) readable room
    rw [first] at done
    cases done
    obtain ⟨others, enough⟩ := ih holds
      (fun other member => by
        rw [added_stream, added_partition]
        exact own other (mem_cons_of_mem _ member))
      (by rw [added_nextOffset]; exact room) rest
    rw [added_nextOffset] at enough
    constructor
    · exact forall_mem_cons.mpr ⟨readable, others⟩
    · rw [length_cons]
      omega

theorem appendAll_frame {log later : SegmentedLog}
    (appended : log.appendAll legacy envelopes = .ok later) :
    later.stream = log.stream ∧ later.partition = log.partition := by
  induction envelopes generalizing log with
  | nil =>
    cases appended
    exact ⟨rfl, rfl⟩
  | cons envelope envelopes ih =>
    obtain ⟨next, first, rest⟩ := bind_eq_ok.mp appended
    obtain ⟨bytes, -, -, -, rfl⟩ := append_ok first
    obtain ⟨-, -, stream, partition, -⟩ := withBatch_frame log bytes
    obtain ⟨sameStream, samePartition⟩ := ih rest
    exact ⟨sameStream.trans stream, samePartition.trans partition⟩

theorem next_le : log.next ≤ u64Max := by
  have floor := log.floorFits
  have limit : u64Max = 2 ^ 64 - 1 := rfl
  rw [next]
  cases found : log.survivors.getLast? with
  | none =>
    rw [Option.elim_none]
    omega
  | some last =>
    have bounded : last.offset < u64Max :=
      log.bounded last (survivors_sublist.subset (mem_of_getLast? found))
    rw [Option.elim_some]
    omega

/-! ### Logs with one envelope -/

open Sample (noLegacy emptyLog)

section Single

variable (envelope : AcceptedEnvelope)
  (own : envelope.stream = Sample.stream ∧ envelope.partition = Sample.partition)
  (first : envelope.offset = 0)

/-- The log with one envelope, not cut. -/
def single : CutPartition where
  stream := Sample.stream
  partition := Sample.partition
  sealedEnvelopes := ∅
  activeId := 1
  above := fun _ member => absurd member not_mem_nil
  written := [envelope]
  own := fun _ member => mem_singleton.mp member ▸ own
  increasing := pairwise_singleton _ _
  bounded := fun _ member => mem_singleton.mp member ▸ first ▸ by decide
  cut := (segment [envelope]).length
  header := by
    rw [segment, length_append]
    exact Nat.le_add_right _ _
  floor := none
  floorFits := by decide
  indexes := (withBatch emptyLog envelope.batch).files.indexes

theorem single_complete : (single envelope own first).complete = [envelope] := by
  have room : (segment [envelope]).length - segmentHeader.length = envelope.batch.length := by
    simp [segment]
  rw [complete]
  simp only [single, room]
  rw [completeWithin, if_pos le_rfl]
  rfl

theorem single_survivors : (single envelope own first).survivors = [envelope] := by
  rw [survivors, single_complete]
  rfl

theorem empty_stays (bytes : ℕ) : ¬ emptyLog.Rotates bytes := fun rotates =>
  absurd rotates.1 (Nat.lt_irrefl _)

include first in
theorem append_single : emptyLog.append noLegacy envelope.toMessageEnvelope =
    .ok (withBatch emptyLog envelope.batch) := by
  have same : { envelope.toMessageEnvelope with offset := emptyLog.nextOffset } =
      envelope.toMessageEnvelope := by
    rw [show emptyLog.nextOffset = envelope.offset from first.symm]
  rw [SegmentedLog.append, same]
  refine (appendCommitted_eq_ok first).mpr ⟨_, encodeBatch_short envelope.short,
    fun rotates => absurd rotates (empty_stays _), by decide, ?_⟩
  rw [first]
  rfl

theorem single_files :
    (single envelope own first).files = (withBatch emptyLog envelope.batch).files := by
  have segments : (withBatch emptyLog envelope.batch).files.segments =
      (∅ : OrderedMap ℕ Bytes).insert 1 (segmentHeader ++ envelope.batch) := by
    rfl
  have whole : (segment [envelope]).take (segment [envelope]).length =
      segmentHeader ++ envelope.batch := by
    rw [take_length, segment, encodeAll_cons, encodeAll_nil, append_nil]
  have others : (withBatch emptyLog envelope.batch).files = {
      LogFiles.fresh none with
      segments := (withBatch emptyLog envelope.batch).files.segments
      indexes := (withBatch emptyLog envelope.batch).files.indexes } := by
    rfl
  rw [others, segments, ← whole]
  rfl

end Single

/-- An envelope without payload. -/
def small : AcceptedEnvelope where
  toMessageEnvelope := Sample.envelope []
  offsetFits := by decide
  timestampMsFits := by decide
  schemaIdFits := by decide
  partitioningEpochFits := by decide
  leaderEpochFits := by decide
  legacySeqFits := by decide
  short := by decide +kernel

theorem small_own : small.stream = Sample.stream ∧ small.partition = Sample.partition :=
  ⟨rfl, rfl⟩

theorem small_first : small.offset = 0 := rfl

theorem small_readable : small.Readable := by
  rw [AcceptedEnvelope.Readable]
  decide +kernel

/-- An envelope whose body is over the limit of the reader. -/
def oversized : AcceptedEnvelope where
  toMessageEnvelope := Sample.envelope (List.replicate (maxBatchBytes + 1) 0)
  offsetFits := by decide
  timestampMsFits := by decide
  schemaIdFits := by decide
  partitioningEpochFits := by decide
  leaderEpochFits := by decide
  legacySeqFits := by decide
  short := by
    rw [Sample.envelope_body_length, length_replicate]
    decide

theorem oversized_refused : ¬ oversized.Readable := by
  rw [AcceptedEnvelope.Readable, oversized, Sample.envelope_body_length, length_replicate]
  decide

theorem oversized_own :
    oversized.stream = Sample.stream ∧ oversized.partition = Sample.partition := ⟨rfl, rfl⟩

theorem oversized_first : oversized.offset = 0 := rfl

/-! ### Recovery -/

variable (legacy) in
/-- The log as it is opened when all survivors can be read back and the rest is torn. -/
theorem opens (images : Images log image) (dir : String) (segmentBytes : ℕ)
    (torn : ∀ envelope, log.written[log.complete.length]? = some envelope →
      log.leftover.length ≤ 4 ∨ envelope.Readable) :
    ∃ opened repairs, openLog legacy dir log.stream log.partition segmentBytes log.files =
        .ok (opened, residents image.records, repairs) ∧
      opened.Holds image (log.floor.getD 0) ∧ opened.nextOffset = log.next ∧
      opened.stream = log.stream ∧ opened.partition = log.partition := by
  obtain ⟨cut, stops⟩ := batchStep_leftover legacy torn
  refine ⟨_, _, image.openLog_files images.sound dir segmentBytes stops images.files rfl rfl
    retention, image.opened_holds images.sound dir segmentBytes cut rfl rfl retention,
    images.next, rfl, rfl⟩

/-- Recovery keeps what it should exactly if no body is over the limit of the reader. -/
theorem recovers_iff (log : CutPartition) (legacy : Bytes → Except String MessageEnvelope)
    (dir : String) (segmentBytes : ℕ) (further : List AcceptedEnvelope)
    (own : ∀ envelope ∈ further,
      envelope.stream = log.stream ∧ envelope.partition = log.partition) :
    log.Recovers legacy dir segmentBytes further ↔ log.Readable further := by
  constructor
  · rintro ⟨opened, repairs, first, next, later, appended, reopened, second⟩
    have survivors : ∀ envelope ∈ log.survivors, envelope.Readable := by
      by_contra unreadable
      exact (broken_survivors unreadable).openLog dir segmentBytes _ first
    have torn : ∀ envelope, log.written[log.complete.length]? = some envelope →
        log.leftover.length ≤ 4 ∨ envelope.Readable := by
      intro envelope found
      by_contra refused
      rw [not_or, not_le] at refused
      have broken : Broken log.stream log.partition log.files :=
        ⟨rfl, rfl, log.activeId, _, get?_files_active, refused_torn own_complete
          (fun other member => survivors other (mem_append_right _ member)) refused.2
          (cutRecord_next AcceptedEnvelope.batch found).1 refused.1⟩
      exact broken.openLog dir segmentBytes _ first
    obtain ⟨image, images⟩ := exists_image survivors
    obtain ⟨_, _, whole, holds, -, stream, partition⟩ :=
      opens legacy images dir segmentBytes torn
    rw [first] at whole
    obtain ⟨rfl, -⟩ := Prod.mk.inj (Except.ok.inj whole)
    obtain ⟨laterStream, laterPartition⟩ := appendAll_frame appended
    have sound : ¬ Broken later.stream later.partition later.files := by
      rw [laterStream, laterPartition, stream, partition]
      exact fun broken => broken.openLog dir segmentBytes _ second
    obtain ⟨readable, room⟩ := appendAll_inverse holds
      (fun envelope member => by rw [stream, partition]; exact own envelope member)
      (next ▸ next_le) appended sound
    exact ⟨survivors, torn, readable, next ▸ room⟩
  · rintro ⟨survivors, torn, readable, room⟩
    obtain ⟨image, images⟩ := exists_image survivors
    obtain ⟨opened, repairs, first, holds, next, stream, partition⟩ :=
      opens legacy images dir segmentBytes torn
    obtain ⟨later, final, appended, kept, laterStream, laterPartition, records⟩ :=
      appendAll_readable legacy further holds
        (fun envelope member => by rw [stream, partition]; exact own envelope member)
        readable (next ▸ room)
    have second : openLog legacy dir later.stream later.partition segmentBytes later.files = _ :=
      kept.openLog dir segmentBytes
    rw [laterStream, laterPartition, stream, partition, residents_eq records, images.records,
      next] at second
    rw [residents_eq images.records] at first
    exact ⟨opened, repairs, first, next, later, appended, _, second⟩

/-- A log with two envelopes; of the second one ten bytes are left. -/
def torn : CutPartition :=
  { single small small_own small_first with
    written := [small, small.at_ 1 (by decide)]
    own := forall_mem_cons.mpr ⟨small_own, forall_mem_singleton.mpr small_own⟩
    increasing := pairwise_pair.mpr Nat.one_pos
    bounded := forall_mem_cons.mpr ⟨by decide, forall_mem_singleton.mpr (by decide)⟩
    cut := (segment [small]).length + 10
    header := by decide +kernel }

/-- The first envelope is recovered, and another one behind it. -/
theorem recovers_torn : (∀ envelope ∈ [small], envelope.stream = torn.stream ∧
      envelope.partition = torn.partition) ∧
    torn.survivors = [small] ∧ torn.leftover.length = 10 ∧
    torn.Recovers noLegacy "log" 1024 [small] := by
  have own : ∀ envelope ∈ [small], envelope.stream = torn.stream ∧
      envelope.partition = torn.partition := forall_mem_singleton.mpr small_own
  have complete : torn.complete = [small] := by
    rw [CutPartition.complete, show torn.written = [small, small.at_ 1 (by decide)] from rfl,
      completeWithin, if_pos (by decide +kernel), completeWithin, if_neg (by decide +kernel)]
  have survivors : torn.survivors = [small] := by
    rw [CutPartition.survivors, complete]
    rfl
  refine ⟨own, survivors, by decide +kernel,
    (recovers_iff torn noLegacy "log" 1024 [small] own).mpr ⟨?_, ?_, ?_, by decide +kernel⟩⟩
  · rw [survivors]
    exact forall_mem_singleton.mpr small_readable
  · rw [complete]
    rintro envelope ⟨⟩
    exact .inr small_readable
  · exact forall_mem_singleton.mpr small_readable

/-- An envelope over the limit is appended, and the log is not opened again. -/
theorem oversized_append_loses_log :
    ∃ (log : CutPartition) (written : SegmentedLog),
      openLog noLegacy "log" log.stream log.partition 1024 (LogFiles.fresh none) =
        .ok (emptyLog, [], 0) ∧
      emptyLog.append noLegacy oversized.toMessageEnvelope = .ok written ∧
      log.files = written.files ∧ ¬ log.Recovers noLegacy "log" 1024 [] := by
  refine ⟨single oversized oversized_own oversized_first, _, Sample.openLog_empty,
    append_single oversized oversized_first, single_files oversized _ _, ?_⟩
  rintro ⟨opened, repairs, first, -⟩
  have unreadable : ¬ ∀ envelope ∈ (single oversized oversized_own oversized_first).survivors,
      envelope.Readable := by
    rw [single_survivors]
    exact fun all => oversized_refused (all oversized mem_cons_self)
  exact (broken_survivors unreadable).openLog "log" 1024 _ first

end CutPartition

end Morrow
