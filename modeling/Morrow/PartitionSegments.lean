import Morrow.PartitionFiles

/-!
# What the segments of a partition log hold

A segment's file is its header, the batches of its envelopes, and perhaps something
behind them at which reading stops. Opening a directory of such segments finds the
envelopes of all of them in order. It changes nothing but the active segment, which
is cut back behind its envelopes if it is torn, and the indexes, which are rebuilt
where they are missing and where a segment was cut.
-/

namespace Morrow

open ByteCodec FramedLog OrderedMap List

namespace SegmentedLog

variable {legacy : Bytes → Except String MessageEnvelope}

/-! ### Segments -/

variable (envelope : StoredEnvelope)

/-- The batch of an envelope. -/
def batchOf : Bytes := frame envelope.body

@[simp] theorem batchOf_length :
    (batchOf envelope).length = envelope.batchBytes := frame_length _

theorem batchOf_ne_nil : batchOf envelope ≠ [] := by
  apply length_pos_iff.mp
  rw [batchOf_length, StoredEnvelope.batchBytes, batchPrefixLen]
  omega

/-- The header, the batches of the given envelopes, and what stands behind them. -/
def segmentFile (records : List StoredEnvelope) (tail : Bytes) : Bytes :=
  segmentHeader ++ (encodeAll batchOf records ++ tail)

/-- The length of a segment up to its last complete batch. -/
def segmentEnd (records : List StoredEnvelope) : ℕ :=
  segmentHeader.length + (encodeAll batchOf records).length

/-- The envelopes as they are kept in memory. -/
def residents (records : List StoredEnvelope) : List MessageEnvelope :=
  records.map fun record => record.intoResidentMetadata

@[simp] theorem residents_append (first second : List StoredEnvelope) :
    residents (first ++ second) = residents first ++ residents second := map_append

theorem segmentFile_length (records : List StoredEnvelope) (tail : Bytes) :
    (segmentFile records tail).length = segmentEnd records + tail.length := by
  simp only [segmentFile, segmentEnd, length_append]
  omega

theorem take_segmentFile (records : List StoredEnvelope) (tail : Bytes) :
    (segmentFile records tail).take (segmentEnd records) = segmentFile records [] := by
  rw [segmentFile, segmentFile, append_nil]
  exact take_left' length_append

theorem drop_header (records : List StoredEnvelope) (tail : Bytes) :
    (segmentFile records tail).drop segmentHeader.length = encodeAll batchOf records ++ tail :=
  drop_left

theorem validateSegmentHeader_file (path : String) (records : List StoredEnvelope)
    (tail : Bytes) : validateSegmentHeader path (segmentFile records tail) = .ok () := by
  have long : segmentHeader.length ≤ (segmentFile records tail).length := by
    rw [segmentFile, length_append]
    exact Nat.le_add_right _ _
  have header : (segmentFile records tail).take segmentHeader.length = segmentHeader :=
    take_left
  rw [validateSegmentHeader, ensure_of long, ok_bind, ensure_of header]

theorem segmentFile_concat (records : List StoredEnvelope) (record : StoredEnvelope) :
    segmentFile records [] ++ batchOf record = segmentFile (records ++ [record]) [] := by
  simp [segmentFile, encodeAll_append]

theorem segmentEnd_concat (records : List StoredEnvelope) (record : StoredEnvelope) :
    segmentEnd (records ++ [record]) = segmentEnd records + (batchOf record).length := by
  simp only [segmentEnd, encodeAll_append, encodeAll_cons, encodeAll_nil, length_append, append_nil]
  omega

theorem segmentFile_nil : segmentFile [] [] = segmentHeader := by
  simp [segmentFile]

/-! ### Reading a segment -/

/-- A batch is read back, whatever follows it. -/
theorem batchStep_batchOf (repairs : Bool) (record : StoredEnvelope) (rest : Bytes) :
    batchStep legacy repairs (batchOf record ++ rest) =
      .record (record.toMessageEnvelope, record.batchBytes) (batchOf record).length := by
  rw [batchStep, batchOf, record.readBatch_eq legacy rest, frame_length]
  rfl

theorem batchStep_nil (repairs : Bool) : batchStep legacy repairs [] = .ended := rfl

/-! ### Torn batches -/

section Reading

variable (legacy : Bytes → Except String MessageEnvelope)

variable {body front : Bytes}

/-- The length field of a batch, whole or torn behind it. -/
theorem bodyLen_of_front (short : body.length ≤ u32Max) (part : front <+: frame body)
    (long : 4 ≤ front.length) :
    fromLittleEndian (front.take 4) = body.length := by
  have same : front.take 4 = (frame body).take 4 := by
    obtain ⟨rest, whole⟩ := part
    rw [← whole, take_append_of_le_length long]
  rw [same, frame, take_left' (by simp),
    fromLittleEndian_of_lt (by simp only [u32Max] at short; omega)]

/-- A length field that is torn. -/
theorem readBatch_field (nonempty : front ≠ []) (short : front.length < 4) :
    ∃ message consumed, readBatch legacy front = .failed ⟨.unexpectedEof, message⟩ consumed := by
  have some : front.isEmpty = false := isEmpty_eq_false_iff.mpr nonempty
  exact ⟨_, _, by simp only [readBatch, some, if_pos short]; rfl⟩

/-- A batch within the limit that is torn. -/
theorem readBatch_torn (fits : body.length ≤ maxBatchBytes) (part : front <+: frame body)
    (strict : front.length < (frame body).length) (nonempty : front ≠ []) :
    ∃ message consumed, readBatch legacy front = .failed ⟨.unexpectedEof, message⟩ consumed := by
  by_cases long : front.length < 4
  · exact readBatch_field legacy nonempty long
  · have some : front.isEmpty = false := isEmpty_eq_false_iff.mpr nonempty
    have short : body.length ≤ u32Max := fits.trans (by decide)
    have length := bodyLen_of_front short part (Nat.le_of_not_lt long)
    rw [frame_length] at strict
    exact ⟨_, _, by
      simp only [readBatch, some, if_neg long, length, if_neg (not_lt.mpr fits), if_pos strict]
      rfl⟩

variable {legacy}

theorem batchStep_eof {rest : Bytes} {message : String} {consumed : ℕ}
    (read : readBatch legacy rest = .failed ⟨.unexpectedEof, message⟩ consumed)
    (repairs : Bool) :
    batchStep legacy repairs rest = if repairs then .torn else .corrupt message := by
  rw [batchStep, read]
  cases repairs <;> rfl

/-- A torn batch is cut off or, in a segment that may not be repaired, an error. -/
theorem batchStep_torn {record : StoredEnvelope} (part : front <+: batchOf record)
    (strict : front.length < (batchOf record).length) (nonempty : front ≠ []) (repairs : Bool) :
    ∃ message, batchStep legacy repairs front = if repairs then .torn else .corrupt message := by
  obtain ⟨message, consumed, read⟩ :=
    readBatch_torn legacy record.storable.fits part strict nonempty
  exact ⟨message, batchStep_eof read repairs⟩

end Reading
section Scanning

variable {stream : StreamId} {partition : PartitionId} {records : List StoredEnvelope}

/-- The envelopes belong to the partition. -/
def Own (stream : StreamId) (partition : PartitionId) (records : List StoredEnvelope) : Prop :=
  ∀ record ∈ records, record.stream = stream ∧ record.partition = partition

theorem collectBatch_own (own : Own stream partition records) :
    ∀ record ∈ records, ∀ envelopes,
      collectBatch stream partition envelopes (record.toMessageEnvelope, record.batchBytes) =
        .ok (envelopes ++ [record.intoResidentMetadata]) := by
  intro record member envelopes
  rw [collectBatch, ensure_of (own record member)]
  rfl

theorem foldl_residents (records : List StoredEnvelope) (envelopes : List MessageEnvelope) :
    records.foldl (fun envelopes record => envelopes ++ [record.intoResidentMetadata]) envelopes =
      envelopes ++ residents records := by
  induction records generalizing envelopes with
  | nil => exact (append_nil _).symm
  | cons record records ih =>
    rw [foldl_cons, ih, append_assoc]
    rfl

/-- The bound on the number of batches is large enough for those that are there. -/
theorem enough_batches (records : List StoredEnvelope) (tail : Bytes) :
    ∃ bound, (encodeAll batchOf records ++ tail).length + 1 = records.length + (bound + 1) := by
  have fewer := length_le_encodeAll batchOf_ne_nil records
  refine ⟨(encodeAll batchOf records ++ tail).length - records.length, ?_⟩
  rw [length_append]
  omega

/-- Replaying goes through the batches and on behind them. -/
theorem replaySegment_file (own : Own stream partition records) (path : String) (active : Bool)
    (tail : Bytes) :
    ∃ bound, replaySegment legacy stream partition path active (segmentFile records tail) =
      scan (batchStep legacy active) (fun _ => .error s!"corrupt partition-log segment {path}")
        (collectBatch stream partition) (bound + 1) tail (segmentEnd records)
        (residents records) := by
  obtain ⟨bound, enough⟩ := enough_batches records tail
  refine ⟨bound, ?_⟩
  simp only [replaySegment, drop_header, enough]
  rw [scan_records (fun record _ => batchStep_batchOf active record) (collectBatch_own own),
    foldl_residents]
  rfl

variable {active torn : Bool} {tail : Bytes}

/-- Replaying a segment whose batches are followed by bytes at which it stops. -/
theorem replaySegment_stop (own : Own stream partition records) (path : String)
    (stops : batchStep legacy active tail = if torn then .torn else .ended) :
    replaySegment legacy stream partition path active (segmentFile records tail) =
      .ok ⟨residents records, segmentEnd records, torn⟩ := by
  obtain ⟨bound, replayed⟩ := replaySegment_file own path active tail
  rw [replayed, scan, stops]
  cases torn <;> rfl

/-- Replaying a segment whose batches are followed by something invalid. -/
theorem replaySegment_corrupt (own : Own stream partition records) (path : String)
    {message : String} (invalid : batchStep legacy active tail = .corrupt message) :
    replaySegment legacy stream partition path active (segmentFile records tail) =
      .error (.error s!"corrupt partition-log segment {path}") := by
  obtain ⟨bound, replayed⟩ := replaySegment_file own path active tail
  rw [replayed, scan, invalid]

/-! ### Rebuilding an index -/

/-- The offsets of a segment and the positions of their batches. -/
def table (position : ℕ) : List StoredEnvelope → List (ℕ × ℕ)
  | [] => []
  | record :: records => (record.offset, position) :: table (position + record.batchBytes) records

/-- The file of an index. -/
def indexFile (entries : List (ℕ × ℕ)) : Bytes :=
  entries.flatMap fun entry => indexEntry entry.1 entry.2

/-- The entries that belong in the index of a segment. -/
def sparseTable (records : List StoredEnvelope) : List (ℕ × ℕ) :=
  (table segmentHeader.length records).filter fun entry => entry.1 % indexStride = 0

/-- What a rebuilt index comes to with one more envelope. -/
def indexStep (index : ℕ × Bytes) (record : StoredEnvelope) : ℕ × Bytes :=
  (index.1 + record.batchBytes,
    if record.offset % indexStride = 0 then index.2 ++ indexEntry record.offset index.1
    else index.2)

theorem indexBatch_own (own : Own stream partition records) :
    ∀ record ∈ records, ∀ index,
      indexBatch stream partition index (record.toMessageEnvelope, record.batchBytes) =
        .ok (indexStep index record) := by
  intro record member index
  obtain ⟨sameStream, samePartition⟩ := own record member
  simp only [indexBatch, indexStep, sameStream, samePartition, true_and]
  split <;> rfl

theorem foldl_indexStep (records : List StoredEnvelope) (position : ℕ) (entries : Bytes) :
    (records.foldl indexStep (position, entries)).2 =
      entries ++ indexFile ((table position records).filter fun entry =>
        entry.1 % indexStride = 0) := by
  induction records generalizing position entries with
  | nil => exact (append_nil _).symm
  | cons record records ih =>
    rw [foldl_cons, indexStep, ih]
    by_cases multiple : record.offset % indexStride = 0
    · simp [table, indexFile, multiple]
    · simp [table, multiple]

/-- The index of a segment holds the positions of its envelopes. -/
theorem rebuildIndex_file (own : Own stream partition records) (path : String) :
    rebuildIndex legacy stream partition path (segmentFile records []) =
      .ok (indexFile (sparseTable records)) := by
  obtain ⟨bound, enough⟩ := enough_batches records []
  simp only [rebuildIndex, drop_header, enough]
  rw [scan_records (fun record _ => batchStep_batchOf false record) (indexBatch_own own), scan,
    batchStep_nil, ok_bind]
  simp only [foldl_indexStep]
  rfl

/-! ### Opening segments -/

theorem tail_of_ended {repairs : Bool} (ended : batchStep legacy repairs tail = .ended) :
    tail = [] := by
  simp only [batchStep] at ended
  split at ended
  · rename_i finished
    unfold readBatch at finished
    split at finished
    · rename_i empty
      exact isEmpty_iff.mp empty
    · split at finished
      · cases finished
      · simp only at finished
        split at finished
        · cases finished
        · split at finished
          · cases finished
          · split at finished
            · cases finished
            · split at finished <;> cases finished
  · cases ended
  · split at ended <;> cases ended

/-- The index of a segment after opening. -/
def openedIndex (torn : Bool) (index : Option Bytes) (records : List StoredEnvelope) : Bytes :=
  if torn then indexFile (sparseTable records)
  else index.getD (indexFile (sparseTable records))

/-- Opening a segment at whose end reading stops. -/
theorem openSegment_stop (own : Own stream partition records) (dir : String)
    (stops : batchStep legacy active tail = if torn then .torn else .ended) (progress : Progress)
    (id : ℕ) :
    openSegment legacy dir stream partition active progress id (segmentFile records tail) =
      .ok {
        files := { progress.files with
          segments := progress.files.segments.insert id (segmentFile records [])
          indexes := progress.files.indexes.insert id
            (openedIndex torn (progress.files.indexes.get? id) records) }
        envelopes := progress.envelopes ++ residents records
        ranges := progress.ranges ++ segmentRange id (residents records)
          (some (openedIndex torn (progress.files.indexes.get? id) records))
        truncations := progress.truncations + if torn then 1 else 0 } := by
  have repaired : (if torn then (segmentFile records tail).take (segmentEnd records)
      else segmentFile records tail) = segmentFile records [] := by
    cases torn with
    | true => exact take_segmentFile records tail
    | false => rw [if_neg Bool.false_ne_true, tail_of_ended stops]
  simp only [openSegment, replaySegment_stop own _ stops, ok_bind, repaired, rebuildIndex_file own]
  cases progress.files.indexes.get? id with
  | none => cases torn <;> rfl
  | some index => cases torn <;> rfl

end Scanning

/-- Opening goes through the segments one after the other. -/
theorem openSegments_append (dir : String) (stream : StreamId) (partition : PartitionId)
    (activeId : ℕ) (first second : List (ℕ × Bytes)) (progress : Progress) :
    openSegments legacy dir stream partition activeId (first ++ second) progress =
      openSegments legacy dir stream partition activeId first progress >>=
        openSegments legacy dir stream partition activeId second := by
  induction first generalizing progress with
  | nil => rfl
  | cons entry first ih =>
    simp [openSegments, ih]

variable {partition : PartitionId} {id : ℕ}

/-- If all segments were opened, so was each of them. -/
theorem openSegments_each {dir : String} {stream : StreamId} {activeId : ℕ}
    {entries : List (ℕ × Bytes)} {progress result : Progress}
    (opened : openSegments legacy dir stream partition activeId entries progress = .ok result)
    {file : Bytes} (member : (id, file) ∈ entries) :
    ∃ before after,
      openSegment legacy dir stream partition (id = activeId) before id file = .ok after := by
  induction entries generalizing progress with
  | nil => cases member
  | cons entry entries ih =>
    obtain ⟨next, first, rest⟩ := bind_eq_ok.mp opened
    rcases mem_cons.mp member with rfl | later
    · exact ⟨progress, next, first⟩
    · exact ih rest later

/-! ### Directories -/

/-- The envelopes of a directory: those of the sealed segments, and those of the active
one above them. -/
structure Image where
  sealedRecords : OrderedMap ℕ (List StoredEnvelope)
  activeId : ℕ
  active : List StoredEnvelope
  above : ∀ entry ∈ sealedRecords.entries, entry.1 < activeId

namespace Image

variable (image : Image)

/-- The envelopes of all segments, oldest first. -/
def records : List StoredEnvelope := image.sealedRecords.entries.flatMap Prod.snd ++ image.active

/-- The files of the sealed segments. -/
def sealedFiles : OrderedMap ℕ Bytes :=
  image.sealedRecords.mapValues fun _ records => segmentFile records []

variable (tail : Bytes)

/-- The files of all segments, with something behind the batches of the active one. -/
def files : OrderedMap ℕ Bytes :=
  image.sealedFiles.insert image.activeId (segmentFile image.active tail)

theorem entries_files :
    (image.files tail).entries =
      image.sealedRecords.entries.map (fun entry => (entry.1, segmentFile entry.2 [])) ++
        [(image.activeId, segmentFile image.active tail)] := by
  apply entries_insert_above
  intro entry member
  obtain ⟨source, listed, rfl⟩ := mem_map.mp member
  exact image.above source listed

theorem lastKey_files : (image.files tail).lastKey? = some image.activeId := by
  rw [OrderedMap.lastKey?, OrderedMap.keys, entries_files, map_append]
  exact List.getLast?_concat

/-- The envelopes are those of the partition, in the order of their offsets. No append
at the largest word returns. -/
structure Sound (stream : StreamId) (partition : PartitionId) : Prop where
  own : Own stream partition image.records
  increasing : image.records.Pairwise fun first second => first.offset < second.offset
  bounded : ∀ record ∈ image.records, record.offset < u64Max

end Image

/-- The indexes after the sealed segments were opened. -/
def openedIndexes (pieces : List (ℕ × List StoredEnvelope)) (indexes : OrderedMap ℕ Bytes) :
    OrderedMap ℕ Bytes :=
  pieces.foldl (fun map piece =>
    map.insert piece.1 (openedIndex false (map.get? piece.1) piece.2)) indexes

/-- The ranges of segments with their indexes. -/
def rangesOf (pieces : List (ℕ × List StoredEnvelope)) (indexes : OrderedMap ℕ Bytes) :
    List SegmentRange :=
  pieces.flatMap fun piece => segmentRange piece.1 (residents piece.2) (indexes.get? piece.1)

theorem openedIndexes_other {pieces : List (ℕ × List StoredEnvelope)}
    (absent : id ∉ pieces.map Prod.fst) (indexes : OrderedMap ℕ Bytes) :
    (openedIndexes pieces indexes).get? id = indexes.get? id := by
  induction pieces generalizing indexes with
  | nil => rfl
  | cons piece pieces ih =>
    rw [map_cons, mem_cons, not_or] at absent
    rw [openedIndexes, foldl_cons, ← openedIndexes, ih absent.2, get?_insert_of_ne _ _ absent.1]

theorem openedIndexes_of_mem {pieces : List (ℕ × List StoredEnvelope)}
    (distinct : (pieces.map Prod.fst).Nodup) {records : List StoredEnvelope}
    (member : (id, records) ∈ pieces) (indexes : OrderedMap ℕ Bytes) :
    (openedIndexes pieces indexes).get? id =
      some (openedIndex false (indexes.get? id) records) := by
  induction pieces generalizing indexes with
  | nil => cases member
  | cons piece pieces ih =>
    rw [map_cons, nodup_cons] at distinct
    rw [openedIndexes, foldl_cons, ← openedIndexes]
    rcases mem_cons.mp member with rfl | later
    · rw [openedIndexes_other distinct.1, get?_insert_self]
    · rw [ih distinct.2 later, get?_insert_of_ne]
      rintro rfl
      exact distinct.1 (mem_map.mpr ⟨_, later, rfl⟩)

theorem insert_same {map : OrderedMap ℕ Bytes} {file : Bytes} (found : map.get? id = some file) :
    map.insert id file = map := by
  apply ext_get?
  intro tested
  rw [get?_insert]
  split
  · rename_i same
    rw [same, found]
  · rfl

/-- Opening sealed segments finds their envelopes and leaves their files alone. -/
theorem openSegments_sealed {stream : StreamId} (dir : String) (activeId : ℕ)
    (pieces : List (ℕ × List StoredEnvelope)) (distinct : (pieces.map Prod.fst).Nodup)
    (own : ∀ piece ∈ pieces, Own stream partition piece.2) (progress : Progress)
    (stored : ∀ piece ∈ pieces,
      progress.files.segments.get? piece.1 = some (segmentFile piece.2 [])) :
    openSegments legacy dir stream partition activeId
        (pieces.map fun piece => (piece.1, segmentFile piece.2 [])) progress =
      .ok {
        files := { progress.files with
          indexes := openedIndexes pieces progress.files.indexes }
        envelopes := progress.envelopes ++ residents (pieces.flatMap Prod.snd)
        ranges := progress.ranges ++ rangesOf pieces (openedIndexes pieces progress.files.indexes)
        truncations := progress.truncations } := by
  induction pieces generalizing progress with
  | nil => simp [openSegments, residents, rangesOf, openedIndexes]
  | cons piece pieces ih =>
    obtain ⟨id, records⟩ := piece
    have here : (openedIndexes ((id, records) :: pieces) progress.files.indexes).get? id =
        some (openedIndex false (progress.files.indexes.get? id) records) :=
      openedIndexes_of_mem distinct mem_cons_self _
    rw [map_cons, nodup_cons] at distinct
    have ended : batchStep legacy (decide (id = activeId)) [] =
      if false then .torn else .ended := rfl
    have first := openSegment_stop (own (id, records) mem_cons_self) dir ended progress id
    have kept := insert_same (stored (id, records) mem_cons_self)
    simp only [map_cons, openSegments, first, kept, ok_bind]
    rw [ih distinct.2 (forall_mem_cons.mp own).2]
    · simp only [rangesOf, flatMap_cons, here, residents_append, append_assoc]
      rfl
    · exact (forall_mem_cons.mp stored).2

/-! ### Opening a directory -/

namespace Image

variable (image : Image)

/-- The envelopes of each segment. -/
def pieces : List (ℕ × List StoredEnvelope) :=
  image.sealedRecords.entries ++ [(image.activeId, image.active)]

theorem records_eq : image.records = image.pieces.flatMap Prod.snd := by
  simp [records, pieces]

theorem active_not_sealed : image.activeId ∉ image.sealedRecords.entries.map Prod.fst := by
  intro member
  obtain ⟨entry, listed, same⟩ := mem_map.mp member
  exact (image.above entry listed).ne same

theorem get?_files_sealed {piece : ℕ × List StoredEnvelope}
    (member : piece ∈ image.sealedRecords.entries) (tail : Bytes) :
    (image.files tail).get? piece.1 = some (segmentFile piece.2 []) := by
  have found : image.sealedRecords.get? piece.1 = some piece.2 := mem_entries.mp member
  rw [files, get?_insert_of_ne _ _ (image.above piece member).ne, sealedFiles,
    get?_mapValues, found]
  rfl

/-- The indexes after the directory was opened. -/
def indexes (torn : Bool) (before : OrderedMap ℕ Bytes) : OrderedMap ℕ Bytes :=
  (openedIndexes image.sealedRecords.entries before).insert image.activeId
    (openedIndex torn (before.get? image.activeId) image.active)

/-- Opening the segments of a directory. -/
theorem openSegments_files {stream : StreamId} {partition : PartitionId}
    (sound : image.Sound stream partition) (dir : String) {tail : Bytes} {torn : Bool}
    (stops : batchStep legacy true tail = if torn then .torn else .ended) {files : LogFiles}
    (segments : files.segments = image.files tail) :
    openSegments legacy dir stream partition image.activeId files.segments.entries
        ⟨files, [], [], 0⟩ =
      .ok {
        files := { files with
          segments := image.files []
          indexes := image.indexes torn files.indexes }
        envelopes := residents image.records
        ranges := rangesOf image.pieces (image.indexes torn files.indexes)
        truncations := if torn then 1 else 0 } := by
  have ownSealed := fun piece member record inside => sound.own record (mem_append_left _
    (mem_flatMap.mpr ⟨piece, member, inside⟩))
  have ownActive : Own stream partition image.active :=
    fun record inside => sound.own record (mem_append_right _ inside)
  have distinct : (image.sealedRecords.entries.map Prod.fst).Nodup :=
    image.sealedRecords.keys_increasing.imp fun below => below.ne
  have stored : ∀ piece ∈ image.sealedRecords.entries,
      files.segments.get? piece.1 = some (segmentFile piece.2 []) := by
    intro piece member
    rw [segments]
    exact image.get?_files_sealed member tail
  have untouched := openedIndexes_other image.active_not_sealed files.indexes
  have ranges : rangesOf image.pieces (image.indexes torn files.indexes) =
      rangesOf image.sealedRecords.entries
          (openedIndexes image.sealedRecords.entries files.indexes) ++
        segmentRange image.activeId (residents image.active)
          (some (openedIndex torn (files.indexes.get? image.activeId) image.active)) := by
    simp only [rangesOf, pieces, flatMap_append, flatMap_cons, flatMap_nil,
      append_nil, indexes, get?_insert_self]
    congr 1
    apply flatMap_congr
    intro piece member
    rw [get?_insert_of_ne _ _ (image.above piece member).ne]
  rw [segments, image.entries_files, openSegments_append,
    openSegments_sealed dir image.activeId _ distinct ownSealed _ stored]
  simp only [openSegments, decide_true, openSegment_stop ownActive dir stops, ok_bind, untouched,
    ranges, Nat.zero_add, records, residents_append, segments, Image.files, insert_insert]
  rfl

end Image

end SegmentedLog

end Morrow
