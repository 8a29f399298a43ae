import Morrow.SparseIndex

/-!
# Indexes of an open log

The ranges of an open log carry the entries of the index files. Every index serves its
segment. The index of the active segment is written to, so more is asked of it: its
file holds whole entries, and all of them are positions of envelopes that are there.
-/

namespace Morrow

open ByteCodec FramedLog OrderedMap List

namespace SegmentedLog

variable {legacy : Bytes → Except String MessageEnvelope}

/-- The bytes of an index, perhaps cut off. -/
def ServingFile (records : List StoredEnvelope) (bytes : Bytes) : Prop :=
  ∃ entries, (∀ entry ∈ entries, EntryFits entry) ∧ Serves records entries ∧
    bytes <+: indexFile entries

/-- The bytes of an index whose entries all are positions in the segment. -/
structure ExactFile (records : List StoredEnvelope) (bytes : Bytes)
    (entries : List (ℕ × ℕ)) : Prop where
  file : bytes = indexFile entries
  fits : ∀ entry ∈ entries, EntryFits entry
  increasing : entries.Pairwise fun first second => first.1 < second.1
  listed : ∀ entry ∈ entries, entry ∈ table segmentHeader.length records

section Files

variable {records : List StoredEnvelope} {bytes : Bytes} {entries : List (ℕ × ℕ)}

section

variable (exactly : ExactFile records bytes entries)

include exactly

theorem ExactFile.serves : Serves records entries :=
  ⟨exactly.increasing, fun entry member => .inl (exactly.listed entry member)⟩

theorem ExactFile.serving : ServingFile records bytes :=
  ⟨entries, exactly.fits, exactly.serves, by rw [exactly.file]⟩

theorem ExactFile.load :
    loadSparseIndex (some bytes) = entries := by
  rw [exactly.file, loadSparseIndex_indexFile exactly.fits]

end

theorem ServingFile.load (serving : ServingFile records bytes) :
    Serves records (loadSparseIndex (some bytes)) := by
  obtain ⟨entries, fits, serves, part⟩ := serving
  rw [loadSparseIndex_of_cut fits part]
  exact serves.sublist (take_sublist _ _)

theorem ServingFile.of_cut (serving : ServingFile records bytes) {fewer : Bytes}
    (part : fewer <+: bytes) : ServingFile records fewer := by
  obtain ⟨entries, fits, serves, whole⟩ := serving
  exact ⟨entries, fits, serves, part.trans whole⟩

theorem ServingFile.cut {front rest : List StoredEnvelope}
    (serving : ServingFile (front ++ rest) bytes)
    (increasing : (front ++ rest).Pairwise fun first second => first.offset < second.offset) :
    ServingFile front bytes := by
  obtain ⟨entries, fits, serves, part⟩ := serving
  exact ⟨entries, fits, serves.cut increasing, part⟩

/-- An index without a torn entry and without entries behind the segment. -/
theorem ServingFile.exact (serving : ServingFile records bytes)
    (aligned : bytes.length % 16 = 0)
    (within : ∀ entry ∈ loadSparseIndex (some bytes), entry.2 < segmentEnd records) :
    ∃ entries, ExactFile records bytes entries := by
  obtain ⟨entries, fits, serves, part⟩ := serving
  rw [loadSparseIndex_of_cut fits part] at within
  have kept := serves.sublist (take_sublist (bytes.length / 16) entries)
  refine ⟨entries.take (bytes.length / 16), ?_, ?_, kept.increasing, ?_⟩
  · have split : indexFile entries = indexFile (entries.take (bytes.length / 16)) ++
        indexFile (entries.drop (bytes.length / 16)) := by
      rw [← indexFile_append, take_append_drop]
    have count : bytes.length / 16 ≤ entries.length := by
      have shorter := part.length_le
      rw [indexFile_length] at shorter
      omega
    have length : (indexFile (entries.take (bytes.length / 16))).length = bytes.length := by
      rw [indexFile_length, length_take]
      omega
    have front : indexFile (entries.take (bytes.length / 16)) <+: indexFile entries := by
      rw [split]
      exact prefix_append _ _
    exact (prefix_of_prefix_length_le part front length.ge).eq_of_length length.symm
  · exact fun entry member => fits entry (mem_of_mem_take member)
  · intro entry member
    rcases kept.placed entry member with listed | beyond
    · exact listed
    · exact absurd (within entry member) (not_lt.mpr beyond.2)

/-- A rebuilt index. -/
theorem exactFile_sparseTable
    (increasing : records.Pairwise fun first second => first.offset < second.offset)
    (bounded : ∀ record ∈ records, record.offset < u64Max)
    (short : segmentEnd records < 2 ^ 64) :
    ExactFile records (indexFile (sparseTable records)) (sparseTable records) := by
  have inside : ∀ entry ∈ sparseTable records,
      entry ∈ table segmentHeader.length records := fun entry member => mem_of_mem_filter member
  refine ⟨rfl, ?_, ?_, inside⟩
  · intro entry member
    obtain ⟨front, record, rest, rfl, offset, place⟩ := mem_table (inside entry member)
    have limit := bounded record (by simp)
    refine ⟨?_, ?_⟩
    · rw [← offset]
      exact limit.trans_le (Nat.sub_le _ _)
    · simp only [segmentEnd, encodeAll_append, length_append] at short
      omega
  · apply List.Pairwise.filter
    have offsets : ∀ position, (table position records).map Prod.fst =
        records.map (·.offset) := by
      intro position
      clear increasing bounded short inside
      induction records generalizing position with
      | nil => rfl
      | cons record records ih =>
        rw [table, map_cons, map_cons, ih]
    have sorted : ((table segmentHeader.length records).map Prod.fst).Pairwise (· < ·) := by
      rw [offsets]
      exact pairwise_map.mpr increasing
    exact pairwise_map.mp sorted

end Files

/-! ### The log and its indexes -/

/-- An open log whose ranges and indexes fit its envelopes. -/
structure Indexed (log : SegmentedLog) (image : Image) (persisted : ℕ) : Prop where
  holds : log.Holds image persisted
  ranges : log.segmentRanges = rangesOf image.pieces log.files.indexes
  short : ∀ piece ∈ image.pieces, segmentEnd piece.2 < 2 ^ 64
  serving : ∀ piece ∈ image.sealedRecords.entries, ∀ bytes,
    log.files.indexes.get? piece.1 = some bytes → ServingFile piece.2 bytes
  exactly : ∃ entries,
    ExactFile image.active ((log.files.indexes.get? image.activeId).getD []) entries
  above : ∀ id, image.activeId < id → log.files.indexes.get? id = none

/-- A full scan of the segments, in order of their numbers. -/
def scanSegments (legacy : Bytes → Except String MessageEnvelope) (target : ℕ) :
    List (ℕ × Bytes) → Outcome (Option MessageEnvelope)
  | [] => .ok none
  | (_, file) :: segments => do
    match ← readSegmentOffset legacy file target with
    | some envelope => pure (some envelope)
    | none => scanSegments legacy target segments

theorem scanSegments_pieces (target : ℕ) {pieces : List (ℕ × List StoredEnvelope)}
    (increasing : ∀ piece ∈ pieces,
      piece.2.Pairwise fun first second => first.offset < second.offset) :
    scanSegments legacy target (pieces.map fun piece => (piece.1, segmentFile piece.2 [])) =
      .ok (lookup (pieces.flatMap Prod.snd) target) := by
  induction pieces with
  | nil => rfl
  | cons piece pieces ih =>
    have rest := ih (forall_mem_cons.mp increasing).2
    rw [map_cons, scanSegments, readSegmentOffset_file (increasing piece mem_cons_self),
      flatMap_cons, lookup_append]
    cases lookup piece.2 target with
    | none =>
      exact rest
    | some envelope => rfl

section Reading

variable {log : SegmentedLog} {image : Image} {persisted : ℕ}

theorem Image.Sound.piece_increasing {stream : StreamId} {partition : PartitionId}
    (sound : image.Sound stream partition) :
    ∀ piece ∈ image.pieces, piece.2.Pairwise fun first second => first.offset < second.offset := by
  intro piece member
  have sub : piece.2.Sublist image.records := by
    rw [image.records_eq]
    exact sublist_flatten_of_mem (mem_map_of_mem member)
  exact sound.increasing.sublist sub

theorem Image.get?_files_piece {piece : ℕ × List StoredEnvelope}
    (member : piece ∈ image.pieces) :
    (image.files []).get? piece.1 = some (segmentFile piece.2 []) := by
  rcases mem_append.mp member with inSealed | last
  · exact image.get?_files_sealed inSealed []
  · rw [mem_singleton.mp last]
    exact get?_insert_self _ _ _

theorem Image.entries_pieces :
    (image.files []).entries = image.pieces.map fun piece => (piece.1, segmentFile piece.2 []) := by
  rw [image.entries_files, pieces, map_append]
  rfl

theorem Indexed.serves (indexed : log.Indexed image persisted) :
    ∀ piece ∈ image.pieces, Serves piece.2 (loadSparseIndex (log.files.indexes.get? piece.1)) := by
  intro piece member
  rcases mem_append.mp member with inSealed | last
  · cases found : log.files.indexes.get? piece.1 with
    | none => exact ⟨List.Pairwise.nil, fun _ listed => absurd listed not_mem_nil⟩
    | some bytes => exact (indexed.serving piece inSealed bytes found).load
  · rw [mem_singleton.mp last]
    obtain ⟨entries, exactly⟩ := indexed.exactly
    have same : loadSparseIndex (log.files.indexes.get? image.activeId) = entries := by
      rw [← exactly.load]
      rfl
    rw [same]
    exact exactly.serves

/-- Reading an offset finds what a full scan finds. -/
theorem Indexed.agrees (indexed : log.Indexed image persisted) (target : ℕ) :
    ∃ found, scanSegments legacy target log.files.segments.entries = .ok found ∧
      log.readOffset legacy target = .ok found := by
  have increasing := indexed.holds.sound.piece_increasing
  refine ⟨lookup (image.pieces.flatMap Prod.snd) target, ?_, ?_⟩
  · rw [indexed.holds.segments, image.entries_pieces]
    exact scanSegments_pieces target increasing
  · rw [readOffset, indexed.ranges]
    refine readRanges_pieces target ?_ increasing indexed.serves
    intro piece member
    rw [indexed.holds.segments]
    exact Image.get?_files_piece member

end Reading

/-! ### Ranges while envelopes are appended -/

section Ranges

variable {front back : List SegmentRange} {id : ℕ} {change : SegmentRange → SegmentRange}

theorem updateRange_append (absent : ∀ range ∈ front, range.id ≠ id) :
    updateRange id change (front ++ back) = front ++ updateRange id change back := by
  induction front with
  | nil => rfl
  | cons range front ih =>
    rw [cons_append, updateRange, if_neg (absent range mem_cons_self),
      ih (forall_mem_cons.mp absent).2,
      cons_append]

theorem updateRange_same {ranges : List SegmentRange}
    (same : ∀ range ∈ ranges, range.id = id → change range = range) :
    updateRange id change ranges = ranges := by
  induction ranges with
  | nil => rfl
  | cons range ranges ih =>
    rw [updateRange]
    split
    · rename_i here
      rw [same range mem_cons_self here]
    · rw [ih (forall_mem_cons.mp same).2]

/-- The range of a segment carries its number and its index. -/
theorem mem_segmentRange {envelopes : List MessageEnvelope} {index : Option Bytes}
    {range : SegmentRange} (member : range ∈ segmentRange id envelopes index) :
    range.id = id ∧ range.sparseIndex = loadSparseIndex index := by
  rw [segmentRange] at member
  split at member
  · rw [mem_singleton.mp member]
    exact ⟨rfl, rfl⟩
  · cases member

theorem mem_rangesOf {pieces : List (ℕ × List StoredEnvelope)} {indexes : OrderedMap ℕ Bytes}
    {range : SegmentRange} (member : range ∈ rangesOf pieces indexes) :
    range.id ∈ pieces.map Prod.fst ∧
      range.sparseIndex = loadSparseIndex (indexes.get? range.id) := by
  obtain ⟨piece, listed, inside⟩ := mem_flatMap.mp member
  obtain ⟨same, index⟩ := mem_segmentRange inside
  rw [same]
  exact ⟨mem_map_of_mem listed, index⟩

theorem rangesOf_pieces (image : Image) (indexes : OrderedMap ℕ Bytes) :
    rangesOf image.pieces indexes = rangesOf image.sealedRecords.entries indexes ++
      segmentRange image.activeId (residents image.active) (indexes.get? image.activeId) := by
  simp [rangesOf, Image.pieces]

theorem rangesOf_sealed_absent (image : Image) (indexes : OrderedMap ℕ Bytes) :
    ∀ range ∈ rangesOf image.sealedRecords.entries indexes, range.id ≠ image.activeId := by
  intro range member same
  exact image.active_not_sealed (same ▸ (mem_rangesOf member).1)

variable {records : List StoredEnvelope}

/-- The range of the active segment grows with an envelope, or is made for it. -/
theorem extendRange_ranges {log : SegmentedLog} {record : StoredEnvelope}
    (absent : ∀ range ∈ front, range.id ≠ log.segmentId)
    (ranges : log.segmentRanges = front ++
      segmentRange log.segmentId (residents records) (log.files.indexes.get? log.segmentId)) :
    (log.extendRange record.offset).segmentRanges = front ++
      segmentRange log.segmentId (residents (records ++ [record]))
        (log.files.indexes.get? log.segmentId) := by
  have grown : records ++ [record] ≠ [] := by simp
  rw [segmentRange_records _ grown, getLast_append_singleton]
  simp only [extendRange, ranges]
  by_cases nonempty : records = []
  · subst nonempty
    have none : ¬ (front ++ segmentRange log.segmentId (residents [])
        (log.files.indexes.get? log.segmentId)).any (·.id = log.segmentId) := by
      rw [any_eq_true]
      rintro ⟨range, member, here⟩
      rcases mem_append.mp member with inside | nowhere
      · exact absent range inside (of_decide_eq_true here)
      · cases nowhere
    rw [if_neg none]
    simp [segmentRange, residents]
  · rw [segmentRange_records _ nonempty]
    have present : (front ++ [(⟨log.segmentId, (records.head nonempty).offset,
        (records.getLast nonempty).offset,
        loadSparseIndex (log.files.indexes.get? log.segmentId)⟩ : SegmentRange)]).any
          (·.id = log.segmentId) := by
      simp
    rw [if_pos present, updateRange_append absent, updateRange, if_pos rfl,
      head_append_of_ne_nil nonempty]

/-- The range of the active segment gets another entry. -/
theorem updateRange_entry (nonempty : records ≠ []) (absent : ∀ range ∈ front, range.id ≠ id)
    {before after : Option Bytes} {entry : ℕ × ℕ}
    (loaded : loadSparseIndex after = loadSparseIndex before ++ [entry]) :
    updateRange id (fun range => { range with sparseIndex := range.sparseIndex ++ [entry] })
        (front ++ segmentRange id (residents records) before) =
      front ++ segmentRange id (residents records) after := by
  rw [updateRange_append absent, segmentRange_records _ nonempty, segmentRange_records _ nonempty,
    updateRange, if_pos rfl, loaded]

end Ranges

/-! ### Appending keeps the indexes in order -/

section Appending

variable {log : SegmentedLog} {image : Image} {persisted : ℕ} {record : StoredEnvelope}

theorem Image.rotated_pieces :
    image.rotated.pieces = image.pieces ++ [(image.activeId + 1, [])] := by
  rw [pieces, pieces, rotated, entries_insert_above image.active image.above]

theorem Indexed.sealActive (indexed : log.Indexed image persisted) :
    log.sealActive.Indexed image.rotated persisted where
  holds := indexed.holds.sealActive
  ranges := by
    have unchanged : log.sealActive.segmentRanges = log.segmentRanges := by
      apply updateRange_same
      intro range member here
      rw [indexed.ranges] at member
      rw [← here, ← (mem_rangesOf member).2]
    have pieces : rangesOf image.rotated.pieces log.files.indexes =
        rangesOf image.pieces log.files.indexes := by
      rw [Image.rotated_pieces, rangesOf, flatMap_append]
      exact append_nil _
    rw [unchanged, indexed.ranges]
    exact pieces.symm
  short := by
    rw [Image.rotated_pieces]
    exact forall_mem_concat.mpr ⟨indexed.short, show segmentEnd [] < 2 ^ 64 by decide⟩
  serving := by
    intro piece member bytes found
    simp only [Image.rotated, entries_insert_above image.active image.above] at member
    rcases mem_append.mp member with earlier | last
    · exact indexed.serving piece earlier bytes found
    · rw [mem_singleton.mp last] at found ⊢
      obtain ⟨entries, exactly⟩ := indexed.exactly
      have same : (log.files.indexes.get? image.activeId).getD [] = bytes := by
        rw [show log.files.indexes.get? image.activeId = some bytes from found]
        rfl
      rw [same] at exactly
      exact exactly.serving
  exactly := by
    have absent : log.sealActive.files.indexes.get? image.rotated.activeId = none :=
      indexed.above _ (Nat.lt_succ_self _)
    rw [absent]
    exact ⟨[], rfl, fun _ member => absurd member not_mem_nil, List.Pairwise.nil,
      fun _ member => absurd member not_mem_nil⟩
  above := fun id beyond => indexed.above id (Nat.lt_of_succ_lt beyond)

variable {records : List StoredEnvelope} {entries : List (ℕ × ℕ)}

/-- The index file with the entry of the next envelope, if it gets one. -/
theorem ExactFile.push {bytes : Bytes} (exactly : ExactFile records bytes entries)
    (increasing : (records ++ [record]).Pairwise fun first second => first.offset < second.offset)
    (offset : record.offset < 2 ^ 64) (short : segmentEnd records < 2 ^ 64) :
    ExactFile (records ++ [record]) (bytes ++ indexEntry record.offset (segmentEnd records))
      (entries ++ [(record.offset, segmentEnd records)]) where
  file := by
    rw [indexFile_append, ← exactly.file, indexFile_cons, indexFile_nil, append_nil]
  fits := by
    exact forall_mem_concat.mpr ⟨exactly.fits, offset, short⟩
  increasing := by
    rw [pairwise_append]
    refine ⟨exactly.increasing, pairwise_singleton _ _, ?_⟩
    intro entry member last only
    rw [mem_singleton.mp only]
    obtain ⟨front, earlier, rest, rfl, same, -⟩ := mem_table (exactly.listed entry member)
    rw [← same]
    exact (pairwise_append.mp increasing).2.2 earlier (by simp) record (by simp)
  listed := by
    rw [table_append]
    exact forall_mem_concat.mpr ⟨fun entry earlier =>
      mem_append_left _ (exactly.listed entry earlier),
      mem_append_right _ mem_cons_self⟩

theorem ExactFile.grow {bytes : Bytes} (exactly : ExactFile records bytes entries) :
    ExactFile (records ++ [record]) bytes entries :=
  ⟨exactly.file, exactly.fits, exactly.increasing, fun entry member => by
    rw [table_append]
    exact mem_append_left _ (exactly.listed entry member)⟩

/-- The ranges after a batch was written, before it gets its entry. -/
theorem Indexed.extended (indexed : log.Indexed image persisted) (batch : Bytes) :
    ((log.writeBatch batch).extendRange record.offset).segmentRanges =
      rangesOf image.sealedRecords.entries log.files.indexes ++
        segmentRange image.activeId (residents (image.active ++ [record]))
          (log.files.indexes.get? image.activeId) := by
  have segmentId := indexed.holds.segmentId
  have absent := rangesOf_sealed_absent image log.files.indexes
  have before : (log.writeBatch batch).segmentRanges =
      rangesOf image.sealedRecords.entries log.files.indexes ++
        segmentRange log.segmentId (residents image.active)
          (log.files.indexes.get? log.segmentId) := by
    rw [segmentId, ← rangesOf_pieces]
    exact indexed.ranges
  rw [← segmentId] at absent ⊢
  exact extendRange_ranges absent before

/-- An index file that belongs to another segment than those that are sealed. -/
theorem rangesOf_insert (image : Image) (indexes : OrderedMap ℕ Bytes) (bytes : Bytes) :
    rangesOf image.sealedRecords.entries (indexes.insert image.activeId bytes) =
      rangesOf image.sealedRecords.entries indexes := by
  apply flatMap_congr
  intro piece member
  rw [get?_insert_of_ne _ _ (image.above piece member).ne]

/-- A batch at the end of the active segment, with its entry in the index. -/
theorem Indexed.write (indexed : log.Indexed image persisted)
    (own : record.stream = log.stream ∧ record.partition = log.partition)
    (here : record.offset = log.nextOffset) (room : log.nextOffset < u64Max)
    (short : segmentEnd (image.active ++ [record]) < 2 ^ 64) :
    (((log.writeBatch (batchOf record)).extendRange record.offset).appendIndex record.offset
      log.activeBytes).Indexed (image.push record) persisted := by
  have holds := indexed.holds.write own here room
  have kept := holds.appendIndex record.offset log.activeBytes
  have pieces : ∀ piece ∈ (image.push record).pieces, segmentEnd piece.2 < 2 ^ 64 :=
    forall_mem_concat.mpr ⟨(forall_mem_concat.mp indexed.short).1, short⟩
  obtain ⟨entries, exactly⟩ := indexed.exactly
  have segmentId := indexed.holds.segmentId
  have position : log.activeBytes = segmentEnd image.active := indexed.holds.activeBytes
  have extended : ((log.writeBatch (batchOf record)).extendRange record.offset).segmentRanges =
    _ := indexed.extended (batchOf record)
  by_cases multiple : record.offset % indexStride = 0
  · have increasing := holds.sound.piece_increasing (image.activeId, image.active ++ [record])
      (mem_append_right _ mem_cons_self)
    have shortBefore : segmentEnd image.active < 2 ^ 64 :=
      indexed.short (image.activeId, image.active) (mem_append_right _ mem_cons_self)
    have pushed := exactly.push increasing record.storable.offset shortBefore
    have loaded : loadSparseIndex (some ((log.files.indexes.get? image.activeId).getD [] ++
        indexEntry record.offset (segmentEnd image.active))) =
          loadSparseIndex (log.files.indexes.get? image.activeId) ++
            [(record.offset, segmentEnd image.active)] := by
      rw [pushed.load, ← exactly.load]
      rfl
    have absent := rangesOf_sealed_absent image log.files.indexes
    have active : ((log.writeBatch (batchOf record)).extendRange record.offset).segmentId =
      image.activeId := segmentId
    have files : ((log.writeBatch (batchOf record)).extendRange record.offset).files.indexes =
      log.files.indexes := rfl
    rw [appendIndex, if_pos multiple, position] at kept ⊢
    simp only [active, files] at kept ⊢
    refine ⟨kept, ?_, pieces, ?_, ?_, ?_⟩
    · have grown : image.active ++ [record] ≠ [] := by simp
      simp only [extended, updateRange_entry grown absent loaded]
      rw [rangesOf_pieces]
      simp [Image.push, rangesOf_insert]
    · intro piece member bytes found
      simp only [get?_insert_of_ne _ _ (image.above piece member).ne] at found
      exact indexed.serving piece member bytes found
    · simp only [Image.push, get?_insert_self]
      exact ⟨_, pushed⟩
    · intro id beyond
      have other : id ≠ image.activeId := beyond.ne'
      simp only [get?_insert_of_ne _ _ other]
      exact indexed.above id beyond
  · rw [appendIndex, if_neg multiple] at kept ⊢
    exact ⟨kept, extended.trans (rangesOf_pieces (image.push record) _).symm, pieces,
      indexed.serving, ⟨entries, exactly.grow⟩, indexed.above⟩

/-- Appending keeps the indexes in order. -/
theorem Indexed.added (indexed : log.Indexed image persisted)
    (own : record.stream = log.stream ∧ record.partition = log.partition)
    (here : record.offset = log.nextOffset) (room : log.nextOffset < u64Max)
    (short : log.activeBytes + record.batchBytes < 2 ^ 64) :
    (log.added record).Indexed (imageAdded log image record) persisted := by
  rw [SegmentedLog.added, imageAdded, ready]
  split
  · refine indexed.sealActive.write own here room ?_
    have header : segmentHeader.length ≤ log.activeBytes := by
      rw [indexed.holds.activeBytes]
      exact Nat.le_add_right _ _
    have fresh : segmentEnd (image.rotated.active ++ [record]) =
        segmentHeader.length + record.batchBytes := by
      rw [segmentEnd_concat, batchOf_length]
      rfl
    omega
  · refine indexed.write own here room ?_
    rw [segmentEnd_concat, batchOf_length, ← indexed.holds.activeBytes]
    exact short

end Appending

end SegmentedLog

end Morrow
