import Morrow.PartitionRecovery

/-!
# Reading offsets through a sparse index

An index may be incomplete, and it may reach beyond the segment it belongs to. It
serves as long as its entries are in increasing order and each is either the position
of one of the segment's envelopes or lies behind all of them. An offset of the segment
is then found from any entry that is not above it.
-/

namespace Morrow

open ByteCodec FramedLog List Option

namespace SegmentedLog

variable {legacy : Bytes → Except String MessageEnvelope}

/-! ### Index files -/

theorem indexEntry_length (offset position : ℕ) : (indexEntry offset position).length = 16 := by
  simp [indexEntry]

@[simp] theorem indexFile_nil : indexFile [] = [] := rfl

@[simp] theorem indexFile_cons (entry : ℕ × ℕ) (entries : List (ℕ × ℕ)) :
    indexFile (entry :: entries) = indexEntry entry.1 entry.2 ++ indexFile entries := rfl

theorem indexFile_append (first second : List (ℕ × ℕ)) :
    indexFile (first ++ second) = indexFile first ++ indexFile second := flatMap_append

theorem indexFile_length (entries : List (ℕ × ℕ)) :
    (indexFile entries).length = 16 * entries.length := by
  induction entries with
  | nil => rfl
  | cons entry entries ih =>
    rw [indexFile_cons, length_append, indexEntry_length, length_cons]
    omega

/-- The words of an entry are not cut off in its file. -/
def EntryFits (entry : ℕ × ℕ) : Prop := entry.1 < 2 ^ 64 ∧ entry.2 < 2 ^ 64

/-- Reading an entry that stands in front of others. -/
theorem indexEntries_cons {entry : ℕ × ℕ} (fits : EntryFits entry) (count : ℕ) (rest : Bytes) :
    indexEntries (count + 1) (indexEntry entry.1 entry.2 ++ rest) =
      entry :: indexEntries count rest := by
  have offset : fromLittleEndian ((indexEntry entry.1 entry.2 ++ rest).take 8) = entry.1 := by
    rw [indexEntry, append_assoc, take_left' (littleEndian_length 8 _)]
    exact fromLittleEndian_of_lt (by norm_num; exact fits.1)
  have position :
      fromLittleEndian (((indexEntry entry.1 entry.2 ++ rest).drop 8).take 8) = entry.2 := by
    rw [indexEntry, append_assoc, drop_left' (littleEndian_length 8 _),
      take_left' (littleEndian_length 8 _)]
    exact fromLittleEndian_of_lt (by norm_num; exact fits.2)
  rw [indexEntries, offset, position, drop_left' (indexEntry_length _ _)]

variable {entries : List (ℕ × ℕ)}

/-- A file that was cut holds the entries that are complete. -/
theorem loadSparseIndex_of_cut (fits : ∀ entry ∈ entries, EntryFits entry) {bytes : Bytes}
    (part : bytes <+: indexFile entries) :
    loadSparseIndex (some bytes) = entries.take (bytes.length / 16) := by
  rw [loadSparseIndex, getD_some]
  induction entries generalizing bytes with
  | nil =>
    obtain rfl : bytes = [] := prefix_nil.mp part
    rfl
  | cons entry entries ih =>
    by_cases short : bytes.length < 16
    · rw [Nat.div_eq_of_lt short]
      rfl
    · have front : indexEntry entry.1 entry.2 <+: bytes := by
        apply prefix_of_prefix_length_le (prefix_append _ _) part
        rw [indexEntry_length]
        omega
      obtain ⟨rest, rfl⟩ := front
      have part : rest <+: indexFile entries := (prefix_append_right_inj _).mp part
      have count : (indexEntry entry.1 entry.2 ++ rest).length / 16 = rest.length / 16 + 1 := by
        rw [length_append, indexEntry_length]
        omega
      rw [count, indexEntries_cons (fits entry mem_cons_self), take_succ_cons,
        ih (forall_mem_cons.mp fits).2 part]

theorem loadSparseIndex_indexFile (fits : ∀ entry ∈ entries, EntryFits entry) :
    loadSparseIndex (some (indexFile entries)) = entries := by
  rw [loadSparseIndex_of_cut fits (prefix_refl _), indexFile_length,
    Nat.mul_div_cancel_left _ (by decide), take_length]

/-! ### Positions -/

variable {records : List StoredEnvelope}

/-- The entries of a segment's table are where its batches begin. -/
theorem mem_table {position : ℕ} {entry : ℕ × ℕ} (member : entry ∈ table position records) :
    ∃ front record rest, records = front ++ record :: rest ∧ record.offset = entry.1 ∧
      entry.2 = position + (encodeAll batchOf front).length := by
  induction records generalizing position with
  | nil => cases member
  | cons first records ih =>
    rcases mem_cons.mp member with rfl | later
    · exact ⟨[], first, records, rfl, rfl, rfl⟩
    · obtain ⟨front, record, rest, rfl, offset, place⟩ := ih later
      refine ⟨first :: front, record, rest, rfl, offset, ?_⟩
      rw [encodeAll_cons, length_append, batchOf_length]
      omega

theorem table_append (position : ℕ) (first second : List StoredEnvelope) :
    table position (first ++ second) =
      table position first ++ table (position + (encodeAll batchOf first).length) second := by
  induction first generalizing position with
  | nil => rfl
  | cons record first ih =>
    rw [cons_append, table, table, ih, cons_append, encodeAll_cons,
      length_append, batchOf_length, Nat.add_assoc]

theorem drop_position (front rest : List StoredEnvelope) :
    (segmentFile (front ++ rest) []).drop
        (segmentHeader.length + (encodeAll batchOf front).length) = encodeAll batchOf rest := by
  rw [segmentFile, append_nil, encodeAll_append, ← append_assoc]
  exact drop_left' (by rw [length_append])

/-! ### Indexes that serve a segment -/

/-- The entry lies behind all envelopes of the segment. -/
def Beyond (records : List StoredEnvelope) (entry : ℕ × ℕ) : Prop :=
  (∀ record ∈ records, record.offset < entry.1) ∧ segmentEnd records ≤ entry.2

/-- The entries may be used for the segment. -/
structure Serves (records : List StoredEnvelope) (entries : List (ℕ × ℕ)) : Prop where
  increasing : entries.Pairwise fun first second => first.1 < second.1
  placed : ∀ entry ∈ entries, entry ∈ table segmentHeader.length records ∨ Beyond records entry

theorem Serves.sublist {fewer : List (ℕ × ℕ)} (serves : Serves records entries)
    (sub : fewer.Sublist entries) : Serves records fewer :=
  ⟨serves.increasing.sublist sub, fun entry member => serves.placed entry (sub.subset member)⟩

/-- The entries still serve when the segment loses envelopes at its end. -/
theorem Serves.cut {front rest : List StoredEnvelope} (serves : Serves (front ++ rest) entries)
    (increasing : (front ++ rest).Pairwise fun first second => first.offset < second.offset) :
    Serves front entries := by
  refine ⟨serves.increasing, ?_⟩
  intro entry member
  rcases serves.placed entry member with listed | beyond
  · rw [table_append] at listed
    rcases mem_append.mp listed with kept | lost
    · exact .inl kept
    · right
      obtain ⟨before, record, after, rfl, offset, place⟩ := mem_table lost
      constructor
      · intro earlier inside
        rw [← offset]
        exact (pairwise_append.mp increasing).2.2 earlier inside record (by simp)
      · rw [place]
        exact Nat.le_add_right _ _
  · refine .inr ⟨fun record inside => beyond.1 record (mem_append_left _ inside), ?_⟩
    have less : segmentEnd front ≤ segmentEnd (front ++ rest) := by
      simp only [segmentEnd, encodeAll_append, length_append]
      omega
    exact less.trans beyond.2

/-! ### Looking for an offset -/

/-- The envelope at an offset. -/
def lookup (records : List StoredEnvelope) (target : ℕ) : Option MessageEnvelope :=
  (records.find? fun record => record.offset = target).map (·.toMessageEnvelope)

theorem lookup_cons (record : StoredEnvelope) (records : List StoredEnvelope) (target : ℕ) :
    lookup (record :: records) target =
      if record.offset = target then some record.toMessageEnvelope else lookup records target := by
  by_cases same : record.offset = target
  · simp [lookup, same]
  · simp [lookup, same]

theorem lookup_append (first second : List StoredEnvelope) (target : ℕ) :
    lookup (first ++ second) target = (lookup first target).or (lookup second target) := by
  rw [lookup, List.find?_append, map_or]
  rfl

variable {target : ℕ}

theorem lookup_eq_none (absent : ∀ record ∈ records, record.offset ≠ target) :
    lookup records target = none := by
  rw [lookup, map_eq_none_iff, List.find?_eq_none]
  intro record member same
  exact absent record member (of_decide_eq_true same)

/-- Going from batch to batch finds the offset, or that it is not there. -/
theorem seekOffset_records
    (increasing : records.Pairwise fun first second => first.offset < second.offset) (target : ℕ)
    {bound : ℕ} (enough : records.length < bound) :
    seekOffset legacy target bound (encodeAll batchOf records) = .ok (lookup records target) := by
  induction records generalizing bound with
  | nil =>
    cases bound with
    | zero => exact absurd enough (Nat.not_lt_zero _)
    | succ bound => rfl
  | cons record records ih =>
    rw [length_cons] at enough
    cases bound with
    | zero => exact absurd enough (Nat.not_lt_zero _)
    | succ bound =>
      rw [pairwise_cons] at increasing
      have read : readBatch legacy (encodeAll batchOf (record :: records)) =
          .batch record.toMessageEnvelope record.batchBytes := by
        rw [encodeAll_cons, batchOf, record.readBatch_eq legacy]
      have rest : (encodeAll batchOf (record :: records)).drop record.batchBytes =
          encodeAll batchOf records := by
        exact drop_left' (batchOf_length record)
      rw [seekOffset, read, lookup_cons]
      simp only [rest]
      by_cases same : record.offset = target
      · rw [if_pos same, if_pos same]
      · rw [if_neg same, if_neg same]
        by_cases above : target < record.offset
        · rw [if_pos above, lookup_eq_none]
          intro later member
          exact (above.trans (increasing.1 later member)).ne'
        · rw [if_neg above]
          exact ih increasing.2 (by omega)

theorem records_length_le (records : List StoredEnvelope) :
    records.length < (segmentFile records []).length + 1 := by
  have fewer := length_le_encodeAll batchOf_ne_nil records
  rw [segmentFile_length, segmentEnd]
  omega

/-- A full scan of a segment. -/
theorem readSegmentOffset_file
    (increasing : records.Pairwise fun first second => first.offset < second.offset) (target : ℕ) :
    readSegmentOffset legacy (segmentFile records []) target = .ok (lookup records target) := by
  have long : segmentHeader.length ≤ (segmentFile records []).length := by
    rw [segmentFile, length_append]
    exact Nat.le_add_right _ _
  rw [readSegmentOffset, ensure_of long, ok_bind, drop_header, append_nil]
  exact seekOffset_records increasing target (records_length_le records)

/-- Where an index sends a reader: to an envelope before which the offset is not found,
or to nowhere. -/
theorem indexedPosition_serves (serves : Serves records entries)
    (reached : ∃ record ∈ records, target ≤ record.offset) :
    ∃ front rest, records = front ++ rest ∧
      (indexedPosition entries target).getD segmentHeader.length =
        segmentHeader.length + (encodeAll batchOf front).length ∧
      (front = [] ∨ ∃ record after, rest = record :: after ∧ record.offset ≤ target) := by
  rw [indexedPosition]
  cases found : (entries.takeWhile fun entry => entry.1 ≤ target).getLast? with
  | none => exact ⟨[], records, rfl, rfl, .inl rfl⟩
  | some entry =>
    have inside := mem_of_getLast? found
    have member : entry ∈ entries := (takeWhile_sublist _).subset inside
    have below : entry.1 ≤ target := by
      have admitted := mem_takeWhile_imp inside
      exact of_decide_eq_true admitted
    rcases serves.placed entry member with listed | beyond
    · obtain ⟨front, record, rest, rfl, offset, place⟩ := mem_table listed
      exact ⟨front, record :: rest, rfl, place, .inr ⟨record, rest, rfl, offset ▸ below⟩⟩
    · obtain ⟨record, held, atMost⟩ := reached
      have above := beyond.1 record held
      omega

/-- Reading an offset of a segment through an index that serves it. -/
theorem readRange_serves {dir : String} {files : LogFiles} {range : SegmentRange}
    (stored : files.segments.get? range.id = some (segmentFile records []))
    (increasing : records.Pairwise fun first second => first.offset < second.offset)
    (serves : Serves records range.sparseIndex)
    (reached : ∃ record ∈ records, target ≤ record.offset) :
    readRange legacy dir files range target = .ok (lookup records target) := by
  obtain ⟨front, rest, rfl, position, start⟩ := indexedPosition_serves serves reached
  have few : rest.length < (segmentFile (front ++ rest) []).length + 1 := by
    have all := records_length_le (front ++ rest)
    rw [length_append] at all
    omega
  have skipped : lookup (front ++ rest) target = lookup rest target := by
    rw [lookup_append, lookup_eq_none, none_or]
    intro record member
    rcases start with rfl | ⟨first, after, rfl, below⟩
    · cases member
    · have before := (pairwise_append.mp increasing).2.2 record member first
        mem_cons_self
      omega
  simp only [readRange, stored, validateSegmentHeader_file, ok_bind, position, drop_position]
  rw [seekOffset_records (pairwise_append.mp increasing).2.1 target few, skipped]

/-! ### Looking through all segments -/

/-- The range of a segment with envelopes goes from the first to the last of them. -/
theorem segmentRange_records (id : ℕ) (nonempty : records ≠ []) (index : Option Bytes) :
    segmentRange id (residents records) index =
      [⟨id, (records.head nonempty).offset, (records.getLast nonempty).offset,
        loadSparseIndex index⟩] := by
  have first : (residents records).head? = some (records.head nonempty).intoResidentMetadata := by
    rw [residents, List.head?_map, List.head?_eq_some_head nonempty]
    rfl
  have last : (residents records).getLast? =
      some (records.getLast nonempty).intoResidentMetadata := by
    rw [residents, List.getLast?_map, List.getLast?_eq_some_getLast nonempty]
    rfl
  rw [segmentRange, first, last]
  rfl

variable {record : StoredEnvelope}

theorem offset_le_getLast
    (increasing : records.Pairwise fun first second => first.offset < second.offset)
    (nonempty : records ≠ []) (member : record ∈ records) :
    record.offset ≤ (records.getLast nonempty).offset := by
  have whole := dropLast_append_getLast nonempty
  rw [← whole] at increasing member
  rcases mem_append.mp member with earlier | last
  · exact ((pairwise_append.mp increasing).2.2 record earlier _ (by simp)).le
  · rw [mem_singleton.mp last]

theorem head_le_offset
    (increasing : records.Pairwise fun first second => first.offset < second.offset)
    (nonempty : records ≠ []) (member : record ∈ records) :
    (records.head nonempty).offset ≤ record.offset := by
  cases records with
  | nil => exact absurd rfl nonempty
  | cons first rest =>
    rcases mem_cons.mp member with rfl | later
    · exact le_rfl
    · exact ((pairwise_cons.mp increasing).1 record later).le

/-- Reading through the ranges of segments whose indexes serve them. -/
theorem readRanges_pieces {dir : String} {files : LogFiles} {indexes : OrderedMap ℕ Bytes}
    (target : ℕ) {pieces : List (ℕ × List StoredEnvelope)}
    (stored : ∀ piece ∈ pieces, files.segments.get? piece.1 = some (segmentFile piece.2 []))
    (increasing : ∀ piece ∈ pieces,
      piece.2.Pairwise fun first second => first.offset < second.offset)
    (serves : ∀ piece ∈ pieces, Serves piece.2 (loadSparseIndex (indexes.get? piece.1))) :
    readRanges legacy dir files target (rangesOf pieces indexes) =
      .ok (lookup (pieces.flatMap Prod.snd) target) := by
  induction pieces with
  | nil => rfl
  | cons piece pieces ih =>
    obtain ⟨id, records⟩ := piece
    have rest := ih
      (forall_mem_cons.mp stored).2
      (forall_mem_cons.mp increasing).2
      (forall_mem_cons.mp serves).2
    have sorted := increasing (id, records) mem_cons_self
    simp only at sorted
    rw [rangesOf, flatMap_cons, flatMap_cons, ← rangesOf, lookup_append]
    simp only
    by_cases nonempty : records = []
    · subst nonempty
      exact rest
    · rw [segmentRange_records id nonempty, singleton_append, readRanges]
      simp only
      split
      · -- The offset is not in the range, so the segment has no envelope for it.
        have absent : lookup records target = none := by
          apply lookup_eq_none
          intro record member same
          have least := head_le_offset sorted nonempty member
          have most := offset_le_getLast sorted nonempty member
          omega
        rw [rest, absent, none_or]
      · have reached : ∃ record ∈ records, target ≤ record.offset :=
          ⟨records.getLast nonempty, getLast_mem nonempty, by omega⟩
        rw [readRange_serves (stored (id, records) mem_cons_self) sorted
          (serves (id, records) mem_cons_self) reached, ok_bind]
        cases lookup records target with
        | none =>
          exact rest
        | some envelope => rfl

end SegmentedLog

end Morrow
