import Morrow.WalSegment

/-!
# What a directory of segments holds

A segment's file is its header, its records, and perhaps a few bytes that are too
short for a length field. Opening a directory of such segments applies the records
of all of them in order and changes nothing; a torn record at the end of the active
segment is cut away. Appending to an open log adds the record to the directory,
provided that nothing stands between the records and the end of the active file.
-/

namespace Morrow

open ByteCodec FramedLog OrderedMap List

variable {json : WalJson}

/-! ### Segments -/

/-- The records of a segment, and the bytes behind them that do not make up a
length field. -/
structure SegmentImage (json : WalJson) where
  records : List (StoredRecord json)
  residue : Bytes
  short : residue.length < 4

variable (records : List (StoredRecord json))

/-- The header, the given records, and what stands behind them. -/
def segmentFile (tail : Bytes) : Bytes :=
  segmentHeader ++ (encodeAll StoredRecord.encode records ++ tail)

/-- The length of a segment up to its last complete record. -/
def segmentEnd : ℕ :=
  segmentHeader.length + (encodeAll StoredRecord.encode records).length

def SegmentImage.file (image : SegmentImage json) : Bytes := segmentFile image.records image.residue

/-- The decoded records. -/
def plainRecords : List WalRecord :=
  records.map StoredRecord.record

@[simp] theorem plainRecords_append (first second : List (StoredRecord json)) :
    plainRecords (first ++ second) = plainRecords first ++ plainRecords second :=
  map_append

theorem ReplayState.applyAll_append (state : ReplayState) (first second : List WalRecord) :
    state.applyAll (first ++ second) = (state.applyAll first).applyAll second :=
  foldl_append

variable (records : List (StoredRecord json))

theorem segmentEnd_concat (stored : StoredRecord json) :
    segmentEnd (records ++ [stored]) = segmentEnd records + stored.encode.length := by
  simp only [segmentEnd, encodeAll_append, encodeAll_cons, encodeAll_nil, length_append, append_nil]
  omega

theorem take_segmentFile (tail : Bytes) :
    (segmentFile records tail).take (segmentEnd records) = segmentFile records [] := by
  rw [segmentFile, segmentFile, append_nil]
  exact take_left' length_append

theorem segmentHeader_le (tail : Bytes) :
    segmentHeader.length ≤ (segmentFile records tail).length := by
  rw [segmentFile, length_append]
  omega

theorem take_header (tail : Bytes) :
    (segmentFile records tail).take segmentHeader.length = segmentHeader := take_left

theorem drop_header (tail : Bytes) :
    (segmentFile records tail).drop segmentHeader.length =
      encodeAll StoredRecord.encode records ++ tail := drop_left

/-! ### Reading a segment -/

/-- A stored record is read back and applied, whatever follows it. -/
theorem stored_readsBack (path : String) :
    ReadsBack readRecord (applyStored json path) StoredRecord.encode
      (fun stored : StoredRecord json => (stored.record.kind, stored.record.body json))
      (fun state stored => state.apply stored.record) where
  reads stored rest := readRecord_encodeRecord stored.storable.short _ rest
  applies state stored := by
    have plain : unprotectBody (stored.record.body json) = .ok (stored.record.body json) :=
      if_neg stored.storable.plain
    simp only [applyStored, plain, reported_ok, ok_bind,
      WalRecord.decodeRecord_body stored.storable, withContext_ok]
    rfl

variable (stored : StoredRecord json)

/-- No record is shorter than one whose body is a single empty text. -/
theorem StoredRecord.encode_length_ge : 13 ≤ stored.encode.length := by
  have long := stored.storable.long
  rw [StoredRecord.encode, encodeRecord_length]
  omega

theorem StoredRecord.encode_ne_nil : stored.encode ≠ [] := by
  apply length_pos_iff.mp
  have long := stored.encode_length_ge
  omega

variable {torn : Bool} {tail : Bytes}

theorem length_lt_file (tail : Bytes) :
    records.length < (encodeAll StoredRecord.encode records ++ tail).length + 1 := by
  have fewer := length_le_encodeAll StoredRecord.encode_ne_nil records
  rw [length_append]
  omega

/-- Scanning a segment whose records are followed by bytes at which the reader stops. -/
theorem scan_segment (path : String) (stops : readRecord tail = if torn then .torn else .ended)
    (state : ReplayState) (records : List (StoredRecord json)) (corrupt : String → Failure) :
    scan readRecord corrupt (applyStored json path)
        ((encodeAll StoredRecord.encode records ++ tail).length + 1)
        (encodeAll StoredRecord.encode records ++ tail) segmentHeader.length state =
      .ok ⟨state.applyAll (plainRecords records), segmentEnd records, torn⟩ := by
  have applied : records.foldl (fun state stored => state.apply stored.record) state =
      state.applyAll (plainRecords records) := foldl_map.symm
  rw [(stored_readsBack path).scan_stop records (length_lt_file records tail) stops, applied]
  rfl

variable (dir : String)

/-- What replaying a segment does when the bytes behind its records end it, or
are torn and may be cut away. -/
theorem replaySegment_tail (isActive : Bool)
    (stops : readRecord tail = if torn then .torn else .ended)
    (allowed : torn = true → isActive = true) (progress : ReplayProgress) (id : ℕ)
    (records : List (StoredRecord json)) :
    replaySegment json dir isActive progress id (segmentFile records tail) = .ok {
      files := if torn then progress.files.insert id (segmentFile records []) else progress.files
      segments := progress.segments ++ [⟨id, segmentEnd records⟩]
      state := progress.state.applyAll (plainRecords records)
      truncations := progress.truncations + if torn then 1 else 0 } := by
  simp only [replaySegment, ensure_of (segmentHeader_le records tail), ok_bind,
    ensure_of (take_header records tail), drop_header, scan_segment _ stops]
  cases torn with
  | false => rfl
  | true =>
    simp only [if_true, allowed rfl, ensure_of, ok_bind, take_segmentFile]
    rfl

/-- A segment that is not active must not be torn. -/
theorem replaySegment_sealed_torn (torn : readRecord tail = .torn) (progress : ReplayProgress)
    (id : ℕ) (records : List (StoredRecord json)) :
    replaySegment json dir false progress id (segmentFile records tail) =
      .error (.error s!"truncated sealed WAL segment {segmentPath dir id}") := by
  have stops : readRecord tail = if true then .torn else .ended := torn
  simp only [replaySegment, ensure_of (segmentHeader_le records tail), ok_bind,
    ensure_of (take_header records tail), drop_header, scan_segment _ stops, if_true]
  rfl

/-! ### Directories -/

/-- A directory of segments: the sealed ones, and the active one above them. -/
structure WalDirectory (json : WalJson) where
  sealedImages : OrderedMap ℕ (SegmentImage json)
  activeId : ℕ
  above : ∀ entry ∈ sealedImages.entries, entry.1 < activeId

variable (images : OrderedMap ℕ (SegmentImage json))

/-- The files of the sealed segments. -/
def sealedFiles : OrderedMap ℕ Bytes :=
  images.mapValues (fun _ image => image.file)

/-- The records of the sealed segments, oldest first. -/
def sealedRecords : List (StoredRecord json) :=
  images.entries.flatMap (·.2.records)

namespace WalDirectory

variable (directory : WalDirectory json) (active : Bytes)

/-- The files when the active segment has the given contents. -/
def filesWith : OrderedMap ℕ Bytes :=
  (sealedFiles directory.sealedImages).insert directory.activeId active

theorem entries_filesWith :
    (directory.filesWith active).entries =
      (sealedFiles directory.sealedImages).entries ++ [(directory.activeId, active)] := by
  apply entries_insert_above
  intro entry member
  obtain ⟨source, listed, rfl⟩ := mem_map.mp member
  exact directory.above source listed

theorem lastKey_filesWith :
    (directory.filesWith active).lastKey? = some directory.activeId := by
  rw [OrderedMap.lastKey?, OrderedMap.keys, entries_filesWith, map_append]
  exact List.getLast?_concat

theorem withFirstSegment_filesWith :
    withFirstSegment (directory.filesWith active) = directory.filesWith active := by
  rw [withFirstSegment, entries_filesWith]
  simp

/-- The next segment number is free. -/
theorem get?_filesWith_above :
    (directory.filesWith active).get? (directory.activeId + 1) = none := by
  rw [filesWith, get?_insert_of_ne _ _ (by omega), sealedFiles,
    get?_mapValues, Option.map_eq_none_iff, Option.eq_none_iff_forall_ne_some]
  intro image listed
  have below := directory.above _ (mem_entries.mpr listed)
  omega

variable (image : SegmentImage json)

/-- Seal the active segment and start the next one. -/
def rotate : WalDirectory json where
  sealedImages := directory.sealedImages.insert directory.activeId image
  activeId := directory.activeId + 1
  above := by
    intro entry member
    rw [entries_insert_above image directory.above, mem_append, mem_singleton] at member
    rcases member with earlier | rfl
    · exact Nat.lt_succ_of_lt (directory.above entry earlier)
    · exact Nat.lt_succ_self _

theorem rotate_filesWith (active : Bytes) :
    (directory.rotate image).filesWith active =
      (directory.filesWith image.file).insert (directory.activeId + 1) active := by
  rw [filesWith, sealedFiles, rotate, mapValues_insert]
  rfl

theorem rotate_sealedRecords :
    sealedRecords (directory.rotate image).sealedImages =
      sealedRecords directory.sealedImages ++ image.records := by
  rw [sealedRecords, rotate, entries_insert_above image directory.above]
  simp [sealedRecords]

end WalDirectory

theorem replaySegments_append (highestId : ℕ) (first second : List (ℕ × Bytes))
    (progress : ReplayProgress) :
    replaySegments json dir highestId (first ++ second) progress =
      (replaySegments json dir highestId first progress >>=
        replaySegments json dir highestId second) := by
  induction first generalizing progress with
  | nil => rfl
  | cons entry first ih =>
    simp only [cons_append, replaySegments, ih, bind_assoc]

/-- The table entry of a segment. -/
def SegmentImage.info (id : ℕ) (image : SegmentImage json) : SegmentInfo :=
  ⟨id, segmentEnd image.records⟩

/-- Sealed segments are read and left as they are. -/
theorem replaySegments_images (highestId : ℕ) (entries : List (ℕ × SegmentImage json))
    (progress : ReplayProgress) :
    replaySegments json dir highestId (entries.map (fun entry => (entry.1, entry.2.file)))
        progress = .ok { progress with
      segments := progress.segments ++ entries.map (fun entry => entry.2.info entry.1)
      state := progress.state.applyAll
        (plainRecords (entries.flatMap (·.2.records))) } := by
  induction entries generalizing progress with
  | nil => simp [replaySegments, plainRecords, ReplayState.applyAll]
  | cons entry entries ih =>
    obtain ⟨id, image⟩ := entry
    have ends : readRecord image.residue = if false then .torn else .ended :=
      readRecord_short image.short
    have first := replaySegment_tail dir (decide (id = highestId)) ends (by simp)
      progress id image.records
    simp only [map_cons, replaySegments, SegmentImage.file, first, ok_bind]
    simp only [Bool.false_eq_true, if_false]
    have rest := ih { progress with
      segments := progress.segments ++ [⟨id, segmentEnd image.records⟩]
      state := progress.state.applyAll (plainRecords image.records)}
    simp only [SegmentImage.file] at rest
    simp only [Nat.add_zero, rest, append_assoc, flatMap_cons, plainRecords_append,
      ReplayState.applyAll_append]
    rfl

/-! ### Opening -/

/-- The replay hands over the state of exactly these records. -/
def Replays (replay : Replay) : Prop :=
  (ReplayState.empty.applyAll (plainRecords records)).finish replay.truncations = .ok replay

theorem plainRecords_counted : (ReplayState.empty.applyAll (plainRecords records)).Counted := by
  apply ReplayState.counted_empty.applyAll
  intro record member
  obtain ⟨stored, -, rfl⟩ := mem_map.mp member
  exact stored.storable.counted

/-- An open log whose files are those of a directory with the given contents of
its active segment, and which believes that segment to have the given length. -/
structure Stores (segmentBytes : ℕ) (wal : Wal) (directory : WalDirectory json) (active : Bytes)
    (bytes : ℕ) : Prop where
  files : wal.files = directory.filesWith active
  activeId : wal.activeSegmentId = directory.activeId
  activeBytes : wal.activeBytes = bytes
  segmentBytes : wal.segmentBytes = segmentBytes

/-- Replaying a directory applies the records of all its segments. -/
theorem replaySegments_directory (directory : WalDirectory json)
    (records : List (StoredRecord json))
    (stops : readRecord tail = if torn then .torn else .ended) :
    replaySegments json dir directory.activeId
        (directory.filesWith (segmentFile records tail)).entries
        ⟨directory.filesWith (segmentFile records tail), [], .empty, 0⟩ = .ok {
      files := directory.filesWith (segmentFile records (if torn then [] else tail))
      segments := directory.sealedImages.entries.map (fun entry => entry.2.info entry.1) ++
        [⟨directory.activeId, segmentEnd records⟩]
      state := ReplayState.empty.applyAll
        (plainRecords (sealedRecords directory.sealedImages ++ records))
      truncations := if torn then 1 else 0 } := by
  have active := fun progress => replaySegment_tail dir true stops (fun _ => rfl) progress
    directory.activeId records
  have listed : (sealedFiles directory.sealedImages).entries =
      directory.sealedImages.entries.map (fun entry => (entry.1, entry.2.file)) := rfl
  rw [directory.entries_filesWith, replaySegments_append, listed, replaySegments_images]
  simp only [replaySegments, decide_true, active, ok_bind, nil_append, sealedRecords,
    plainRecords_append, ReplayState.applyAll_append, Nat.zero_add]
  cases torn with
  | false => rfl
  | true => simp only [if_true, WalDirectory.filesWith, insert_insert]

variable {segmentBytes : ℕ}

/-- Opening a directory reads all its complete records. What stands behind those
of the active segment is cut away if it is torn and kept otherwise. -/
theorem open_tail (positive : 0 < segmentBytes) (dir : String) (directory : WalDirectory json)
    (records : List (StoredRecord json))
    (stops : readRecord tail = if torn then .torn else .ended) :
    ∃ wal replay,
      Wal.open json dir segmentBytes (directory.filesWith (segmentFile records tail)) =
        .ok (wal, replay) ∧
      Replays (sealedRecords directory.sealedImages ++ records) replay ∧
      Stores segmentBytes wal directory (segmentFile records (if torn then [] else tail))
        (segmentEnd records) := by
  obtain ⟨replay, finished⟩ := ReplayState.finish_counted
    (plainRecords_counted (sealedRecords directory.sealedImages ++ records))
    (if torn then 1 else 0)
  apply Exists.intro
  apply Exists.intro
  refine ⟨?opens, ?replays, ?stores⟩
  case opens =>
    simp only [Wal.open, ensure_of positive, ok_bind, directory.withFirstSegment_filesWith,
      directory.lastKey_filesWith, Option.getD_some,
      replaySegments_directory dir directory records stops, finished]
    rfl
  case replays => rw [Replays, (ReplayState.finish_fields finished).2, finished]
  case stores =>
    exact ⟨rfl, by simp, by simp, rfl⟩

/-! ### Appending -/

theorem StoredRecord.recordSize_eq :
    recordSize (stored.record.body json) = .ok stored.encode.length := by
  have short : (stored.record.body json).length + 1 ≤ u32Max := stored.storable.short
  rw [recordSize, if_pos short, encode, encodeRecord_length]
  congr 1
  omega

/-- Appending a storable record is a matter of where it goes. -/
theorem Wal.append_stored (wal : Wal) (stored : StoredRecord json) :
    wal.append json dir stored.record =
      (do
        let next ← { wal with nextSeq := wal.seqAfter stored.record }.rotateIfNeeded dir
          stored.encode.length
        pure { next with
          files := next.files.insert next.activeSegmentId (next.activeFile ++ stored.encode)
          activeBytes := next.activeBytes + stored.encode.length }) := by
  have written : writeFields (stored.record.fields json) = .ok (stored.record.body json) :=
    writeFields_of_fits stored.storable.fits
  simp only [Wal.append, written, reported_ok, ok_bind, Wal.appendRecord, stored.recordSize_eq]
  rfl

section Appending

variable {segmentBytes : ℕ} {wal : Wal} {directory : WalDirectory json} {active : Bytes} {bytes : ℕ}

theorem Stores.activeFile (stores : Stores segmentBytes wal directory active bytes) :
    wal.activeFile = active := by
  rw [Wal.activeFile, stores.files, stores.activeId, WalDirectory.filesWith, get?_insert_self]
  rfl

variable {stored : StoredRecord json}

/-- A record that fits is written at the end of the active file. -/
theorem Stores.append_writing (stores : Stores segmentBytes wal directory active bytes)
    (dir : String) (stays : ¬ wal.Rotates stored.encode.length) :
    ∃ next, wal.append json dir stored.record = .ok next ∧
      Stores segmentBytes next directory (active ++ stored.encode)
        (bytes + stored.encode.length) := by
  rw [Wal.append_stored, Wal.rotateIfNeeded]
  have fits : ¬ { wal with nextSeq := wal.seqAfter stored.record }.Rotates stored.encode.length :=
    stays
  rw [if_neg fits]
  refine ⟨_, rfl, ?_, stores.activeId, ?_, stores.segmentBytes⟩
  · have file : { wal with nextSeq := wal.seqAfter stored.record }.activeFile = active :=
      stores.activeFile
    rw [file, stores.files, stores.activeId, WalDirectory.filesWith, insert_insert]
    rfl
  · rw [stores.activeBytes]

/-- A record that does not fit goes to a new segment. -/
theorem Stores.append_rotating (stores : Stores segmentBytes wal directory active bytes)
    (dir : String) (rotates : wal.Rotates stored.encode.length) :
    ∃ next, wal.append json dir stored.record = .ok next ∧
      next.files = (directory.filesWith active).insert (directory.activeId + 1)
        (segmentFile [stored] []) ∧
      next.activeSegmentId = directory.activeId + 1 ∧ next.activeBytes = segmentEnd [stored] ∧
      next.segmentBytes = segmentBytes := by
  have free := directory.get?_filesWith_above active
  rw [Wal.append_stored, Wal.rotateIfNeeded]
  have full : { wal with nextSeq := wal.seqAfter stored.record }.Rotates stored.encode.length :=
    rotates
  rw [if_pos full]
  simp only [stores.files, stores.activeId, ensure_of free, ok_bind]
  refine ⟨_, rfl, ?_, rfl, ?_, stores.segmentBytes⟩
  · simp [Wal.activeFile, segmentFile]
  · simp [segmentEnd]

end Appending

/-! ### Whole logs -/

/-- The log holds exactly the given records, and nothing follows the last of them. -/
def Holds (segmentBytes : ℕ) (wal : Wal) (all : List (StoredRecord json)) : Prop :=
  ∃ (directory : WalDirectory json) (records : List (StoredRecord json)),
    Stores segmentBytes wal directory (segmentFile records []) (segmentEnd records) ∧
      sealedRecords directory.sealedImages ++ records = all

variable {wal : Wal}

/-- A record that goes to a new segment is held behind those of the old ones, even
if the old segment ends in a few stray bytes. -/
theorem Stores.holds_of_rotates {directory : WalDirectory json} {image : SegmentImage json}
    (stores : Stores segmentBytes wal directory image.file (segmentEnd image.records))
    (dir : String) {stored : StoredRecord json} (rotates : wal.Rotates stored.encode.length) :
    ∃ next, wal.append json dir stored.record = .ok next ∧
      Holds segmentBytes next
        (sealedRecords directory.sealedImages ++ image.records ++ [stored]) := by
  obtain ⟨next, appended, files, activeId, activeBytes, limit⟩ :=
    stores.append_rotating dir rotates
  refine ⟨next, appended, directory.rotate image, [stored], ⟨?_, activeId, activeBytes, limit⟩, ?_⟩
  · rw [files, directory.rotate_filesWith]
  · rw [directory.rotate_sealedRecords]

variable {all : List (StoredRecord json)}

section

variable (holds : Holds segmentBytes wal all)

include holds

/-- Appending adds the record. -/
theorem Holds.append (dir : String)
    (stored : StoredRecord json) :
    ∃ next, wal.append json dir stored.record = .ok next ∧
      Holds segmentBytes next (all ++ [stored]) := by
  obtain ⟨directory, records, stores, rfl⟩ := holds
  by_cases rotates : wal.Rotates stored.encode.length
  · let image : SegmentImage json := ⟨records, [], by decide⟩
    have clean : Stores segmentBytes wal directory image.file (segmentEnd image.records) := stores
    exact clean.holds_of_rotates dir rotates
  · obtain ⟨next, appended, written⟩ := stores.append_writing dir rotates
    have file : segmentFile records [] ++ stored.encode = segmentFile (records ++ [stored]) [] := by
      simp [segmentFile, encodeAll_append]
    rw [file, ← segmentEnd_concat] at written
    exact ⟨next, appended, directory, records ++ [stored], written, (append_assoc _ _ _).symm⟩

/-- Appending records one after the other adds all of them. -/
theorem Holds.appendAll (dir : String)
    (further : List (StoredRecord json)) :
    ∃ later, wal.appendAll json dir (plainRecords further) = .ok later ∧
      Holds segmentBytes later (all ++ further) := by
  induction further generalizing wal all with
  | nil => exact ⟨wal, rfl, by rwa [append_nil]⟩
  | cons stored further ih =>
    obtain ⟨next, appended, held⟩ := holds.append dir stored
    obtain ⟨later, rest, heldAll⟩ := ih held
    refine ⟨later, ?_, ?_⟩
    · simp only [plainRecords, map_cons, Wal.appendAll, appended, ok_bind]
      exact rest
    · rwa [append_assoc] at heldAll

/-- Opening the log again finds the records it holds. -/
theorem Holds.reopen (positive : 0 < segmentBytes)
    (dir : String) :
    ∃ reopened replay, Wal.open json dir segmentBytes wal.files = .ok (reopened, replay) ∧
      Replays all replay := by
  obtain ⟨directory, records, stores, rfl⟩ := holds
  have ends : readRecord [] = if false then .torn else .ended := rfl
  obtain ⟨reopened, replay, opens, replays, -⟩ := open_tail positive dir directory records ends
  rw [← stores.files] at opens
  exact ⟨reopened, replay, opens, replays⟩

end

/-! ### Sessions

A log is opened, appended to and closed, any number of times.
-/

/-- The files after sessions that each open the log with some segment size and append. -/
def Wal.sessions (json : WalJson) (dir : String) :
    List (ℕ+ × List WalRecord) → OrderedMap ℕ Bytes → Outcome (OrderedMap ℕ Bytes)
  | [], files => .ok files
  | (segmentBytes, records) :: later, files => do
    let opened ← Wal.open json dir segmentBytes files
    let closed ← opened.1.appendAll json dir records
    Wal.sessions json dir later closed.files

/-- Opening the files, with whatever segment size, replays the records and goes on behind
them. -/
def OpensWith (dir : String) (files : OrderedMap ℕ Bytes) (all : List (StoredRecord json)) : Prop :=
  ∀ segmentBytes : ℕ+, ∃ wal replay, Wal.open json dir segmentBytes files = .ok (wal, replay) ∧
    Replays all replay ∧ Holds segmentBytes wal all

theorem opensWith_filesWith (dir : String) (directory : WalDirectory json)
    (records : List (StoredRecord json)) :
    OpensWith dir (directory.filesWith (segmentFile records []))
      (sealedRecords directory.sealedImages ++ records) := by
  intro segmentBytes
  have ends : readRecord [] = if false then .torn else .ended := rfl
  obtain ⟨wal, replay, opens, replays, stores⟩ :=
    open_tail segmentBytes.pos dir directory records ends
  exact ⟨wal, replay, opens, replays, directory, records, stores, rfl⟩

/-- Every session finds the records of all sessions before it, in their order. -/
theorem sessions_replayed (dir : String) (sessions : List (ℕ+ × List (StoredRecord json))) :
    ∃ files, Wal.sessions json dir
        (sessions.map fun session => (session.1, plainRecords session.2)) ∅ = .ok files ∧
      OpensWith dir files (sessions.flatMap (·.2)) := by
  have run : ∀ files (all : List (StoredRecord json)), OpensWith dir files all → ∃ last,
      Wal.sessions json dir (sessions.map fun session => (session.1, plainRecords session.2))
        files = .ok last ∧ OpensWith dir last (all ++ sessions.flatMap (·.2)) := by
    induction sessions with
    | nil => exact fun files all opens => ⟨files, rfl, by rwa [flatMap_nil, append_nil]⟩
    | cons session later ih =>
      intro files all opens
      obtain ⟨wal, replay, opened, -, holds⟩ := opens session.1
      obtain ⟨closed, appended, directory, records, stores, held⟩ := holds.appendAll dir session.2
      have again := opensWith_filesWith dir directory records
      rw [← stores.files, held] at again
      obtain ⟨last, rest, found⟩ := ih closed.files _ again
      refine ⟨last, ?_, by rwa [append_assoc] at found⟩
      simp only [map_cons, Wal.sessions, opened, appended, ok_bind, rest]
  -- A directory without files is given an empty first segment.
  exact run ∅ [] (opensWith_filesWith dir ⟨∅, 1, by simp⟩ [])

end Morrow
