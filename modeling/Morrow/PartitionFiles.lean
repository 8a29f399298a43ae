import Morrow.Envelope
import Morrow.FramedLog
import Morrow.OrderedMap

/-!
# The files of a partition log

A partition's directory holds numbered segments, the last of which is written to,
and beside each segment a sparse index: the positions of the batches whose offset is
a multiple of 64. Opening the log reads every segment, cuts a torn tail off the last
one, and rebuilds an index that is missing or belongs to a segment that was cut.
Reading an offset starts at the position the index gives for it, or for the closest
one below, and goes on from batch to batch.

A rewrite replaces all segments by one that was prepared beside them. A marker says
that the replacement is complete; whoever opens the log carries an interrupted
rewrite to its end. The replacement of a single segment by a compacted one works in
the same way.

The state of the directory is part of the log here, and the disk does what it is
asked. Subject indexes, the cache in front of reads and encryption are left out.
-/

namespace Morrow

open ByteCodec FramedLog

/-- The files of a partition's directory that matter here. Segments and indexes are
known by their number; the marker of a compaction names a segment. -/
structure LogFiles where
  segments : OrderedMap ℕ Bytes
  indexes : OrderedMap ℕ Bytes
  retentionOffset : Option Bytes
  rewriteTmp : Option Bytes
  rewriteMarker : Option Bytes
  compactionTmp : Option Bytes
  compactionMarker : Option ℕ
deriving DecidableEq

structure SegmentRange where
  id : ℕ
  firstOffset : ℕ
  lastOffset : ℕ
  sparseIndex : List (ℕ × ℕ)
deriving DecidableEq

/-- An open partition log with its directory. -/
structure SegmentedLog where
  files : LogFiles
  dir : String
  stream : StreamId
  partition : PartitionId
  segmentId : ℕ
  activeBytes : ℕ
  segmentBytes : ℕ
  nextOffset : ℕ
  segmentRanges : List SegmentRange
deriving DecidableEq

/-! ### Interrupted rewrites -/

/-- The file operations of a rewrite. -/
inductive FileOperation
  | createTmp
  | writeTmp (batch : Bytes)
  | removeTmp
  | writeMarker (nextOffset : ℕ)
  | removeSegment (id : ℕ)
  | removeIndex (id : ℕ)
  | installTmp
  | persistRetentionOffset (nextOffset : ℕ)
  | removeMarker
deriving DecidableEq

namespace SegmentedLog

def segmentHeader : Bytes := utf8 "BROKERLOG\x01\n"

def indexStride : ℕ := 64

/-- The path of a segment, its number padded to twenty digits. -/
def segmentPath (dir : String) (id : ℕ) : String :=
  let digits := toString id
  dir ++ "/" ++ String.ofList (List.replicate (20 - digits.length) '0') ++ digits ++ ".plog"

end SegmentedLog

namespace LogFiles

open SegmentedLog

/-- A directory without segments. -/
def fresh (retentionOffset : Option Bytes) : LogFiles :=
  ⟨∅, ∅, retentionOffset, none, none, none, none⟩

variable (files : LogFiles)

/-- Carry out a file operation. -/
def perform : FileOperation → LogFiles
  | .createTmp => { files with rewriteTmp := some segmentHeader }
  | .writeTmp batch => { files with rewriteTmp := files.rewriteTmp.map (· ++ batch) }
  | .removeTmp => { files with rewriteTmp := none }
  | .writeMarker nextOffset => { files with rewriteMarker := some (littleEndian 8 nextOffset) }
  | .removeSegment id => { files with segments := files.segments.erase id }
  | .removeIndex id => { files with indexes := files.indexes.erase id }
  | .installTmp =>
    match files.rewriteTmp with
    | some file => { files with segments := files.segments.insert 1 file, rewriteTmp := none }
    | none => files
  | .persistRetentionOffset nextOffset =>
    { files with retentionOffset := some (littleEndian 8 nextOffset) }
  | .removeMarker => { files with rewriteMarker := none }

def performAll (operations : List FileOperation) : LogFiles :=
  operations.foldl perform files

/-- Remove a segment and then its index, if it has one. -/
def removeSegmentFiles (id : ℕ) : List FileOperation :=
  .removeSegment id :: if files.indexes.contains id then [.removeIndex id] else []

/-- The operations that carry a rewrite to its end once the marker is there. -/
def installOperations : Outcome (List FileOperation) :=
  match files.rewriteMarker with
  | none => .ok []
  | some marker => do
    ensure (marker.length = 8) "invalid partition rewrite marker"
    let nextOffset := fromLittleEndian marker
    if files.rewriteTmp.isSome then
      pure (files.segments.keys.flatMap files.removeSegmentFiles ++
        [.installTmp, .persistRetentionOffset nextOffset, .removeMarker])
    else
      ensure (files.segments.contains 1) "partition rewrite data is missing"
      pure ((files.segments.keys.filter (· ≠ 1)).flatMap files.removeSegmentFiles ++
        [.persistRetentionOffset nextOffset, .removeMarker])

def installPendingRewrite : Outcome LogFiles := do
  let operations ← files.installOperations
  pure (files.performAll operations)

def installPendingSegmentCompaction : LogFiles :=
  match files.compactionMarker with
  | none => files
  | some target =>
    match files.compactionTmp with
    | none => { files with compactionMarker := none }
    | some file =>
      { files with
        indexes := files.indexes.erase target
        segments := files.segments.insert target file
        compactionTmp := none
        compactionMarker := none }

/-- A directory without segments gets its first one. -/
def withFirstSegment : LogFiles :=
  if files.segments.entries.isEmpty then
    { files with segments := files.segments.insert 1 segmentHeader }
  else files

/-- The offset that a rewrite has put down. -/
def readRetentionOffset : Outcome ℕ :=
  match files.retentionOffset with
  | none => .ok 0
  | some bytes => do
    ensure (bytes.length = 8) "invalid partition retention offset"
    pure (fromLittleEndian bytes)

end LogFiles

namespace SegmentedLog

section Reading

variable (legacy : Bytes → Except String MessageEnvelope)

/-! ### Reading segments -/

def validateSegmentHeader (path : String) (file : Bytes) : Outcome Unit := do
  ensure (segmentHeader.length ≤ file.length) s!"reading partition-log header {path}"
  ensure (file.take segmentHeader.length = segmentHeader)
    s!"unsupported partition-log format in {path}"

/-- Read the next batch. In a segment that may be repaired, a batch that reaches
beyond the end of the file, or is invalid at its very end, is torn. -/
def batchStep (repairs : Bool) (rest : Bytes) : ReadStep (MessageEnvelope × ℕ) :=
  match readBatch legacy rest with
  | .finished => .ended
  | .batch envelope bytes => .record (envelope, bytes) bytes
  | .failed error consumed =>
    if repairs ∧ (error.kind = .unexpectedEof ∨ consumed = rest.length) then .torn
    else .corrupt error.message

variable (stream : StreamId) (partition : PartitionId)

/-- Collect a batch of the log's own partition, without its payload. -/
def collectBatch (envelopes : List MessageEnvelope)
    (batch : MessageEnvelope × ℕ) : Outcome (List MessageEnvelope) := do
  ensure (batch.1.stream = stream ∧ batch.1.partition = partition)
    "partition-log envelope stored under the wrong stream or partition"
  pure (envelopes ++ [batch.1.intoResidentMetadata])

/-- Replay one segment. -/
def replaySegment (path : String) (active : Bool)
    (file : Bytes) : Outcome (Scanned (List MessageEnvelope)) := do
  validateSegmentHeader path file
  let batches := file.drop segmentHeader.length
  scan (batchStep legacy active) (fun _ => .error s!"corrupt partition-log segment {path}")
    (collectBatch stream partition) (batches.length + 1) batches segmentHeader.length []

/-! ### Sparse indexes -/

def indexEntry (offset position : ℕ) : Bytes := littleEndian 8 offset ++ littleEndian 8 position

/-- Add a batch to an index, which knows the position it has come to. -/
def indexBatch (index : ℕ × Bytes)
    (batch : MessageEnvelope × ℕ) : Outcome (ℕ × Bytes) :=
  let (position, entries) := index
  if batch.1.stream = stream ∧ batch.1.partition = partition ∧
      batch.1.offset % indexStride = 0 then
    .ok (position + batch.2, entries ++ indexEntry batch.1.offset position)
  else .ok (position + batch.2, entries)

/-- The index of a segment, made from its batches. -/
def rebuildIndex (path : String) (file : Bytes) :
    Outcome Bytes := do
  validateSegmentHeader path file
  let batches := file.drop segmentHeader.length
  let scanned ← scan (batchStep legacy false) .error (indexBatch stream partition)
    (batches.length + 1) batches segmentHeader.length (segmentHeader.length, [])
  pure scanned.state.2

/-- The entries of an index file; what is left at its end is ignored. -/
def indexEntries : ℕ → Bytes → List (ℕ × ℕ)
  | 0, _ => []
  | count + 1, bytes =>
    (fromLittleEndian (bytes.take 8), fromLittleEndian ((bytes.drop 8).take 8)) ::
      indexEntries count (bytes.drop 16)

def loadSparseIndex (index : Option Bytes) : List (ℕ × ℕ) :=
  let bytes := index.getD []
  indexEntries (bytes.length / 16) bytes

/-- The position of the offset or of the closest one below it. The binary search of
the source finds it if the index is in increasing order. -/
def indexedPosition (index : List (ℕ × ℕ)) (target : ℕ) : Option ℕ :=
  ((index.takeWhile fun entry => entry.1 ≤ target).getLast?).map Prod.snd

/-! ### Reading offsets -/

/-- Look for an offset from batch to batch. The first argument bounds their number. -/
def seekOffset (target : ℕ) : ℕ → Bytes → Outcome (Option MessageEnvelope)
  | 0, _ => .ok none
  | bound + 1, rest =>
    match readBatch legacy rest with
    | .finished => .ok none
    | .failed error _ => .error (.error error.message)
    | .batch envelope bytes =>
      if envelope.offset = target then .ok (some envelope)
      else if target < envelope.offset then .ok none
      else seekOffset target bound (rest.drop bytes)

variable (dir : String)

/-- Look for an offset in one segment, from where its index says. -/
def readRange (files : LogFiles) (range : SegmentRange) (target : ℕ) :
    Outcome (Option MessageEnvelope) :=
  let path := segmentPath dir range.id
  match files.segments.get? range.id with
  | none => .error (.error s!"No such file: {path}")
  | some file => do
    validateSegmentHeader path file
    let position := (indexedPosition range.sparseIndex target).getD segmentHeader.length
    seekOffset legacy target (file.length + 1) (file.drop position)

/-- Look for an offset in the segments whose range contains it. -/
def readRanges (dir : String) (files : LogFiles) (target : ℕ) :
    List SegmentRange → Outcome (Option MessageEnvelope)
  | [] => .ok none
  | range :: ranges =>
    if target < range.firstOffset ∨ range.lastOffset < target then
      readRanges dir files target ranges
    else do
      match ← readRange legacy dir files range target with
      | some envelope => pure (some envelope)
      | none => readRanges dir files target ranges

variable (log : SegmentedLog)

def readOffset (target : ℕ) : Outcome (Option MessageEnvelope) :=
  readRanges legacy log.dir log.files target log.segmentRanges

/-- Look for an offset in the bytes of a segment, without an index. -/
def readSegmentOffset (file : Bytes) (target : ℕ) : Outcome (Option MessageEnvelope) := do
  ensure (segmentHeader.length ≤ file.length) "failed to fill whole buffer"
  ensure (file.take segmentHeader.length = segmentHeader)
    "remote partition segment header is invalid"
  seekOffset legacy target (file.length + 1) (file.drop segmentHeader.length)

/-! ### Opening -/

/-- How far an opening has come through the segments. -/
structure Progress where
  files : LogFiles
  envelopes : List MessageEnvelope
  ranges : List SegmentRange
  truncations : ℕ
deriving DecidableEq

/-- The range of a segment that holds batches. -/
def segmentRange (id : ℕ) (envelopes : List MessageEnvelope) (index : Option Bytes) :
    List SegmentRange :=
  match envelopes.head?, envelopes.getLast? with
  | some first, some last => [⟨id, first.offset, last.offset, loadSparseIndex index⟩]
  | _, _ => []

/-- Replay a segment, repair it and its index, and enter it in the table. -/
def openSegment (stream : StreamId) (partition : PartitionId) (active : Bool)
    (progress : Progress) (id : ℕ) (file : Bytes) : Outcome Progress := do
  let path := segmentPath dir id
  let scanned ← replaySegment legacy stream partition path active file
  let repaired := if scanned.torn then file.take scanned.offset else file
  let index ←
    match progress.files.indexes.get? id with
    | some index =>
      if scanned.torn then rebuildIndex legacy stream partition path repaired else pure index
    | none => rebuildIndex legacy stream partition path repaired
  pure {
    files := { progress.files with
      segments := progress.files.segments.insert id repaired
      indexes := progress.files.indexes.insert id index }
    envelopes := progress.envelopes ++ scanned.state
    ranges := progress.ranges ++ segmentRange id scanned.state (some index)
    truncations := progress.truncations + if scanned.torn then 1 else 0 }

/-- Go through the segments in order of their numbers. -/
def openSegments (dir : String) (stream : StreamId) (partition : PartitionId) (activeId : ℕ) :
    List (ℕ × Bytes) → Progress → Outcome Progress
  | [], progress => .ok progress
  | (id, file) :: rest, progress => do
    let next ← openSegment legacy dir stream partition (id = activeId) progress id file
    openSegments dir stream partition activeId rest next

/-- One past the last offset, and not below what a rewrite has put down. -/
def nextOffsetOf (persisted : ℕ) (envelopes : List MessageEnvelope) : ℕ :=
  match envelopes.getLast? with
  | none => persisted
  | some last => max persisted (saturatingSucc last.offset)

/-- Open a partition log: the log, its envelopes and the number of repairs. -/
def openLog (stream : StreamId) (partition : PartitionId) (segmentBytes : ℕ)
    (directory : LogFiles) : Outcome (SegmentedLog × List MessageEnvelope × ℕ) := do
  let installed ← directory.installPendingRewrite
  let files := installed.installPendingSegmentCompaction.withFirstSegment
  let activeId := files.segments.lastKey?.getD 1
  let progress ← openSegments legacy dir stream partition activeId files.segments.entries
    ⟨files, [], [], 0⟩
  let envelopes := progress.envelopes.insertionSort fun first second =>
    first.offset ≤ second.offset
  ensure (envelopes.Pairwise fun first second => first.offset < second.offset)
    (s!"partition offsets are not strictly increasing in stream {stream.name} " ++
      s!"partition {partition.value}")
  let persisted ← progress.files.readRetentionOffset
  pure ({
    files := progress.files
    dir := dir
    stream := stream
    partition := partition
    segmentId := activeId
    activeBytes := ((progress.files.segments.get? activeId).getD []).length
    segmentBytes := segmentBytes
    nextOffset := nextOffsetOf persisted envelopes
    segmentRanges := progress.ranges }, envelopes, progress.truncations)

/-! ### Appending -/

/-- Change the first range of a segment. -/
def updateRange (id : ℕ) (change : SegmentRange → SegmentRange) :
    List SegmentRange → List SegmentRange
  | [] => []
  | range :: ranges =>
    if range.id = id then change range :: ranges else range :: updateRange id change ranges

/-- Seal the active segment and start the next one. -/
def rotate : Outcome SegmentedLog := do
  let next := log.segmentId + 1
  ensure (log.files.segments.get? next = none)
    s!"creating partition-log segment {segmentPath log.dir next}"
  pure { log with
    files := { log.files with segments := log.files.segments.insert next segmentHeader }
    segmentRanges := updateRange log.segmentId (fun range =>
      { range with sparseIndex := loadSparseIndex (log.files.indexes.get? log.segmentId) })
      log.segmentRanges
    segmentId := next
    activeBytes := segmentHeader.length }

/-- The batch would take the active segment beyond its size, and there is a batch in
it already. -/
def Rotates (bytes : ℕ) : Prop :=
  segmentHeader.length < log.activeBytes ∧ log.segmentBytes < saturatingAdd log.activeBytes bytes

instance (log : SegmentedLog) (bytes : ℕ) : Decidable (log.Rotates bytes) :=
  inferInstanceAs (Decidable (_ ∧ _))

/-- Write a batch at the end of the active segment. -/
def writeBatch (batch : Bytes) : SegmentedLog :=
  { log with
    files := { log.files with
      segments := log.files.segments.modify log.segmentId (· ++ batch) }
    activeBytes := log.activeBytes + batch.length
    nextOffset := log.nextOffset + 1 }

/-- Enter an offset in the range of the active segment. -/
def extendRange (offset : ℕ) : SegmentedLog :=
  { log with
    segmentRanges :=
      if log.segmentRanges.any (·.id = log.segmentId) then
        updateRange log.segmentId (fun range => { range with lastOffset := offset })
          log.segmentRanges
      else log.segmentRanges ++ [⟨log.segmentId, offset, offset,
        loadSparseIndex (log.files.indexes.get? log.segmentId)⟩] }

/-- Enter every sixty-fourth offset in the index file and in memory. -/
def appendIndex (offset position : ℕ) : SegmentedLog :=
  if offset % indexStride = 0 then
    { log with
      files := { log.files with
        indexes := log.files.indexes.insert log.segmentId
          ((log.files.indexes.get? log.segmentId).getD [] ++ indexEntry offset position) }
      segmentRanges := updateRange log.segmentId (fun range =>
        { range with sparseIndex := range.sparseIndex ++ [(offset, position)] })
        log.segmentRanges }
  else log

variable (envelope : MessageEnvelope)

/-- Append an envelope whose offset was chosen elsewhere. -/
def appendCommitted : Outcome SegmentedLog :=
  if envelope.offset < log.nextOffset then do
    let existing ← log.readOffset legacy envelope.offset
    let stored ← match existing with
      | none => pure none
      | some found => some <$> reported (envelopeChecksum found)
    let checksum ← reported (envelopeChecksum envelope)
    ensure (stored = some checksum)
      "partition-log append conflicts with an immutable committed record"
    pure log
  else do
    let next := log.nextOffset
    let requested := envelope.offset
    ensure (requested = next)
      s!"partition-log append creates an offset gap (next={next}, requested={requested})"
    let batch ← reported (encodeBatch envelope)
    let log ← if log.Rotates batch.length then log.rotate else pure log
    -- The counter is advanced without a check after the batch was written.
    if log.nextOffset < u64Max then
      let position := log.activeBytes
      pure (((log.writeBatch batch).extendRange envelope.offset).appendIndex envelope.offset
        position)
    else .error .panicked

/-- Append an envelope at the next offset. -/
def append : Outcome SegmentedLog :=
  log.appendCommitted legacy { envelope with offset := log.nextOffset }

/-- Append envelopes one after the other. -/
def appendAll : SegmentedLog → List MessageEnvelope → Outcome SegmentedLog
  | log, [] => .ok log
  | log, envelope :: envelopes => do
    let next ← log.append legacy envelope
    appendAll next envelopes

end Reading

end SegmentedLog

end Morrow
