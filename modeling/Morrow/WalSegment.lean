import Morrow.WalReplay

/-!
# Segments of the write-ahead log

The log is a directory of numbered segment files. The one with the highest number
is active: records are appended at the end of its file, and when a record would
take it beyond the configured size a new segment is started. Opening the log reads
every segment in order of its number; only the active one may end inside a record,
and it is then cut back to the records that are complete.

A directory is the map from segment numbers to contents. Files are written with
the append flag, so a write goes to the end of the file whatever the log believes
its length to be.
-/

namespace Morrow

open ByteCodec FramedLog

/-- The first line of a segment. -/
def segmentHeader : Bytes := utf8 "BROKERWAL\x01\n"

/-- Segment numbers are written with twenty digits. -/
def segmentPath (dir : String) (id : ℕ) : String :=
  let digits := toString id
  dir ++ "/" ++ String.ofList (List.replicate (20 - digits.length) '0') ++ digits ++ ".wal"

structure SegmentInfo where
  id : ℕ
  bytes : ℕ
deriving DecidableEq

/-- The open log. -/
structure Wal where
  files : OrderedMap ℕ Bytes
  activeSegmentId : ℕ
  activeBytes : ℕ
  sealedSegments : List SegmentInfo
  segmentBytes : ℕ
  nextSeq : ℕ
  nextDeliveryId : ℕ
deriving DecidableEq

/-! ### Opening -/

/-- How far a replay has come through the directory. -/
structure ReplayProgress where
  files : OrderedMap ℕ Bytes
  segments : List SegmentInfo
  state : ReplayState
  truncations : ℕ
deriving DecidableEq

variable (json : WalJson)

/-- Decode a record of a segment and apply it. -/
def applyStored (path : String) (state : ReplayState) (stored : UInt8 × Bytes) :
    Outcome ReplayState := do
  let body ← reported (unprotectBody stored.2)
  let record ← withContext s!"replaying WAL segment {path}" (decodeRecord json stored.1 body)
  pure (state.apply record)

/-- Replay one segment. A torn active segment is cut back. -/
def replaySegment (dir : String) (isActive : Bool) (progress : ReplayProgress)
    (id : ℕ) (file : Bytes) : Outcome ReplayProgress := do
  let path := segmentPath dir id
  ensure (segmentHeader.length ≤ file.length) s!"reading WAL segment header {path}"
  ensure (file.take segmentHeader.length = segmentHeader)
    s!"WAL segment {path} has unsupported format"
  let records := file.drop segmentHeader.length
  let scanned ← scan readRecord (fun _ => .error s!"corrupt WAL segment {path}")
    (applyStored json path) (records.length + 1) records segmentHeader.length progress.state
  if scanned.torn then
    ensure isActive s!"truncated sealed WAL segment {path}"
    pure {
      files := progress.files.insert id (file.take scanned.offset)
      segments := progress.segments ++ [⟨id, scanned.offset⟩]
      state := scanned.state
      truncations := progress.truncations + 1 }
  else
    pure { progress with
      segments := progress.segments ++ [⟨id, scanned.offset⟩]
      state := scanned.state }

/-- Replay the segments in order of their numbers. -/
def replaySegments (json : WalJson) (dir : String) (highestId : ℕ) :
    List (ℕ × Bytes) → ReplayProgress → Outcome ReplayProgress
  | [], progress => .ok progress
  | (id, file) :: rest, progress => do
    let next ← replaySegment json dir (id = highestId) progress id file
    replaySegments json dir highestId rest next

/-- An empty directory gets its first segment. -/
def withFirstSegment (files : OrderedMap ℕ Bytes) : OrderedMap ℕ Bytes :=
  if files.entries.isEmpty then files.insert 1 segmentHeader else files

/-- Open the log of a directory. -/
def Wal.open (dir : String) (segmentBytes : ℕ) (files : OrderedMap ℕ Bytes) :
    Outcome (Wal × Replay) := do
  ensure (0 < segmentBytes) "WAL segment size must be greater than zero"
  let files := withFirstSegment files
  let highestId := files.lastKey?.getD 1
  let progress ← replaySegments json dir highestId files.entries ⟨files, [], .empty, 0⟩
  let replay ← progress.state.finish progress.truncations
  let active := progress.segments.getLastD ⟨1, segmentHeader.length⟩
  pure ({
    files := progress.files
    activeSegmentId := active.id
    activeBytes := active.bytes
    sealedSegments := progress.segments.dropLast
    segmentBytes := segmentBytes
    nextSeq := replay.nextSeq
    nextDeliveryId := replay.nextDeliveryId }, replay)

/-! ### Appending -/

namespace Wal

/-- The contents of the active segment's file. -/
def activeFile (wal : Wal) : Bytes := (wal.files.get? wal.activeSegmentId).getD []

/-- The record would take the active segment beyond its size, and there is a record
in it already. -/
def Rotates (wal : Wal) (nextRecordBytes : ℕ) : Prop :=
  segmentHeader.length < wal.activeBytes ∧ wal.segmentBytes < wal.activeBytes + nextRecordBytes

instance (wal : Wal) (nextRecordBytes : ℕ) : Decidable (wal.Rotates nextRecordBytes) :=
  inferInstanceAs (Decidable (_ ∧ _))

/-- Start a new segment when the record needs one. -/
def rotateIfNeeded (dir : String) (wal : Wal) (nextRecordBytes : ℕ) : Outcome Wal :=
  if wal.Rotates nextRecordBytes then do
    let next := wal.activeSegmentId + 1
    ensure (wal.files.get? next = none) s!"creating WAL segment {segmentPath dir next}"
    pure { wal with
      files := wal.files.insert next segmentHeader
      sealedSegments := wal.sealedSegments ++ [⟨wal.activeSegmentId, wal.activeBytes⟩]
      activeSegmentId := next
      activeBytes := segmentHeader.length }
  else .ok wal

/-- Append a record of a kind and a body. -/
def appendRecord (dir : String) (wal : Wal) (kind : UInt8) (body : Bytes) : Outcome Wal := do
  let bytes ← reported (recordSize body)
  let wal ← wal.rotateIfNeeded dir bytes
  pure { wal with
    files := wal.files.insert wal.activeSegmentId (wal.activeFile ++ encodeRecord kind body)
    activeBytes := wal.activeBytes + bytes }

/-- The next sequence number moves past that of a partition append. -/
def seqAfter (wal : Wal) : WalRecord → ℕ
  | .partitionAppend record => max wal.nextSeq (saturatingSucc record.seq)
  | _ => wal.nextSeq

/-- Append a record. -/
def append (json : WalJson) (dir : String) (wal : Wal) (record : WalRecord) : Outcome Wal := do
  let wal := { wal with nextSeq := wal.seqAfter record }
  let body ← reported (writeFields (record.fields json))
  wal.appendRecord dir record.kind body

/-- Append records one after the other. -/
def appendAll (json : WalJson) (dir : String) : Wal → List WalRecord → Outcome Wal
  | wal, [] => .ok wal
  | wal, record :: records => do
    let next ← wal.append json dir record
    appendAll json dir next records

end Wal

end Morrow
