import Morrow.PartitionLog

/-!
# The replica data store

A replica keeps the logs of its partitions, an index of the stored records
without their payloads, and the commit metadata it has accepted for each
partition. Leaders append records with the offset and checksum of the record they
must follow, and commit them by naming the last committed record. The commit
metadata is journaled before it takes effect, and the journal is rewritten as a
checkpoint when it has grown.

Calls take the store and return it with their outcome, because a call that fails
half way leaves what it has done so far. The outcomes of the two journal
operations are inputs. Locks, tasks and the network are not part of this module.
-/

namespace Morrow

/-- What a replica has committed for a partition. -/
structure PartitionCommitMetadata where
  replicaSetGeneration : ℕ
  highWatermark : ℕ
  checksum : ℕ
  leaderId : ℕ
  leaderEpoch : ℕ
deriving DecidableEq

/-- A journal record of one commit. -/
structure PartitionCommitRecord where
  ref : PartitionRef
  replicaSetGeneration : ℕ
  leaderId : ℕ
  leaderEpoch : ℕ
  highWatermark : ℕ
  checksum : ℕ
deriving DecidableEq

/-- How far a request asks a record to be persisted. -/
inductive DurabilityBoundary
  | memory
  | localFlush
  | quorumFlush
deriving DecidableEq

structure DataAppendRequest where
  leaderId : ℕ
  leaderEpoch : ℕ
  replicaSetGeneration : ℕ
  fsync : Bool
  committedHighWatermark : Option ℕ
  predecessorOffset : Option ℕ
  predecessorChecksum : Option ℕ
  batchDigest : ℕ
  durability : DurabilityBoundary
  envelope : StoredEnvelope
deriving DecidableEq

structure DataAppendResponse where
  matchOffset : ℕ
  flushedOffset : Option ℕ
deriving DecidableEq

structure DataCommitRequest where
  leaderId : ℕ
  leaderEpoch : ℕ
  replicaSetGeneration : ℕ
  ref : PartitionRef
  highWatermark : ℕ
  checksum : ℕ
  fsync : Bool
deriving DecidableEq

structure DataCommitResponse where
  highWatermark : ℕ
  flushed : Bool
deriving DecidableEq

/-- The metadata's commits, by partition text. -/
abbrev PartitionCommits := OrderedMap String PartitionCommitMetadata

/-- The text under which a partition's commits are kept. -/
def PartitionRef.key (ref : PartitionRef) : String := partitionKey ref.stream ref.partition.value

/-- Records by offset, without payloads. -/
abbrev RecordIndex := OrderedMap ℕ MessageEnvelope

structure ReplicaDataStore where
  logs : PartitionLogSet
  records : OrderedMap PartitionRef RecordIndex
  commits : PartitionCommits
  commitJournal : List PartitionCommitRecord
  commitRecords : ℕ
  commitBytes : ℕ
  unsafeCommits : Bool
deriving DecidableEq

/-- The bounds on one append batch. The environment may lower them, not raise them. -/
structure BatchLimits where
  records : ℕ
  bytes : ℕ
  recordsBounded : 1 ≤ records ∧ records ≤ 256
  bytesBounded : 1 ≤ bytes ∧ bytes ≤ 8 * 1024 * 1024

/-- `size_of::<MessageEnvelope>()` on a 64-bit target. -/
def envelopeStructBytes : ℕ := 232

/-- What a record counts towards the byte bound of a batch. -/
def dataAppendEnvelopeBytes (envelope : StoredEnvelope) : ℕ :=
  envelopeStructBytes + envelope.nameSpace.utf8ByteSize + envelope.stream.name.utf8ByteSize +
    envelope.subject.utf8ByteSize + (envelope.key.map List.length).getD 0 +
    (envelope.headers.map (fun header =>
      header.name.utf8ByteSize + header.value.utf8ByteSize)).sum +
    (envelope.replyTo.map String.utf8ByteSize).getD 0 + envelope.payload.length

/-- What the two journal operations of a commit return: the bytes appended, and
the length of the file after a checkpoint. -/
structure CommitIo where
  appendJournal : Except String ℕ
  rewriteJournal : Except String ℕ
deriving DecidableEq

/-- The metadata a commit request installs. -/
def DataCommitRequest.metadata (request : DataCommitRequest) : PartitionCommitMetadata where
  replicaSetGeneration := request.replicaSetGeneration
  highWatermark := request.highWatermark
  checksum := request.checksum
  leaderId := request.leaderId
  leaderEpoch := request.leaderEpoch

/-- The journal record of a partition's commit metadata. -/
def PartitionCommitMetadata.record (commit : PartitionCommitMetadata) (ref : PartitionRef) :
    PartitionCommitRecord where
  ref := ref
  replicaSetGeneration := commit.replicaSetGeneration
  leaderId := commit.leaderId
  leaderEpoch := commit.leaderEpoch
  highWatermark := commit.highWatermark
  checksum := commit.checksum

/-- The commit metadata a journal record carries. -/
def PartitionCommitRecord.metadata (record : PartitionCommitRecord) : PartitionCommitMetadata where
  replicaSetGeneration := record.replicaSetGeneration
  highWatermark := record.highWatermark
  checksum := record.checksum
  leaderId := record.leaderId
  leaderEpoch := record.leaderEpoch

/-- A journal of this many records is rewritten. -/
def commitCheckpointRecords : ℕ := 1024

/-- A journal of this many bytes is rewritten. -/
def commitCheckpointBytes : ℕ := 8 * 1024 * 1024

namespace ReplicaDataStore

variable (store : ReplicaDataStore) (ref : PartitionRef)

/-- The index of a partition; empty when nothing was ever indexed. -/
def index : RecordIndex := (store.records.get? ref).getD ∅

/-- The last indexed offset of a partition. -/
def progress : Option ℕ := (store.index ref).lastKey?

/-- Load the full record of every indexed entry, in order. -/
def loadRecords (unavailable : String) (metadata : List MessageEnvelope) :
    Outcome (List StoredEnvelope) :=
  metadata.mapM (fun record =>
    match store.logs.loadEnvelope ref record.offset with
    | some stored => .ok stored
    | none => .error (.error unavailable))

/-! ### Appending -/

/-- `{:?}` of an optional offset. -/
def debugOffset : Option ℕ → String
  | some offset => s!"Some({offset})"
  | none => "None"

variable (request : DataAppendRequest)

/-- The record a request follows must be the last one here, with the bytes the
leader knows. -/
def checkPredecessor : Outcome Unit :=
  match request.predecessorOffset with
  | none => .ok ()
  | some predecessor => do
    let current := debugOffset (store.progress request.envelope.ref)
    ensure (store.progress request.envelope.ref = some predecessor)
      (s!"partition append has a gap or stale predecessor (current={current}, " ++
        s!"predecessor={predecessor})")
    match request.predecessorChecksum with
    | none => .ok ()
    | some expected =>
      match store.logs.loadEnvelope request.envelope.ref predecessor with
      | none => .error (.error "partition predecessor is unavailable")
      | some record =>
        ensure (record.checksum = expected) "partition predecessor checksum mismatch"

/-- Whether another record is stored at the requested offset. -/
def mustTruncate : Outcome Bool :=
  match (store.index request.envelope.ref).get? request.envelope.offset with
  | none => .ok false
  | some existing =>
    match store.logs.loadEnvelope request.envelope.ref existing.offset with
    | none => .error (.error "replica record is unavailable")
    | some stored => .ok (decide (stored ≠ request.envelope))

/-- The store with only the accepted offsets left in a partition's index. -/
def keepIndex (keep : ℕ → Bool) : ReplicaDataStore :=
  let kept := (store.index ref).retain (fun offset _ => keep offset)
  { store with records := store.records.insert ref kept }

/-- Shrink a partition to the accepted offsets: the index first, then the log,
rewritten with the full records of what is left in the index. A failure in
between leaves the shrunk index. -/
def rewriteKept (keep : ℕ → Bool) (unavailable : String)
    (floor : Option ℕ) : ReplicaDataStore × Outcome Unit :=
  let shrunk := store.keepIndex ref keep
  match shrunk.loadRecords ref unavailable (shrunk.index ref).values with
  | .error failure => (shrunk, .error failure)
  | .ok retained =>
    match shrunk.logs.rewriteLog ref retained floor with
    | .error failure => (shrunk, .error failure)
    | .ok logs => ({ shrunk with logs }, .ok ())

/-- Drop the records from the requested offset on, unless that reaches into
committed history. -/
def truncateSuffix : ReplicaDataStore × Outcome Unit :=
  if ∀ committed ∈ request.committedHighWatermark, committed < request.envelope.offset then
    store.rewriteKept request.envelope.ref (fun offset => decide (offset < request.envelope.offset))
      "replica record is unavailable" none
  else (store, .error (.error "replica diverges within committed history"))

/-- Store the record unless it is already there. -/
def storeRecord : Outcome ReplicaDataStore :=
  let ref := request.envelope.ref
  match (store.index ref).get? request.envelope.offset with
  | some existing =>
    match store.logs.loadEnvelope ref existing.offset with
    | none => .error (.error "replica record is unavailable")
    | some stored => do
      ensure (stored = request.envelope) "divergent replica suffix"
      pure store
  | none => do
    let logs ← store.logs.appendCommitted request.envelope
    let entry := request.envelope.intoResidentMetadata
    pure { store with
      logs
      records := store.records.insert ref ((store.index ref).insert request.envelope.offset entry) }

/-- Append one record. -/
def appendInner (flush : Bool) :
    ReplicaDataStore × Outcome DataAppendResponse :=
  let checked : Outcome Bool := do
    ensure (request.envelope.leaderEpoch ≤ request.leaderEpoch)
      "data append is from a stale leader epoch"
    store.checkPredecessor request
    store.mustTruncate request
  match checked with
  | .error failure => (store, .error failure)
  | .ok mustTruncate =>
    match if mustTruncate then store.truncateSuffix request else (store, .ok ()) with
    | (truncated, .error failure) => (truncated, .error failure)
    | (truncated, .ok ()) =>
      match truncated.storeRecord request with
      | .error failure => (truncated, .error failure)
      | .ok stored =>
        (stored, .ok {
          matchOffset := request.envelope.offset
          flushedOffset := if request.fsync && flush then some request.envelope.offset else none })

/-- Append the records of a batch one after the other, up to the first failure. -/
def appendAll : ReplicaDataStore → List DataAppendRequest →
    ReplicaDataStore × Outcome (List DataAppendResponse)
  | store, [] => (store, .ok [])
  | store, request :: requests =>
    match store.appendInner request false with
    | (next, .error failure) => (next, .error failure)
    | (next, .ok response) =>
      match appendAll next requests with
      | (last, .error failure) => (last, .error failure)
      | (last, .ok responses) => (last, .ok (response :: responses))

/-- Record the flush of a batch in the responses of the requests that asked for it. -/
def markFlushed (requests : List DataAppendRequest) (responses : List DataAppendResponse) :
    List DataAppendResponse :=
  if requests.any (·.fsync) then
    List.zipWith (fun response request =>
      if request.fsync then { response with flushedOffset := some request.envelope.offset }
      else response) responses requests
  else responses

/-- Append a batch within the limits. -/
def appendBatch (limits : BatchLimits) (requests : List DataAppendRequest) :
    ReplicaDataStore × Outcome (List DataAppendResponse) :=
  let checked : Outcome Unit := do
    ensure (requests ≠ [] ∧ requests.length ≤ limits.records)
      "partition append batch size is outside the supported bound"
    ensure ((requests.map (fun request => dataAppendEnvelopeBytes request.envelope)).sum ≤
        limits.bytes)
      "partition append batch bytes exceed the supported bound"
  match checked with
  | .error failure => (store, .error failure)
  | .ok () =>
    match store.appendAll requests with
    | (next, .error failure) => (next, .error failure)
    | (next, .ok responses) => (next, .ok (markFlushed requests responses))

/-! ### Committing -/

variable (request : DataCommitRequest)

/-- The committed record must be stored with the requested checksum. -/
def checkCommitRecord : Outcome Unit :=
  match (store.index request.ref).get? request.highWatermark with
  | none => .error (.error "partition commit record is unavailable")
  | some record =>
    match store.logs.loadEnvelope request.ref record.offset with
    | none => .error (.error "partition commit envelope is unavailable")
    | some envelope =>
      ensure (envelope.checksum = request.checksum) "partition commit checksum mismatch"

/-- `BTreeMap::range(first..=last).count()`, which stops the thread when the
bounds are crossed. -/
def countRange (index : RecordIndex) (first last : ℕ) : Outcome ℕ :=
  if last < first then .error .panicked else .ok (index.range first last).length

variable (current : PartitionCommitMetadata)

/-- Every offset after the current watermark up to the requested one is stored.
The single step to the next offset is not counted. -/
def checkContiguous :
    Outcome Unit :=
  if request.highWatermark = saturatingSucc current.highWatermark then .ok ()
  else do
    let expected := saturatingSucc current.highWatermark
    let count ← countRange (store.index request.ref) expected request.highWatermark
    let committed := current.highWatermark
    let requested := request.highWatermark
    ensure (count = request.highWatermark - current.highWatermark)
      s!"partition commit has a gap (current={committed}, requested={requested})"

/-- Compare a request with the partition's current commit. `true` means that the
request repeats it and nothing is left to do. -/
def checkCurrent :
    Outcome Bool := do
  ensure (current.leaderEpoch ≤ request.leaderEpoch) "stale partition commit epoch"
  ensure (current.replicaSetGeneration ≤ request.replicaSetGeneration)
    "stale partition commit generation"
  if request.leaderEpoch = current.leaderEpoch then
    ensure (current.highWatermark ≤ request.highWatermark) "partition commit watermark regressed"
    if request.highWatermark = current.highWatermark then
      ensure (request.checksum = current.checksum) "partition commit bytes conflict"
      return true
  store.checkContiguous request current
  return false

variable (commits : PartitionCommits)

/-- The journal records that describe all current commits. -/
def checkpoint : List PartitionCommitRecord :=
  commits.entries.filterMap (fun entry => (parsePartitionKey entry.1).map entry.2.record)

/-- Journal an accepted commit, install it, and rewrite the journal when it has grown. -/
def installCommit (io : CommitIo) :
    ReplicaDataStore × Outcome DataCommitResponse :=
  match io.appendJournal with
  | .error message => (store, .error (.error message))
  | .ok appendedBytes =>
    let installed := { store with
      commitJournal := store.commitJournal ++ [request.metadata.record request.ref]
      commits := store.commits.insert request.ref.key request.metadata
      commitRecords := saturatingSucc store.commitRecords
      commitBytes := saturatingAdd store.commitBytes appendedBytes }
    let response : DataCommitResponse := ⟨request.highWatermark, true⟩
    if commitCheckpointRecords ≤ installed.commitRecords ∨
        commitCheckpointBytes ≤ installed.commitBytes then
      match io.rewriteJournal with
      | .error message => (installed, .error (.error message))
      | .ok journalBytes =>
        let records := checkpoint installed.commits
        ({ installed with
            commitJournal := records
            commitRecords := records.length
            commitBytes := journalBytes }, .ok response)
    else (installed, .ok response)

/-- Commit a partition up to a stored record. -/
def commit (io : CommitIo) :
    ReplicaDataStore × Outcome DataCommitResponse :=
  let checked : Outcome Bool := do
    store.checkCommitRecord request
    match store.commits.get? request.ref.key with
    | some current => store.checkCurrent request current
    | none => pure false
  match checked with
  | .error failure => (store, .error failure)
  | .ok true => (store, .ok ⟨request.highWatermark, true⟩)
  | .ok false => store.installCommit request io

/-! ### Opening, and what the metadata asks of a replica -/

/-- The checksum of the full record behind an indexed offset, if both are there. -/
def storedChecksum (offset : ℕ) : Option ℕ := do
  let record ← (store.index ref).get? offset
  let envelope ← store.logs.loadEnvelope ref record.offset
  pure envelope.checksum

/-- Every committed record named by the metadata is stored with its checksum. -/
def hasCommittedPrefix : Bool :=
  !store.unsafeCommits && commits.entries.all (fun entry =>
    match parsePartitionKey entry.1 with
    | none => false
    | some ref => decide (store.storedChecksum ref entry.2.highWatermark = some entry.2.checksum))

/-- The committed records after an offset, as catch-up sends them. -/
def catchUpRecords (ref : PartitionRef) (after : Option ℕ) :
    Outcome (List StoredEnvelope) :=
  match commits.get? ref.key with
  | none => .ok []
  | some commit =>
    let start := after.elim 0 saturatingSucc
    if commit.highWatermark < start then .ok []
    else store.loadRecords ref "replica catch-up record is unavailable"
      (((store.index ref).range start commit.highWatermark).map Prod.snd)

/-- Apply one planned retention change. -/
def applyRetention (change : RetentionChange) : ReplicaDataStore × Outcome Unit :=
  store.rewriteKept change.ref (fun offset => decide (change.earliestOffset ≤ offset))
    "retained replica record is unavailable" (some change.earliestOffset)

/-- Apply planned changes in order, up to the first failure. -/
def applyRetentions : ReplicaDataStore → List RetentionChange → ReplicaDataStore × Outcome Unit
  | store, [] => (store, .ok ())
  | store, change :: changes =>
    match store.applyRetention change with
    | (next, .error failure) => (next, .error failure)
    | (next, .ok ()) => applyRetentions next changes

/-- Plan retention over the given streams and apply it. -/
def enforceRetention (streams : List StreamDefinition) (nowMs : ℕ) :
    ReplicaDataStore × Outcome Unit :=
  let planned := store.logs.retentionChanges streams nowMs
  { store with logs := planned.1 }.applyRetentions planned.2

/-! ### Opening -/

/-- Whether a journal record repeats the current commit's epoch and watermark
with other bytes or another replica set. -/
def conflicts (candidate current : PartitionCommitMetadata) : Bool :=
  decide (candidate.leaderEpoch = current.leaderEpoch ∧
    candidate.highWatermark = current.highWatermark ∧
    (candidate.checksum ≠ current.checksum ∨
      candidate.replicaSetGeneration ≠ current.replicaSetGeneration))

/-- A later epoch wins; within an epoch, a higher watermark. -/
def supersedes (candidate current : PartitionCommitMetadata) : Bool :=
  decide (current.leaderEpoch < candidate.leaderEpoch ∨
    (candidate.leaderEpoch = current.leaderEpoch ∧ current.highWatermark < candidate.highWatermark))

/-- Fold one journal record into the commits and the conflict flag. -/
def replayCommit (state : PartitionCommits × Bool) (record : PartitionCommitRecord) :
    PartitionCommits × Bool :=
  let candidate := record.metadata
  match state.1.get? record.ref.key with
  | some current =>
    (if supersedes candidate current then state.1.insert record.ref.key candidate else state.1,
      conflicts candidate current || state.2)
  | none => (state.1.insert record.ref.key candidate, state.2)

/-- Index replayed records by partition and offset. -/
def indexReplay (replay : List MessageEnvelope) : OrderedMap PartitionRef RecordIndex :=
  replay.foldl (fun records envelope =>
    let index := (records.get? envelope.ref).getD ∅
    records.insert envelope.ref (index.insert envelope.offset envelope)) ∅

variable (logs : OrderedMap PartitionRef PartitionLog)

/-- What opening the logs replays: every record without its payload. The order
across partitions is by publish sequence in the program; the index does not
depend on it. -/
def replayLogs : List MessageEnvelope :=
  logs.values.flatMap (fun log =>
    log.records.map (·.intoResidentMetadata))

/-- Some current commit names a stored record with another checksum, or no partition. -/
def commitMismatch : Bool :=
  store.commits.entries.any (fun entry =>
    match parsePartitionKey entry.1 with
    | none => true
    | some ref =>
      match store.storedChecksum ref entry.2.highWatermark with
      | none => false
      | some checksum => decide (checksum ≠ entry.2.checksum))

/-- Open the store on its partition logs and the records of its commit journal.
The flag is first set from the journal and then assigned again. -/
def openForPartitions
    (commitHistory : List PartitionCommitRecord) (commitBytes : ℕ) : ReplicaDataStore :=
  let (commits, journalConflict) := commitHistory.foldl replayCommit (∅, false)
  let opened : ReplicaDataStore := {
    logs := { logs, dynamicLogs := ∅ }
    records := indexReplay (replayLogs logs)
    commits
    commitJournal := commitHistory
    commitRecords := commitHistory.length
    commitBytes
    unsafeCommits := journalConflict }
  { opened with unsafeCommits := opened.commitMismatch }

end ReplicaDataStore

end Morrow
