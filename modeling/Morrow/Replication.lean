import Morrow.ReplicaAppend

/-!
# Replicating a batch

The leader of a partition checks its own state against the metadata, numbers the
new records after the committed watermark and turns them into append requests. To
each follower it first sends the committed records the follower lacks, then the
new ones, cut into batches within the limits; a follower answers each batch before
the next is sent.

The budget for catch-up work, the connection to the follower and the count of
answers are not part of the model: requests arrive in order, and every answer
arrives.
-/

namespace Morrow

/-- The committed assignment of a partition. -/
structure PartitionAssignment where
  leaderId : ℕ
  leaderEpoch : ℕ
  replicaSetGeneration : ℕ
  replicas : List ℕ
  activeCommitSet : List ℕ
  epochWord : leaderEpoch < 2 ^ 64
deriving DecidableEq

/-- What replication reads of the cluster's metadata. -/
structure ClusterMetadata where
  partitionCommits : PartitionCommits
  partitionAssignments : OrderedMap String PartitionAssignment
  partitionLocalCommit : Bool
deriving DecidableEq

theorem saturatingAdd_word (left right : ℕ) : saturatingAdd left right < 2 ^ 64 := by
  unfold saturatingAdd u64Max
  omega

/-- The envelope at another offset and leader epoch. -/
def StoredEnvelope.stamp (envelope : StoredEnvelope) (offset leaderEpoch : ℕ)
    (offsetWord : offset < 2 ^ 64) (epochWord : leaderEpoch < 2 ^ 64) : StoredEnvelope where
  toMessageEnvelope := { envelope.toMessageEnvelope with offset, leaderEpoch }
  storable := by
    obtain ⟨_, timestampMs, schemaId, partitioningEpoch, _, legacySeq, fits⟩ := envelope.storable
    refine ⟨offsetWord, timestampMs, schemaId, partitioningEpoch, epochWord, legacySeq, ?_⟩
    simpa only [MessageEnvelope.body, MessageEnvelope.fields, List.length_append,
      ByteCodec.littleEndian_length] using fits

/-- The commits of the metadata, overridden by newer ones of the replica itself. -/
def durableCommits (commits : PartitionCommits) (store : ReplicaDataStore) : PartitionCommits :=
  store.commits.entries.foldl (fun merged entry =>
    match merged.get? entry.1 with
    | some current =>
      if ReplicaDataStore.supersedes entry.2 current then merged.insert entry.1 entry.2 else merged
    | none => merged.insert entry.1 entry.2) commits

namespace Replication

/-! ### The leader's requests -/

/-- One request of a leader. -/
def leaderRequest (nodeId : ℕ) (assignment : PartitionAssignment) (fsync : Bool)
    (previous : Option PartitionCommitMetadata) (predecessorOffset predecessorChecksum : Option ℕ)
    (envelope : StoredEnvelope) : DataAppendRequest where
  leaderId := nodeId
  leaderEpoch := assignment.leaderEpoch
  replicaSetGeneration := assignment.replicaSetGeneration
  fsync := fsync
  committedHighWatermark := previous.map (·.highWatermark)
  predecessorOffset := predecessorOffset
  predecessorChecksum := predecessorChecksum
  batchDigest := envelope.checksum
  durability := if fsync then .localFlush else .memory
  envelope := envelope

/-- Number the records from an offset on; the second argument counts them. -/
def stampFrom (assignment : PartitionAssignment) (firstOffset : ℕ) :
    ℕ → List StoredEnvelope → List StoredEnvelope
  | _, [] => []
  | index, envelope :: rest =>
    envelope.stamp (saturatingAdd firstOffset index) assignment.leaderEpoch
        (saturatingAdd_word _ _) assignment.epochWord ::
      stampFrom assignment firstOffset (index + 1) rest

/-- The requests after the first. Each names the offset before its own and the
checksum of the record before it. -/
def laterRequests (nodeId : ℕ) (assignment : PartitionAssignment) (fsync : Bool)
    (previous : Option PartitionCommitMetadata) : ℕ → List StoredEnvelope → List DataAppendRequest
  | _, [] => []
  | checksum, envelope :: rest =>
    leaderRequest nodeId assignment fsync previous (some (envelope.offset - 1)) (some checksum)
        envelope ::
      laterRequests nodeId assignment fsync previous envelope.checksum rest

/-- The requests for numbered records. The first one names the committed watermark. -/
def newRequests (nodeId : ℕ) (assignment : PartitionAssignment) (fsync : Bool)
    (previous : Option PartitionCommitMetadata) : List StoredEnvelope → List DataAppendRequest
  | [] => []
  | envelope :: rest =>
    leaderRequest nodeId assignment fsync previous
        (previous.map (·.highWatermark))
        (previous.map (·.checksum)) envelope ::
      laterRequests nodeId assignment fsync previous envelope.checksum rest

/-- The offset the first new record takes. -/
def firstOffset (previous : Option PartitionCommitMetadata) : ℕ :=
  previous.elim 0 (fun commit => saturatingSucc commit.highWatermark)

/-- Check a batch against the leader's state and build its requests. -/
def prepareBatch (leader : ReplicaDataStore) (nodeId : ℕ) (metadata : ClusterMetadata)
    (limits : BatchLimits) (fsync clusterDurable : Bool) (batch : List StoredEnvelope) :
    Outcome (List DataAppendRequest) := do
  ensure (batch ≠ [] ∧ batch.length ≤ limits.records)
    "partition replication batch is outside the supported bound"
  ensure ((batch.map dataAppendEnvelopeBytes).sum ≤ limits.bytes)
    "partition replication batch bytes exceed the supported bound"
  match batch with
  | [] => .error (.error "partition replication batch was empty")
  | first :: _ =>
    let key := first.ref.key
    ensure (∀ envelope ∈ batch, envelope.ref.key = key)
      "partition replication batch contains multiple partitions"
    let commits := durableCommits metadata.partitionCommits leader
    ensure (leader.hasCommittedPrefix commits = true) "no safe replica available"
    match metadata.partitionAssignments.get? key with
    | none => .error (.error "partition has no metadata assignment")
    | some assignment =>
      ensure (metadata.partitionLocalCommit = true)
        "partition-local commit authority is unavailable"
      ensure (assignment.leaderId = nodeId) "partition leader assignment is not committed"
      let previous := (leader.commits.get? key).or (commits.get? key)
      ensure (∀ commit ∈ previous,
          commit.replicaSetGeneration = assignment.replicaSetGeneration)
        "partition commit generation is not safe"
      let stamped := stampFrom assignment (firstOffset previous) 0 batch
      let requests := newRequests nodeId assignment fsync previous stamped
      let requiredNodes :=
        if clusterDurable then assignment.replicas else assignment.activeCommitSet
      ensure (nodeId ∈ requiredNodes) "partition leader is outside the required commit set"
      pure requests

/-! ### One follower -/

/-- `u64::checked_sub(1)`. -/
def checkedPred (value : ℕ) : Option ℕ := if value = 0 then none else some (value - 1)

/-- The request for a committed record, with the checksum named as predecessor. -/
def catchUpRequest (first : DataAppendRequest) (predecessorChecksum : Option ℕ)
    (record : StoredEnvelope) : DataAppendRequest :=
  { first with
    predecessorOffset := checkedPred record.offset
    predecessorChecksum
    batchDigest := record.checksum
    envelope := record }

/-- The requests for records the follower lacks, in order. -/
def catchUpRequests (first : DataAppendRequest) :
    Option ℕ → List StoredEnvelope → List DataAppendRequest
  | _, [] => []
  | predecessorChecksum, record :: rest =>
    catchUpRequest first predecessorChecksum record ::
      catchUpRequests first (some record.checksum) rest

def requestBytes (requests : List DataAppendRequest) : ℕ :=
  (requests.map (fun request => dataAppendEnvelopeBytes request.envelope)).sum

/-- Cut requests into batches. The second argument is the batch being filled. -/
def batches (limits : BatchLimits) :
    List DataAppendRequest → List DataAppendRequest → List (List DataAppendRequest)
  | pending, [] => if pending = [] then [] else [pending]
  | pending, request :: rest =>
    if pending ≠ [] ∧ (pending.length = limits.records ∨
        limits.bytes < requestBytes pending + dataAppendEnvelopeBytes request.envelope) then
      pending :: batches limits [request] rest
    else batches limits (pending ++ [request]) rest

/-- Send batches until one is refused; the answer to the last record counts. -/
def sendBatches (limits : BatchLimits) : ReplicaDataStore → Option DataAppendResponse →
    List (List DataAppendRequest) → ReplicaDataStore × Outcome DataAppendResponse
  | follower, lastResponse, [] =>
    match lastResponse with
    | some response => (follower, .ok response)
    | none => (follower, .error (.error "partition append batch was empty"))
  | follower, _, batch :: rest =>
    match follower.appendBatch limits batch with
    | (next, .error failure) => (next, .error failure)
    | (next, .ok responses) => sendBatches limits next responses.getLast? rest

/-- Bring one follower up to date: ask for its progress, load the committed records
after it, and send them before the new requests. -/
def replicateTo (leader follower : ReplicaDataStore) (metadata : ClusterMetadata)
    (limits : BatchLimits) (requests : List DataAppendRequest) :
    ReplicaDataStore × Outcome DataAppendResponse :=
  match requests with
  | [] => (follower, .error .panicked)
  | first :: _ =>
    let ref := first.envelope.ref
    match leader.catchUpRecords (durableCommits metadata.partitionCommits leader) ref
        (follower.progress ref) with
    | .error failure => (follower, .error failure)
    | .ok records =>
      sendBatches limits follower none
        (batches limits [] (catchUpRequests first first.predecessorChecksum records ++ requests))

end Replication

end Morrow
