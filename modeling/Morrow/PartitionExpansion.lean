import Morrow.Procedure
import Morrow.RaftMetadata
import Morrow.Subject

/-!
# Partition expansion

A stream can be given more partitions while it is in use. A plan is begun, its new
partitions are reported as prepared, and the plan is activated. Every broker keeps a
table with the partitions and the epoch of each of its configured streams, and writes
the table to a file whenever a call has changed it.

Activation looks at the plan, opens the logs of the new partitions and, in a cluster,
writes the larger stream to the replicated metadata. Only then does it look at the plan
again and make it the current one. The table is not held in between, so other calls may
come in at that point.
-/

namespace Morrow

open ByteCodec

/-! ### The plan of one stream -/

structure ExpansionPlan where
  fromPartitions : PartitionId
  toPartitions : PartitionId
  epoch : ℕ
  preparedPartitions : PartitionId
deriving DecidableEq

structure PartitionExpansion where
  currentPartitions : PartitionId
  currentEpoch : ℕ
  pending : Option ExpansionPlan
deriving DecidableEq

namespace PartitionExpansion

variable (partitions : PartitionId)

def new (epoch : ℕ) : Option PartitionExpansion :=
  if 0 < partitions.value then some ⟨partitions, epoch, none⟩ else none

variable (expansion : PartitionExpansion)

/-- Plan more partitions. A plan for the same number of partitions is continued. -/
def begin (partitions : PartitionId) :
    PartitionExpansion × Option ExpansionPlan :=
  match expansion.pending with
  | some plan => (expansion, if plan.toPartitions = partitions then some plan else none)
  | none =>
    if partitions.value ≤ expansion.currentPartitions.value then (expansion, none)
    else
      let plan : ExpansionPlan := {
        fromPartitions := expansion.currentPartitions
        toPartitions := partitions
        epoch := saturatingSucc expansion.currentEpoch
        preparedPartitions := ⟨0, PartitionId.zero_bounded⟩ }
      ({ expansion with pending := some plan }, some plan)

/-- Note that the first `count` partitions are prepared. -/
def markPrepared (count : PartitionId) :
    PartitionExpansion × Bool :=
  match expansion.pending with
  | none => (expansion, false)
  | some plan =>
    if plan.toPartitions.value < count.value then (expansion, false)
    else
      let prepared :=
        if plan.preparedPartitions.value < count.value then count else plan.preparedPartitions
      ({ expansion with pending := some { plan with preparedPartitions := prepared } }, true)

def activate : PartitionExpansion × Bool :=
  match expansion.pending with
  | none => (expansion, false)
  | some plan =>
    if plan.preparedPartitions ≠ plan.toPartitions then (expansion, false)
    else (⟨plan.toPartitions, plan.epoch, none⟩, true)

def current : PartitionId × ℕ :=
  (expansion.currentPartitions, expansion.currentEpoch)

/-- Neither a begun plan nor progress with one changes what is current. -/
theorem begin_current :
    (expansion.begin partitions).1.current = expansion.current := by
  unfold begin
  split
  · rfl
  · split <;> rfl

theorem markPrepared_current (count : PartitionId) :
    (expansion.markPrepared count).1.current = expansion.current := by
  unfold markPrepared
  split
  · rfl
  · split <;> rfl

/-- The plan is the pending one and all of its partitions are prepared. -/
structure Prepared (expansion : PartitionExpansion) (partitions : PartitionId) (epoch : ℕ) :
    Prop where
  pending : expansion.pending.map (fun plan => (plan.toPartitions, plan.epoch)) =
    some (partitions, epoch)
  prepared : ∀ plan ∈ expansion.pending, plan.preparedPartitions = plan.toPartitions

section Prepared

variable {expansion : PartitionExpansion} {partitions : PartitionId} {epoch : ℕ}

section

variable (ready : expansion.Prepared partitions epoch)

include ready

theorem Prepared.plan :
    ∃ plan, expansion.pending = some plan ∧ plan.toPartitions = partitions ∧
      plan.epoch = epoch ∧ plan.preparedPartitions = plan.toPartitions := by
  obtain ⟨plan, pending, same⟩ := Option.map_eq_some_iff.mp ready.pending
  obtain ⟨partitions, epoch⟩ := Prod.mk.inj same
  exact ⟨plan, pending, partitions, epoch, ready.prepared plan pending⟩

/-- A prepared plan stays as it is until it is activated. -/
theorem Prepared.begin (other : PartitionId) :
    (expansion.begin other).1.Prepared partitions epoch := by
  obtain ⟨plan, pending, -⟩ := ready.plan
  have same : (expansion.begin other).1 = expansion := by
    simp only [PartitionExpansion.begin, pending]
  rwa [same]

theorem Prepared.markPrepared (count : PartitionId) :
    (expansion.markPrepared count).1.Prepared partitions epoch := by
  obtain ⟨plan, pending, rfl, rfl, prepared⟩ := ready.plan
  unfold PartitionExpansion.markPrepared
  simp only [pending]
  split
  · exact ready
  · rename_i bounded
    refine ⟨rfl, fun later same => ?_⟩
    obtain rfl := Option.some.inj same
    simp only [prepared, if_neg bounded]

theorem Prepared.activate : expansion.activate = (⟨partitions, epoch, none⟩, true) := by
  obtain ⟨plan, pending, rfl, rfl, prepared⟩ := ready.plan
  simp [PartitionExpansion.activate, pending, prepared]

end

end Prepared

/-! #### Plans lead on -/

/-- The plan, if there is one, leads on from what is current. -/
structure Ahead (expansion : PartitionExpansion) : Prop where
  word : expansion.currentEpoch ≤ u64Max
  plan : ∀ plan ∈ expansion.pending,
    expansion.currentPartitions.value < plan.toPartitions.value ∧
      plan.epoch = saturatingSucc expansion.currentEpoch

/-- Where plans lead on they go on doing so, and the stream has as many partitions as
before, or more, and no earlier epoch. -/
def Grows (before after : PartitionExpansion) : Prop :=
  before.Ahead → after.Ahead ∧ before.currentPartitions.value ≤ after.currentPartitions.value ∧
    before.currentEpoch ≤ after.currentEpoch

theorem Grows.refl : expansion.Grows expansion := fun ahead => ⟨ahead, le_rfl, le_rfl⟩

theorem grows_begin : expansion.Grows (expansion.begin partitions).1 := by
  unfold begin
  split
  · exact .refl _
  · split
    · exact .refl _
    · rename_i more
      refine fun ahead => ⟨⟨ahead.word, ?_⟩, le_rfl, le_rfl⟩
      rintro plan ⟨⟩
      exact ⟨not_le.mp more, rfl⟩

theorem grows_markPrepared (count : PartitionId) :
    expansion.Grows (expansion.markPrepared count).1 := by
  unfold markPrepared
  split
  · exact .refl _
  · rename_i plan pending
    split
    · exact .refl _
    · refine fun ahead => ⟨⟨ahead.word, ?_⟩, le_rfl, le_rfl⟩
      rintro later ⟨⟩
      exact ahead.plan plan pending

theorem grows_activate : expansion.Grows expansion.activate.1 := by
  unfold activate
  split
  · exact .refl _
  · rename_i plan pending
    split
    · exact .refl _
    · intro ahead
      obtain ⟨more, epoch⟩ := ahead.plan plan pending
      have later : expansion.currentEpoch ≤ plan.epoch := by
        rw [epoch, saturatingSucc]
        split
        · exact Nat.le_succ _
        · exact ahead.word
      refine ⟨⟨?_, nofun⟩, more.le, later⟩
      rw [epoch]
      exact saturatingSucc_le_max _

end PartitionExpansion

/-- Every entry of a table is there later, and has grown. -/
def TableGrows (before after : OrderedMap String PartitionExpansion) : Prop :=
  ∀ stream entry, before.get? stream = some entry →
    ∃ later, after.get? stream = some later ∧ entry.Grows later

/-! ### Streams and nodes -/

inductive PartitioningStrategy
  | key
  | subjectToken (token : ℕ)
deriving DecidableEq

inductive PartitionFallback
  | sticky
  | subjectHash
deriving DecidableEq

inductive CompactionPolicy
  | none
  | key
deriving DecidableEq

structure StoragePolicy where
  replicas : ℕ
  minAckReplicas : ℕ
deriving DecidableEq

/-- A configured stream, with the parts of its definition that expansion, the choice of a
partition and a restart read. -/
structure ConfiguredStream extends ClusterStream where
  strategy : PartitioningStrategy
  fallback : PartitionFallback
  storage : StoragePolicy
  compaction : CompactionPolicy
deriving DecidableEq

inductive ClusterRole
  | combined
  | controller
  | broker
deriving DecidableEq

structure ClusterConfig where
  role : ClusterRole
  nodes : List ℕ
  controllerVoters : List ℕ
deriving DecidableEq

def stableHash (bytes : Bytes) : UInt64 :=
  bytes.foldl (fun hash byte => (hash ^^^ byte.toUInt64) * 0x100000001b3) 0xcbf29ce484222325

variable (stream : ConfiguredStream)

def fallbackHash (subject : String) (stickyValue : UInt64) : UInt64 :=
  match stream.fallback with
  | .sticky => stickyValue
  | .subjectHash => stableHash (utf8 subject)

/-- The partition of a message, among the given number of partitions. -/
def selectPartitionWithCount (subject : String) (key : Option Bytes)
    (stickyValue : UInt64) (partitionCount : PartitionId) : Outcome PartitionId :=
  if positive : 0 < partitionCount.value then
    let value := match key, stream.strategy with
      | some key, _ => stableHash key
      | none, .subjectToken token =>
        match (Subject.split subject)[token]? with
        | some value => stableHash (utf8 value)
        | none => fallbackHash stream subject stickyValue
      | none, .key => fallbackHash stream subject stickyValue
    .ok ⟨value.toNat % partitionCount.value, (Nat.mod_lt _ positive).trans partitionCount.bounded⟩
  else .error .panicked

/-- The nodes that store partitions, in order. -/
def ClusterConfig.dataNodes (config : ClusterConfig) : List ℕ :=
  (config.nodes.filter fun node =>
    config.role = .combined ∨ node ∉ config.controllerVoters).mergeSort (· ≤ ·)

/-- A number in big-endian order. -/
def bigEndian (width value : ℕ) : Bytes := (littleEndian width value).reverse

variable (stream : String) (partition : PartitionId)

def rendezvousScore (nodeId : ℕ) : UInt64 :=
  stableHash (utf8 stream ++ bigEndian 4 partition.value ++ bigEndian 8 nodeId)

/-- The nodes with the highest scores for a partition. -/
def initialPartitionReplicas (dataNodes : List ℕ)
    (replicaCount : ℕ) : List ℕ :=
  let count := max (min replicaCount dataNodes.length) 1
  let scored := dataNodes.map fun nodeId => (rendezvousScore stream partition nodeId, nodeId)
  let sorted := scored.mergeSort fun left right =>
    right.1 < left.1 ∨ right.1 = left.1 ∧ left.2 ≤ right.2
  (sorted.take count).map Prod.snd

/-- The first assignment of a new partition. -/
def initialAssignment (storage : StoragePolicy) (dataNodes : List ℕ)
    (partition : PartitionId) : Outcome PartitionAssignmentMetadata :=
  let replicaCount := max (min storage.replicas dataNodes.length) 1
  let selected := initialPartitionReplicas stream partition dataNodes replicaCount
  match selected with
  | [] => .error .panicked
  | leaderId :: _ =>
    let replicas := selected.toFinset
    let activeCount := max (min storage.minAckReplicas replicaCount) 1
    let others := (replicas.sort (· ≤ ·)).filter (· ≠ leaderId)
    .ok {
      replicas
      activeCommitSet := ((leaderId :: others).take activeCount).toFinset
      replicaSetGeneration := 1
      phase := .stable
      leaderId
      leaderEpoch := 1 }

/-- The partitions `first..last`. -/
def partitionsFrom (first last : PartitionId) : List PartitionId :=
  (partitionsBelow last).filter fun partition => first.value ≤ partition.value

/-- The log of a partition that nothing was stored in. -/
def PartitionLog.blank (stream : StreamId) (partition : PartitionId) : PartitionLog where
  stream
  partition
  records := []
  nextOffset := 0
  retentionRecords := []
  retainedBytes := 0
  deletedMessages := 0
  deletedBytes := 0
  increasing := List.Pairwise.nil
  exceeded := nofun

/-! ### The calls of a broker -/

/-- What an activation has read of the plan. -/
structure Activation where
  stream : String
  currentPartitions : PartitionId
  targetPartitions : PartitionId
  pendingEpoch : ℕ
deriving DecidableEq

/-- The parts of a broker that expansion reads and changes. The metadata is there when
the broker is part of a cluster, as far as it is applied here. -/
structure ExpansionBroker where
  streams : List ConfiguredStream
  cluster : Option ClusterConfig
  metadata : Option DurableState
  logs : PartitionLogSet
  expansions : OrderedMap String PartitionExpansion
  saved : Option (OrderedMap String PartitionExpansion)

/-- The table of a broker that starts: the configured streams, and for these what was
saved. -/
def openExpansions (streams : List ConfiguredStream)
    (saved : Option (OrderedMap String PartitionExpansion)) :
    OrderedMap String PartitionExpansion :=
  let configured := OrderedMap.ofList (streams.filterMap fun stream =>
    (PartitionExpansion.new stream.partitions stream.partitioningEpoch).map fun expansion =>
      (stream.name.name, expansion))
  match saved with
  | none => configured
  | some persisted => configured.overwrite persisted

/-- A publish that names an epoch must name the current one. -/
def checkPartitioningEpoch (requestedEpoch : Option ℕ) (partitioningEpoch : ℕ) : Outcome Unit :=
  match requestedEpoch with
  | none => .ok ()
  | some requested => ensure (requested = partitioningEpoch)
      s!"stale partitioning epoch {requested}; current epoch is {partitioningEpoch}"

namespace ExpansionBroker

/-- The number of partitions of a stream and the epoch of that number. -/
def partitioningForStream (broker : ExpansionBroker) (stream : String)
    (configured : PartitionId × ℕ) : PartitionId × ℕ :=
  match broker.expansions.get? stream with
  | some expansion => expansion.current
  | none =>
    match broker.metadata.bind (·.streamDefinitions.get? stream) with
    | some definition => (definition.partitions, definition.partitioningEpoch)
    | none => configured

def persistPartitionExpansions : Procedure ExpansionBroker Unit :=
  .change fun broker => { broker with saved := some broker.expansions }

/-- Look up a stream of the table. -/
def expansion (stream : String) : Procedure ExpansionBroker PartitionExpansion := do
  let expansions ← .read (·.expansions)
  match expansions.get? stream with
  | none => .await (.error (.error "unknown stream"))
  | some expansion => pure expansion

section Lookup

variable {α : Type} {stream : String} {broker : ExpansionBroker}

variable (next : PartitionExpansion → Procedure ExpansionBroker α)

theorem expansion_bind_of_none (missing : broker.expansions.get? stream = none) :
    (expansion stream >>= next) broker = (broker, .error (.error "unknown stream")) := by
  refine Procedure.bind_of_error ?_
  simp only [expansion, Procedure.read_bind, missing]
  rfl

theorem expansion_bind_of_some {entry : PartitionExpansion}
    (found : broker.expansions.get? stream = some entry) :
    (expansion stream >>= next) broker = next entry broker := by
  refine Procedure.bind_of_ok ?_
  simp only [expansion, Procedure.read_bind, found]
  rfl

end Lookup

/-- Put a stream into the table. -/
def install (stream : String) (expansion : PartitionExpansion) : Procedure ExpansionBroker Unit :=
  .change fun broker => { broker with expansions := broker.expansions.insert stream expansion }

def beginPartitionExpansion (stream : String) (partitions : PartitionId) :
    Procedure ExpansionBroker ExpansionPlan := do
  let before ← expansion stream
  let begun := before.begin partitions
  install stream begun.1
  match begun.2 with
  | none => .await (.error (.error "partition expansion is already pending or not larger"))
  | some plan => do
    persistPartitionExpansions
    pure plan

def markPartitionExpansionPrepared (stream : String) (preparedPartitions : PartitionId) :
    Procedure ExpansionBroker Unit := do
  let before ← expansion stream
  let marked := before.markPrepared preparedPartitions
  install stream marked.1
  .await (ensure (marked.2 = true) "invalid partition expansion preparation progress")
  persistPartitionExpansions

/-! #### Activation -/

/-- Look up the plan. -/
def startActivation (stream : String) : Procedure ExpansionBroker Activation := do
  let expansion ← expansion stream
  match expansion.pending with
  | none => .await (.error (.error "partition expansion is not pending"))
  | some plan =>
    pure ⟨stream, expansion.currentPartitions, plan.toPartitions, plan.epoch⟩

/-- Open the log of a new partition. -/
def activatePartition (ref : PartitionRef) (reserved : Bool) (opened : Outcome PartitionLog) :
    Procedure ExpansionBroker Unit := fun broker =>
  match broker.logs.activatePartition ref reserved opened with
  | .error failure => (broker, .error failure)
  | .ok logs => ({ broker with logs }, .ok ())

/-- The larger stream and the assignments of its new partitions. -/
def partitionsUpdate (streams : List ConfiguredStream) (cluster : Option ClusterConfig)
    (activation : Activation) :
    Outcome (ClusterStream × OrderedMap String PartitionAssignmentMetadata) :=
  match cluster with
  | none => .error (.error "cluster configuration is unavailable")
  | some config =>
    match streams.find? (fun definition => definition.name.name == activation.stream) with
    | none => .error (.error "unknown stream")
    | some definition => do
      let assignments ←
        (partitionsFrom activation.currentPartitions activation.targetPartitions).mapM
          fun partition => do
            let assignment ← initialAssignment activation.stream definition.storage
              config.dataNodes partition
            pure (partitionKey activation.stream partition.value, assignment)
      pure ({ definition.toClusterStream with
          partitions := activation.targetPartitions
          partitioningEpoch := activation.pendingEpoch }, .ofList assignments)

variable (activation : Activation)

/-- Write the larger stream to the replicated metadata. Whether the command is committed,
and what the write returns then, is decided by the cluster. -/
def writePartitions (committed : Bool) (answer : Outcome Unit) :
    Procedure ExpansionBroker Unit := fun broker =>
  match broker.metadata with
  | none => (broker, .ok ())
  | some metadata =>
    match partitionsUpdate broker.streams broker.cluster activation with
    | .error failure => (broker, .error failure)
    | .ok (stream, assignments) =>
      if committed then
        ({ broker with metadata := some (metadata.streamPartitionsUpdate stream assignments).1 },
          answer)
      else (broker, answer)

/-- Make the plan the current one, if it still is the plan that was looked up. -/
def finishActivation : Procedure ExpansionBroker (PartitionId × ℕ) := do
  let expansion ← expansion activation.stream
  match expansion.pending with
  | none => .await (.error (.error "partition expansion is not pending"))
  | some plan => do
    .await (ensure (plan.toPartitions = activation.targetPartitions ∧
        plan.epoch = activation.pendingEpoch)
      "partition expansion changed while activating")
    install activation.stream expansion.activate.1
    .await (ensure (expansion.activate.2 = true) "partition expansion is not fully prepared")
    persistPartitionExpansions
    pure expansion.activate.1.current

/-- Open the logs of the new partitions, one by one. -/
def activatePartitions (stream : String) (opened : PartitionId → Bool × Outcome PartitionLog) :
    List PartitionId → Procedure ExpansionBroker Unit
  | [] => pure ()
  | partition :: partitions => do
    activatePartition ⟨stream, partition⟩ (opened partition).1 (opened partition).2
    activatePartitions stream opened partitions

/-- An activation that no other call interrupts. -/
def activatePartitionExpansion (stream : String)
    (opened : PartitionId → Bool × Outcome PartitionLog) (committed : Bool)
    (answer : Outcome Unit) : Procedure ExpansionBroker (PartitionId × ℕ) := do
  let activation ← startActivation stream
  activatePartitions stream opened
    (partitionsFrom activation.currentPartitions activation.targetPartitions)
  writePartitions activation committed answer
  finishActivation activation

end ExpansionBroker

end Morrow
