import Morrow.BrokerRecords
import Morrow.ReplicaData

/-!
# The replicated metadata

The brokers of a cluster agree on a log of commands. Applying the commands in order
yields the metadata every broker works with: the streams, the assignment of each
partition to its replicas, how far each partition is committed, the consumers, the
groups and the access policy. A command whose conditions are not met is answered
with a no-op, but the assignment it looked at has been normalised by then.
-/

namespace Morrow

/-- The parts of a stream's definition that the metadata commands read. -/
structure ClusterStream extends StreamDefinition where
  partitioningEpoch : ℕ
deriving DecidableEq

/-! ### Access policy -/

inductive Permission
  | publish
  | subscribe
  | manageStreams
  | manageConsumers
  | manageConnectors
  | manageMiddleware
  | operateCluster
  | observe
  | manageAuth
  | manageKeys
deriving DecidableEq

structure Role where
  name : String
  permissions : Finset Permission
deriving DecidableEq

structure ResourceScope where
  tenant : String
  nameSpace : String
deriving DecidableEq

structure RoleBinding where
  subject : String
  scope : ResourceScope
  role : String
  expiresAtMs : Option ℕ
deriving DecidableEq

structure PolicySnapshot where
  generation : ℕ
  roles : OrderedMap String Role
  bindings : List RoleBinding
deriving DecidableEq

/-! ### Partition assignments -/

/-- Where a partition stands in a change of its replica set. -/
inductive PartitionReconfigurationPhase
  | stable
  | adding (candidate : ℕ)
  | catchingUp (candidate committedOffset digest : ℕ)
  | activating (candidate : ℕ)
  | demoting (member : ℕ)
  | rolledBack (reason : String)
deriving DecidableEq

def PartitionReconfigurationPhase.isActivating : PartitionReconfigurationPhase → Bool
  | .activating _ => true
  | _ => false

structure PartitionAssignmentMetadata where
  replicas : Finset ℕ
  activeCommitSet : Finset ℕ
  replicaSetGeneration : ℕ
  phase : PartitionReconfigurationPhase
  leaderId : ℕ
  leaderEpoch : ℕ
deriving DecidableEq

/-- Fill in what older metadata does not say. -/
def PartitionAssignmentMetadata.normalize (assignment : PartitionAssignmentMetadata) :
    PartitionAssignmentMetadata :=
  { assignment with
    activeCommitSet :=
      if assignment.activeCommitSet = ∅ then assignment.replicas else assignment.activeCommitSet
    replicaSetGeneration :=
      if assignment.replicaSetGeneration = 0 then 1 else assignment.replicaSetGeneration }

/-- A requested change of a partition's replica set. -/
structure PartitionReconfiguration where
  stream : String
  partition : ℕ
  generation : ℕ
  phase : PartitionReconfigurationPhase
  replicas : Finset ℕ
  activeCommitSet : Finset ℕ
  leaderId : ℕ
  leaderEpoch : ℕ
  committedOffset : Option ℕ
  committedChecksum : Option ℕ
deriving DecidableEq

structure PartitionCommit where
  stream : String
  partition : ℕ
  offset : ℕ
  checksum : ℕ
  leaderId : ℕ
  leaderEpoch : ℕ
deriving DecidableEq

inductive BrokerCommand
  | metadataBootstrap (streams : List ClusterStream)
      (assignments : OrderedMap String PartitionAssignmentMetadata)
      (securityReferences featureGates : Finset String)
  | streamPartitionsUpdate (stream : ClusterStream)
      (assignments : OrderedMap String PartitionAssignmentMetadata)
  | partitionLeaderUpdate (stream : String) (partition leaderId leaderEpoch : ℕ)
  | partitionReconfiguration (request : PartitionReconfiguration)
  | partitionCommit (request : PartitionCommit)
  | consumerUpsert (record : ConsumerRecord)
  | cursorConsumerUpsert (record : ConsumerRecord) (cursors : ConsumerCursorSet)
  | consumerDelete (consumerId : String)
  | groupUpsert (group : String) (record : GroupRecord)
  | policyReplace (snapshot : PolicySnapshot)

inductive BrokerResponse
  | metadataBootstrap
  | streamPartitionsUpdate
  | partitionLeaderUpdate (leaderId leaderEpoch : ℕ)
  | partitionReconfiguration (generation : ℕ) (phase : PartitionReconfigurationPhase)
  | partitionCommit (highWatermark leaderEpoch : ℕ)
  | consumerUpsert
  | consumerDelete
  | groupUpsert
  | policyReplace (generation : ℕ)
  | noop
deriving DecidableEq

/-! ### The state -/

/-- The position of an entry in the log of commands. -/
structure LogId where
  term : ℕ
  nodeId : ℕ
  index : ℕ
deriving DecidableEq

/-- The voters of each configuration, and the addresses of all nodes. -/
structure Membership where
  configs : List (Finset ℕ)
  nodes : OrderedMap ℕ String
deriving DecidableEq

structure StoredMembership where
  logId : Option LogId
  membership : Membership
deriving DecidableEq

structure MetadataConsumer where
  record : ConsumerRecord
  cursors : ConsumerCursorSet
deriving DecidableEq

structure DurableState where
  streamDefinitions : OrderedMap String ClusterStream
  partitionAssignments : OrderedMap String PartitionAssignmentMetadata
  securityReferences : Finset String
  featureGates : Finset String
  consumers : OrderedMap String MetadataConsumer
  groups : OrderedMap String GroupRecord
  nextPartitionOffsets : OrderedMap String ℕ
  partitionCommits : PartitionCommits
  policy : Option PolicySnapshot
  lastApplied : Option LogId
  lastMembership : StoredMembership
deriving DecidableEq

/-- The rest of a text behind the given beginning. -/
def stripPrefix (front text : String) : Option String :=
  if front.toList.isPrefixOf text.toList then
    some (String.ofList (text.toList.drop front.toList.length))
  else none

namespace DurableState

def new (nodes : OrderedMap ℕ String) : DurableState where
  streamDefinitions := ∅
  partitionAssignments := ∅
  securityReferences := ∅
  featureGates := ∅
  consumers := ∅
  groups := ∅
  nextPartitionOffsets := ∅
  partitionCommits := ∅
  policy := none
  lastApplied := none
  lastMembership := ⟨none, [nodes.keys.toFinset], nodes⟩

/-! ### Streams -/

variable (state : DurableState)

def metadataBootstrap (streams : List ClusterStream)
    (assignments : OrderedMap String PartitionAssignmentMetadata)
    (securityReferences featureGates : Finset String) : DurableState × BrokerResponse :=
  if state.streamDefinitions = ∅ then
    ({ state with
       streamDefinitions := OrderedMap.ofList (streams.map fun stream => (stream.name.name, stream))
       partitionAssignments := assignments.mapValues fun _ => PartitionAssignmentMetadata.normalize
       securityReferences := securityReferences
       featureGates := featureGates }, .metadataBootstrap)
  else (state, .noop)

/-- The update gives a known stream more partitions under a later epoch, and names no
partition of the stream beyond them. -/
def GrowsStream (stream : ClusterStream)
    (assignments : OrderedMap String PartitionAssignmentMetadata) : Prop :=
  ∃ current ∈ state.streamDefinitions.get? stream.name.name,
    current.partitions.value < stream.partitions.value ∧
      current.partitioningEpoch < stream.partitioningEpoch ∧
      ∀ key ∈ assignments.keys,
        ∀ partition ∈ (stripPrefix (stream.name.name ++ ":") key).bind parseU32,
          partition.value < stream.partitions.value

instance (state : DurableState) (stream : ClusterStream)
    (assignments : OrderedMap String PartitionAssignmentMetadata) :
    Decidable (state.GrowsStream stream assignments) := by
  unfold GrowsStream
  infer_instance

def streamPartitionsUpdate (stream : ClusterStream)
    (assignments : OrderedMap String PartitionAssignmentMetadata) :
    DurableState × BrokerResponse :=
  if state.GrowsStream stream assignments then
    ({ state with
       streamDefinitions := state.streamDefinitions.insert stream.name.name stream
       partitionAssignments := (state.partitionAssignments.extend assignments).mapValues
         fun _ => PartitionAssignmentMetadata.normalize }, .streamPartitionsUpdate)
  else (state, .noop)

def policyReplace (snapshot : PolicySnapshot) :
    DurableState × BrokerResponse :=
  if state.policy.any (fun current => snapshot.generation < current.generation) then (state, .noop)
  else ({ state with policy := some snapshot }, .policyReplace snapshot.generation)

/-! ### Partitions -/

variable (assignment : PartitionAssignmentMetadata)

/-- The command names the leader of the partition, which may commit. -/
def MayCommit (request : PartitionCommit) : Prop :=
  assignment.leaderId = request.leaderId ∧ assignment.leaderEpoch = request.leaderEpoch ∧
    request.leaderId ∈ (if assignment.activeCommitSet = ∅ then assignment.replicas
      else assignment.activeCommitSet) ∧
    assignment.phase = .stable

instance (assignment : PartitionAssignmentMetadata) (request : PartitionCommit) :
    Decidable (MayCommit assignment request) :=
  inferInstanceAs (Decidable (_ ∧ _))

/-- The commit is the one that was made last. -/
def Repeats (committed : PartitionCommitMetadata) (request : PartitionCommit) : Prop :=
  committed.highWatermark = request.offset ∧ committed.leaderId = request.leaderId ∧
    committed.leaderEpoch = request.leaderEpoch ∧ committed.checksum = request.checksum

instance (committed : PartitionCommitMetadata) (request : PartitionCommit) :
    Decidable (Repeats committed request) :=
  inferInstanceAs (Decidable (_ ∧ _))

/-- The offset a partition's next commit has to name. -/
def nextOffset (key : String) : ℕ :=
  (state.nextPartitionOffsets.get? key).getD 0

/-- Note the next offset of a partition, as zero if it was not known. -/
def noteNextOffset (key : String) : DurableState :=
  { state with
    nextPartitionOffsets := state.nextPartitionOffsets.insert key (state.nextOffset key) }

/-- Commit the next offset of a partition. -/
def advanceCommit
    (request : PartitionCommit) : DurableState :=
  let key := partitionKey request.stream request.partition
  { state with
    nextPartitionOffsets := state.nextPartitionOffsets.insert key (saturatingSucc request.offset)
    partitionCommits := state.partitionCommits.insert key
      ⟨assignment.replicaSetGeneration, request.offset, request.checksum, request.leaderId,
        request.leaderEpoch⟩ }

/-- The next offset of a partition is noted before the rest is looked at. -/
def partitionCommit (request : PartitionCommit) :
    DurableState × BrokerResponse :=
  let key := partitionKey request.stream request.partition
  match state.partitionAssignments.get? key with
  | none => (state, .noop)
  | some assignment =>
    if ¬ MayCommit assignment request then (state, .noop)
    else
      let noted := state.noteNextOffset key
      let committed := state.partitionCommits.get? key
      if committed.any (fun current => Repeats current request) then
        (noted, .partitionCommit request.offset request.leaderEpoch)
      else if committed.any (fun current => request.leaderEpoch < current.leaderEpoch) then
        (noted, .noop)
      else if state.nextOffset key ≠ request.offset then (noted, .noop)
      else
        (noted.advanceCommit assignment request,
          .partitionCommit request.offset request.leaderEpoch)

/-- Change the assignment of a partition. -/
def assign (key : String) (assignment : PartitionAssignmentMetadata) :
    DurableState :=
  { state with partitionAssignments := state.partitionAssignments.insert key assignment }

/-- A member of the commit set may lead the next epoch of a stable partition. -/
def MayLead (leaderId leaderEpoch : ℕ) : Prop :=
  leaderEpoch = saturatingSucc assignment.leaderEpoch ∧ leaderId ∈ assignment.activeCommitSet ∧
    assignment.phase = .stable

instance (assignment : PartitionAssignmentMetadata) (leaderId leaderEpoch : ℕ) :
    Decidable (MayLead assignment leaderId leaderEpoch) :=
  inferInstanceAs (Decidable (_ ∧ _))

def partitionLeaderUpdate (stream : String)
    (partition leaderId leaderEpoch : ℕ) : DurableState × BrokerResponse :=
  let key := partitionKey stream partition
  match state.partitionAssignments.get? key with
  | none => (state, .noop)
  | some found =>
    let assignment := found.normalize
    if assignment.leaderId = leaderId ∧ assignment.leaderEpoch = leaderEpoch then
      (state.assign key assignment, .partitionLeaderUpdate leaderId leaderEpoch)
    else if MayLead assignment leaderId leaderEpoch then
      (state.assign key { assignment with leaderId := leaderId, leaderEpoch := leaderEpoch },
        .partitionLeaderUpdate leaderId leaderEpoch)
    else (state.assign key assignment, .noop)

/-- What the request must satisfy in itself and against the generation. -/
def WellFormed (request : PartitionReconfiguration) :
    Prop :=
  assignment.replicaSetGeneration ≤ request.generation ∧
    request.generation ≤ saturatingSucc assignment.replicaSetGeneration ∧
    request.activeCommitSet ≠ ∅ ∧ request.activeCommitSet ⊆ request.replicas ∧
    request.leaderId ∈ request.replicas ∧ request.leaderId ∈ request.activeCommitSet ∧
    (request.phase = .stable → request.replicas.card < 2 * request.activeCommitSet.card)

instance (assignment : PartitionAssignmentMetadata) (request : PartitionReconfiguration) :
    Decidable (WellFormed assignment request) :=
  inferInstanceAs (Decidable (_ ∧ _))

/-- The request names what the partition has committed. -/
def NamesCommitted (committed : Option PartitionCommitMetadata)
    (request : PartitionReconfiguration) : Prop :=
  ∃ current ∈ committed, request.committedOffset = some current.highWatermark ∧
    request.committedChecksum = some current.checksum

instance (committed : Option PartitionCommitMetadata) (request : PartitionReconfiguration) :
    Decidable (NamesCommitted committed request) := by
  unfold NamesCommitted
  infer_instance

/-- The assignment the request asks for. -/
def requested (request : PartitionReconfiguration) : PartitionAssignmentMetadata where
  replicas := request.replicas
  activeCommitSet := request.activeCommitSet
  replicaSetGeneration := request.generation
  phase := request.phase
  leaderId := request.leaderId
  leaderEpoch := request.leaderEpoch

/-- The leader stays, or the epoch grows. -/
def KeepsLeader (request : PartitionReconfiguration) :
    Prop :=
  assignment.leaderEpoch < request.leaderEpoch ∨
    assignment.leaderEpoch = request.leaderEpoch ∧ assignment.leaderId = request.leaderId

instance (assignment : PartitionAssignmentMetadata) (request : PartitionReconfiguration) :
    Decidable (KeepsLeader assignment request) :=
  inferInstanceAs (Decidable (_ ∨ _))

/-- The request passes every check. -/
structure Reconfigures (state : DurableState) (assignment : PartitionAssignmentMetadata)
    (request : PartitionReconfiguration) : Prop where
  wellFormed : WellFormed assignment request
  names : request.phase.isActivating = true →
    NamesCommitted
      (state.partitionCommits.get? (partitionKey request.stream request.partition)) request
  keeps : KeepsLeader assignment request

def partitionReconfiguration (request : PartitionReconfiguration) :
    DurableState × BrokerResponse :=
  let key := partitionKey request.stream request.partition
  match state.partitionAssignments.get? key with
  | none => (state, .noop)
  | some found =>
    let assignment := found.normalize
    if ¬ WellFormed assignment request then (state.assign key assignment, .noop)
    else if request.phase.isActivating = true ∧
        ¬ NamesCommitted (state.partitionCommits.get? key) request then
      (state.assign key assignment, .noop)
    else if assignment = requested request then
      (state.assign key assignment, .partitionReconfiguration request.generation request.phase)
    else if ¬ KeepsLeader assignment request then (state.assign key assignment, .noop)
    else (state.assign key (requested request),
      .partitionReconfiguration request.generation request.phase)

/-! ### Consumers and groups -/

/-- A known consumer keeps its cursors. -/
def upsertConsumer (record : ConsumerRecord)
    (cursors : ConsumerCursorSet) : DurableState × BrokerResponse :=
  let consumer := match state.consumers.get? record.consumerId with
    | some consumer => { consumer with record := record }
    | none => ⟨record, cursors⟩
  ({ state with consumers := state.consumers.insert record.consumerId consumer }, .consumerUpsert)

def applyCommand : BrokerCommand → DurableState × BrokerResponse
  | .metadataBootstrap streams assignments securityReferences featureGates =>
    state.metadataBootstrap streams assignments securityReferences featureGates
  | .streamPartitionsUpdate stream assignments => state.streamPartitionsUpdate stream assignments
  | .policyReplace snapshot => state.policyReplace snapshot
  | .partitionCommit request => state.partitionCommit request
  | .partitionLeaderUpdate stream partition leaderId leaderEpoch =>
    state.partitionLeaderUpdate stream partition leaderId leaderEpoch
  | .partitionReconfiguration request => state.partitionReconfiguration request
  | .consumerUpsert record => state.upsertConsumer record ConsumerCursorSet.default
  | .cursorConsumerUpsert record cursors => state.upsertConsumer record cursors
  | .consumerDelete consumerId =>
    ({ state with consumers := state.consumers.erase consumerId }, .consumerDelete)
  | .groupUpsert group record =>
    ({ state with groups := state.groups.insert group record }, .groupUpsert)

/-! ### What the commands can do to assignments -/

variable (state : DurableState)

/-- What a command can do to the assignment of a partition. -/
inductive Changes (key : String) : BrokerCommand → Option PartitionAssignmentMetadata →
    Option PartitionAssignmentMetadata → Prop
  | same {command assignment} : Changes key command assignment assignment
  | normalized {command} (assignment : PartitionAssignmentMetadata) :
    Changes key command (some assignment) (some assignment.normalize)
  | bootstrapped {streams assignments references gates before}
    (unknown : state.streamDefinitions = ∅) :
    Changes key (.metadataBootstrap streams assignments references gates) before
      ((assignments.get? key).map PartitionAssignmentMetadata.normalize)
  | grown {stream assignments before} {assignment : PartitionAssignmentMetadata}
    (grows : state.GrowsStream stream assignments)
    (carried : assignments.get? key = some assignment) :
    Changes key (.streamPartitionsUpdate stream assignments) before (some assignment.normalize)
  | led {stream partition leaderId leaderEpoch} {assignment : PartitionAssignmentMetadata}
    (here : key = partitionKey stream partition)
    (mayLead : MayLead assignment.normalize leaderId leaderEpoch) :
    Changes key (.partitionLeaderUpdate stream partition leaderId leaderEpoch) (some assignment)
      (some { assignment.normalize with leaderId := leaderId, leaderEpoch := leaderEpoch })
  | reconfigured {request} {assignment : PartitionAssignmentMetadata}
    (here : key = partitionKey request.stream request.partition)
    (reconfigures : state.Reconfigures assignment.normalize request) :
    Changes key (.partitionReconfiguration request) (some assignment) (some (requested request))

/-- The command changes at most the assignment of one partition. -/
def ChangesOne (changed : String) (command : BrokerCommand) (after : DurableState) : Prop :=
  after = state ∨ ∃ found assignment, state.partitionAssignments.get? changed = some found ∧
    state.Changes changed command (some found) (some assignment) ∧
    after = state.assign changed assignment

variable {state} in
theorem ChangesOne.changes {changed : String} {command : BrokerCommand} {after : DurableState}
    (one : state.ChangesOne changed command after) (key : String) :
    state.Changes key command (state.partitionAssignments.get? key)
      (after.partitionAssignments.get? key) := by
  rcases one with rfl | ⟨found, assignment, held, changes, rfl⟩
  · exact .same
  · simp only [assign, OrderedMap.get?_insert]
    split
    · rename_i same
      rw [same, held]
      exact changes
    · exact .same

theorem partitionLeaderUpdate_changes (stream : String) (partition leaderId leaderEpoch : ℕ) :
    state.ChangesOne (partitionKey stream partition)
      (.partitionLeaderUpdate stream partition leaderId leaderEpoch)
      (state.partitionLeaderUpdate stream partition leaderId leaderEpoch).1 := by
  simp only [partitionLeaderUpdate]
  split
  · exact .inl rfl
  · rename_i found held
    split
    · exact .inr ⟨found, _, held, .normalized found, rfl⟩
    · split
      · rename_i mayLead
        exact .inr ⟨found, _, held, .led rfl mayLead, rfl⟩
      · exact .inr ⟨found, _, held, .normalized found, rfl⟩

theorem partitionReconfiguration_changes (request : PartitionReconfiguration) :
    state.ChangesOne (partitionKey request.stream request.partition)
      (.partitionReconfiguration request) (state.partitionReconfiguration request).1 := by
  simp only [partitionReconfiguration]
  split
  · exact .inl rfl
  · rename_i found held
    split
    · exact .inr ⟨found, _, held, .normalized found, rfl⟩
    · rename_i wellFormed
      split
      · exact .inr ⟨found, _, held, .normalized found, rfl⟩
      · rename_i names
        split
        · exact .inr ⟨found, _, held, .normalized found, rfl⟩
        · split
          · exact .inr ⟨found, _, held, .normalized found, rfl⟩
          · rename_i keeps
            refine .inr ⟨found, _, held, .reconfigured rfl ?_, rfl⟩
            refine ⟨not_not.mp wellFormed, ?_, not_not.mp keeps⟩
            intro activating
            exact not_not.mp (fun absent => names ⟨activating, absent⟩)

variable (command : BrokerCommand)

theorem applyCommand_changes (key : String) :
    state.Changes key command (state.partitionAssignments.get? key)
      ((state.applyCommand command).1.partitionAssignments.get? key) := by
  cases command with
  | metadataBootstrap streams assignments references gates =>
    simp only [applyCommand, metadataBootstrap]
    split
    · rename_i unknown
      rw [OrderedMap.get?_mapValues]
      exact .bootstrapped unknown
    · exact .same
  | streamPartitionsUpdate stream assignments =>
    simp only [applyCommand, streamPartitionsUpdate]
    split
    · rename_i grows
      rw [OrderedMap.get?_mapValues, OrderedMap.get?_extend]
      cases carried : assignments.get? key with
      | some assignment => exact .grown grows carried
      | none =>
        cases state.partitionAssignments.get? key with
        | none => exact .same
        | some assignment => exact .normalized assignment
    · exact .same
  | partitionLeaderUpdate stream partition leaderId leaderEpoch =>
    exact (state.partitionLeaderUpdate_changes stream partition leaderId leaderEpoch).changes key
  | partitionReconfiguration request =>
    exact (state.partitionReconfiguration_changes request).changes key
  | partitionCommit request =>
    simp only [applyCommand, partitionCommit]
    repeat' split
    all_goals exact .same
  | policyReplace snapshot =>
    simp only [applyCommand, policyReplace]
    split <;> exact .same
  | consumerUpsert record => exact .same
  | cursorConsumerUpsert record cursors => exact .same
  | consumerDelete consumerId => exact .same
  | groupUpsert group record => exact .same

/-- Only a bootstrap, a growing stream and a commit write anything but the assignments, the
policy, the consumers and the groups. -/
theorem applyCommand_cases :
    (∃ assignments policy consumers groups, (state.applyCommand command).1 =
      { state with
        partitionAssignments := assignments
        policy := policy
        consumers := consumers
        groups := groups }) ∨
    (∃ streams assignments references gates,
      command = .metadataBootstrap streams assignments references gates) ∨
    (∃ stream assignments, command = .streamPartitionsUpdate stream assignments) ∨
    ∃ request, command = .partitionCommit request := by
  cases command with
  | metadataBootstrap streams assignments references gates =>
    exact .inr (.inl ⟨streams, assignments, references, gates, rfl⟩)
  | streamPartitionsUpdate stream assignments =>
    exact .inr (.inr (.inl ⟨stream, assignments, rfl⟩))
  | partitionCommit request => exact .inr (.inr (.inr ⟨request, rfl⟩))
  | partitionLeaderUpdate stream partition leaderId leaderEpoch =>
    left
    rcases state.partitionLeaderUpdate_changes stream partition leaderId leaderEpoch with
      same | ⟨-, _, -, -, same⟩ <;> exact ⟨_, _, _, _, same⟩
  | partitionReconfiguration request =>
    left
    rcases state.partitionReconfiguration_changes request with
      same | ⟨-, _, -, -, same⟩ <;> exact ⟨_, _, _, _, same⟩
  | policyReplace snapshot =>
    left
    simp only [applyCommand, policyReplace]
    split <;> exact ⟨_, _, _, _, rfl⟩
  | consumerUpsert record => exact .inl ⟨_, _, _, _, rfl⟩
  | cursorConsumerUpsert record cursors => exact .inl ⟨_, _, _, _, rfl⟩
  | consumerDelete consumerId => exact .inl ⟨_, _, _, _, rfl⟩
  | groupUpsert group record => exact .inl ⟨_, _, _, _, rfl⟩

end DurableState

end Morrow
