import Morrow.ExpansionRefusal

/-!
# Agreement on the partitioning of a stream

The brokers of a cluster apply the same commands to the metadata, which holds the
partitions and the epoch of every stream. A broker asks its own table first, though,
and the table has an entry for every configured stream. The entry changes when the
broker activates a plan, not when the command of another broker is applied.

So the brokers agree only as long as no command gives a stream more partitions. Once such
a command takes effect, every broker that applies it answers with what its table says,
and no plan that a broker activates by itself is what the metadata says already.
-/

namespace Morrow

open GuardedRuns OrderedMap Option

/-- A broker of a cluster and the commands it has applied. -/
structure ClusterBroker where
  broker : ExpansionBroker
  applied : List BrokerCommand

inductive ClusterAction
  | apply (command : BrokerCommand)
  | begin (stream : String) (partitions : PartitionId)
  | markPrepared (stream : String) (count : PartitionId)
  | finish (activation : Activation)
  | reopen

/-- A cluster: the configured streams, and the metadata as it was set up with them. -/
structure Cluster where
  streams : List ConfiguredStream
  configured : streams ≠ []
  positive : ∀ stream ∈ streams, 0 < stream.partitions.value
  nodes : OrderedMap ℕ String
  assignments : OrderedMap String PartitionAssignmentMetadata
  securityReferences : Finset String
  featureGates : Finset String

/-- The metadata after the first command. -/
def Cluster.metadata (cluster : Cluster) : DurableState :=
  ((DurableState.new cluster.nodes).metadataBootstrap
    (cluster.streams.map ConfiguredStream.toClusterStream) cluster.assignments
    cluster.securityReferences cluster.featureGates).1

namespace ClusterBroker

/-- A broker of the cluster that starts for the first time. -/
def opened (cluster : Cluster) (config : Option ClusterConfig) (logs : PartitionLogSet) :
    ClusterBroker where
  broker := {
    streams := cluster.streams
    cluster := config
    metadata := some cluster.metadata
    logs
    expansions := openExpansions cluster.streams none
    saved := none }
  applied := []

def next (run : ClusterBroker) : ClusterAction → ClusterBroker
  | .apply command =>
    { broker := { run.broker with
        metadata := run.broker.metadata.map fun metadata => (metadata.applyCommand command).1 }
      applied := run.applied ++ [command] }
  | .begin stream partitions => { run with
      broker := (ExpansionBroker.beginPartitionExpansion stream partitions run.broker).1 }
  | .markPrepared stream count => { run with
      broker := (ExpansionBroker.markPartitionExpansionPrepared stream count run.broker).1 }
  | .finish activation => { run with
      broker := (ExpansionBroker.finishActivation activation run.broker).1 }
  | .reopen => { run with
      broker := { run.broker with
        expansions := openExpansions run.broker.streams run.broker.saved } }

/-- The partitioning of a stream as the metadata has it. -/
def replicated (definition : ClusterStream) : PartitionId × ℕ :=
  (definition.partitions, definition.partitioningEpoch)

/-- Two brokers give a stream the partitioning of the metadata; so they store a message
with a key in the same partition, and accept the same epochs. -/
structure Agree (here there : ExpansionBroker) (stream : String)
    (definition : ClusterStream) (configured : PartitionId × ℕ) : Prop where
  first : here.partitioningForStream stream configured = replicated definition
  second : there.partitioningForStream stream configured = replicated definition
  keyed : ∀ (left right : ConfiguredStream) (subject : String) (key : ByteCodec.Bytes)
    (sticky other : UInt64),
    selectPartitionWithCount left subject (some key) sticky
        (here.partitioningForStream stream configured).1 =
      selectPartitionWithCount right subject (some key) other
        (there.partitioningForStream stream configured).1
  epoch : ∀ requestedEpoch,
    checkPartitioningEpoch requestedEpoch (here.partitioningForStream stream configured).2 =
      checkPartitioningEpoch requestedEpoch (there.partitioningForStream stream configured).2

/-- Brokers that have applied the same commands agree on every stream of the metadata. -/
def AlwaysAgree (guard : ClusterBroker → ClusterAction → Prop) : Prop :=
  ∀ (cluster : Cluster) config otherConfig logs otherLogs first second,
    Reaches next guard (opened cluster config logs) first →
    Reaches next guard (opened cluster otherConfig otherLogs) second →
    first.applied = second.applied →
    ∀ metadata ∈ first.broker.metadata, ∀ stream definition,
      metadata.streamDefinitions.get? stream = some definition →
      ∀ configured, Agree first.broker second.broker stream definition configured

/-- The action gives no stream more partitions, and activates a plan only for what the
metadata says. -/
def Follows (run : ClusterBroker) : ClusterAction → Prop
  | .apply (.streamPartitionsUpdate stream assignments) => ∀ metadata ∈ run.broker.metadata,
      ¬ metadata.GrowsStream stream assignments
  | .finish activation => ∀ expansion ∈ run.broker.expansions.get? activation.stream,
      expansion.Prepared activation.targetPartitions activation.pendingEpoch →
      ∀ metadata ∈ run.broker.metadata,
        ∀ definition ∈ metadata.streamDefinitions.get? activation.stream,
          (activation.targetPartitions, activation.pendingEpoch) = replicated definition
  | _ => True

end ClusterBroker

/-! ### The table at the start -/

section Table

variable {streams : List ConfiguredStream}

/-- The last configured stream of a name. -/
def configuredStream (streams : List ConfiguredStream) (name : String) : Option ConfiguredStream :=
  streams.reverse.find? fun stream => decide (stream.name.name = name)

theorem openExpansions_none_get? (positive : ∀ stream ∈ streams, 0 < stream.partitions.value)
    (name : String) :
    (openExpansions streams none).get? name = (configuredStream streams name).map fun stream =>
      ⟨stream.partitions, stream.partitioningEpoch, none⟩ := by
  have all : (streams.filterMap fun stream =>
      (PartitionExpansion.new stream.partitions stream.partitioningEpoch).map fun expansion =>
        (stream.name.name, expansion)) = streams.map fun stream =>
      (stream.name.name, (⟨stream.partitions, stream.partitioningEpoch, none⟩ :
        PartitionExpansion)) := by
    rw [← List.filterMap_eq_map]
    refine List.filterMap_congr fun stream member => ?_
    simp [PartitionExpansion.new, positive stream member]
  have folded := get?_foldl_insert (fun stream : ConfiguredStream => stream.name.name)
    (fun stream => (⟨stream.partitions, stream.partitioningEpoch, none⟩ : PartitionExpansion))
    streams name ∅
  simp only [openExpansions, all, OrderedMap.ofList, List.foldl_map]
  simpa [configuredStream] using folded

theorem metadata_get? (cluster : Cluster) (name : String) :
    cluster.metadata.streamDefinitions.get? name =
      (configuredStream cluster.streams name).map ConfiguredStream.toClusterStream := by
  have folded := get?_foldl_insert (fun stream : ConfiguredStream => stream.name.name)
    ConfiguredStream.toClusterStream cluster.streams name ∅
  have defined : cluster.metadata.streamDefinitions =
      OrderedMap.ofList ((cluster.streams.map ConfiguredStream.toClusterStream).map fun stream =>
        (stream.name.name, stream)) := rfl
  simp only [defined, OrderedMap.ofList, List.foldl_map]
  simpa [configuredStream] using folded

theorem metadata_ne_empty (cluster : Cluster) : cluster.metadata.streamDefinitions ≠ ∅ := by
  intro empty
  obtain ⟨stream, member⟩ := List.exists_mem_of_ne_nil _ cluster.configured
  have undefined := metadata_get? cluster stream.name.name
  rw [empty, get?_empty, eq_comm, map_eq_none_iff, configuredStream, List.find?_eq_none]
    at undefined
  exact undefined stream (List.mem_reverse.mpr member) (decide_eq_true rfl)

/-- At the start the table says what the metadata says. -/
theorem openExpansions_replicated (cluster : Cluster) (name : String) :
    ((openExpansions cluster.streams none).get? name).map PartitionExpansion.current =
      (cluster.metadata.streamDefinitions.get? name).map ClusterBroker.replicated := by
  rw [openExpansions_none_get? cluster.positive, metadata_get?, map_map, map_map]
  rfl

/-- A saved table with the configured streams is taken over as it is. -/
theorem openExpansions_some_get? {saved : OrderedMap String PartitionExpansion}
    (domain : ∀ name, (saved.get? name).isSome = ((openExpansions streams none).get? name).isSome)
    (name : String) : (openExpansions streams (some saved)).get? name = saved.get? name := by
  have overwritten : openExpansions streams (some saved) =
      (openExpansions streams none).overwrite saved := rfl
  have same := domain name
  rw [overwritten, get?_overwrite, OrderedMap.contains, ← same]
  cases saved.get? name <;> rfl

end Table

/-! ### What the commands do to the streams -/

/-- A command sets up the streams, gives one of them more partitions, or leaves them alone. -/
theorem DurableState.applyCommand_definitions (state : DurableState) (command : BrokerCommand) :
    (state.applyCommand command).1.streamDefinitions = state.streamDefinitions ∨
      state.streamDefinitions = ∅ ∨
      ∃ stream assignments, command = .streamPartitionsUpdate stream assignments ∧
        state.GrowsStream stream assignments ∧
        (state.applyCommand command).1.streamDefinitions =
          state.streamDefinitions.insert stream.name.name stream := by
  rcases state.applyCommand_cases command with ⟨_, _, _, _, same⟩ |
    ⟨streams, assignments, references, gates, rfl⟩ | ⟨stream, assignments, rfl⟩ | ⟨request, rfl⟩
  · left
    rw [same]
  · by_cases fresh : state.streamDefinitions = ∅
    · exact .inr (.inl fresh)
    · simp [applyCommand, metadataBootstrap, fresh]
  · by_cases grows : state.GrowsStream stream assignments
    · simp [applyCommand, streamPartitionsUpdate, grows]
    · simp [applyCommand, streamPartitionsUpdate, grows]
  · left
    simp only [applyCommand, partitionCommit]
    repeat' split
    all_goals rfl

/-! ### Runs that follow the metadata -/

namespace ClusterBroker

open ExpansionBroker

variable {cluster : Cluster} {run : ClusterBroker}

/-- The metadata defines the streams as at the start, and the table says the same, also
when it is read again. -/
structure Unmoved (cluster : Cluster) (run : ClusterBroker) : Prop where
  streams : run.broker.streams = cluster.streams
  defined : run.broker.metadata.map (·.streamDefinitions) = some cluster.metadata.streamDefinitions
  table : ∀ name, (run.broker.expansions.get? name).map PartitionExpansion.current =
    (cluster.metadata.streamDefinitions.get? name).map replicated
  saved : ∀ name, ((openExpansions cluster.streams run.broker.saved).get? name).map
    PartitionExpansion.current =
      (cluster.metadata.streamDefinitions.get? name).map replicated

theorem unmoved_opened (cluster : Cluster) (config : Option ClusterConfig)
    (logs : PartitionLogSet) : (opened cluster config logs).Unmoved cluster :=
  ⟨rfl, rfl, openExpansions_replicated cluster, openExpansions_replicated cluster⟩

variable {stream : String} {change : PartitionExpansion → PartitionExpansion}

section

variable (unmoved : run.Unmoved cluster)

include unmoved

/-- A change of one entry that leaves what is current. -/
theorem Unmoved.revises {after : ExpansionBroker} (revises : Revises stream change run.broker after)
    (current : ∀ expansion ∈ run.broker.expansions.get? stream,
      (change expansion).current = expansion.current) :
    ({ run with broker := after } : ClusterBroker).Unmoved cluster := by
  rcases revises with rfl | ⟨expansion, saved, found, kept, rfl⟩
  · exact unmoved
  have table : ∀ name, ((run.broker.expansions.insert stream (change expansion)).get? name).map
      PartitionExpansion.current =
        (cluster.metadata.streamDefinitions.get? name).map replicated := by
    intro name
    rw [← unmoved.table name, get?_insert]
    split
    · rename_i same
      rw [same, found, map_some, map_some, current expansion found]
    · rfl
  refine ⟨unmoved.streams, unmoved.defined, table, fun name => ?_⟩
  rcases kept with ⟨rfl, -⟩ | rfl
  · exact unmoved.saved name
  · refine (congrArg _ (openExpansions_some_get? (fun name => ?_) name)).trans (table name)
    have same := congrArg isSome
      ((table name).trans (openExpansions_replicated cluster name).symm)
    rwa [isSome_map, isSome_map] at same

/-- What a table entry says is what the metadata says. -/
theorem Unmoved.current {expansion : PartitionExpansion}
    (found : run.broker.expansions.get? stream = some expansion) :
    ∃ metadata definition, run.broker.metadata = some metadata ∧
      metadata.streamDefinitions.get? stream = some definition ∧
      expansion.current = replicated definition := by
  obtain ⟨metadata, present, same⟩ := map_eq_some_iff.mp unmoved.defined
  have table := unmoved.table stream
  rw [found, map_some, eq_comm, map_eq_some_iff, ← same] at table
  obtain ⟨definition, defined, current⟩ := table
  exact ⟨metadata, definition, present, defined, current.symm⟩

theorem Unmoved.apply {command : BrokerCommand} (follows : run.Follows (.apply command)) :
    (run.next (.apply command)).Unmoved cluster := by
  obtain ⟨metadata, present, same⟩ := map_eq_some_iff.mp unmoved.defined
  refine ⟨unmoved.streams, ?_, unmoved.table, unmoved.saved⟩
  rw [next, present, map_some, map_some, ← same]
  rcases metadata.applyCommand_definitions command with kept | fresh | ⟨_, _, rfl, grows, -⟩
  · rw [kept]
  · exact absurd (same.symm.trans fresh) (metadata_ne_empty cluster)
  · exact absurd grows (follows metadata present)

theorem Unmoved.next {action : ClusterAction} (follows : run.Follows action) :
    (run.next action).Unmoved cluster := by
  cases action with
  | apply command => exact unmoved.apply follows
  | begin stream partitions =>
    exact unmoved.revises (beginPartitionExpansion_revises stream partitions run.broker)
      fun expansion _ => expansion.begin_current partitions
  | markPrepared stream count =>
    exact unmoved.revises (markPartitionExpansionPrepared_revises stream count run.broker)
      fun expansion _ => expansion.markPrepared_current count
  | finish activation =>
    rcases finishActivation_cases activation run.broker with
      ⟨failure, ended⟩ | ⟨entry, known, result⟩
    · rw [ClusterBroker.next, ended]
      exact unmoved
    · refine unmoved.revises (finishActivation_revises activation run.broker)
        fun expansion found => ?_
      obtain rfl := some.inj (known.symm.trans found)
      rcases result with ⟨refused, -⟩ | ⟨ready, -⟩
      · rw [activate_refused refused]
      · obtain ⟨metadata, definition, present, defined, current⟩ := unmoved.current found
        rw [current, ready.activate]
        exact follows entry found ready metadata present definition defined
  | reopen =>
    refine ⟨unmoved.streams, unmoved.defined, ?_, unmoved.saved⟩
    intro name
    rw [← unmoved.saved name, ← unmoved.streams]
    rfl

/-- A broker that nothing has moved has the partitioning of the metadata. -/
theorem Unmoved.partitioning {definition : ClusterStream}
    (defined : cluster.metadata.streamDefinitions.get? stream = some definition)
    (configured : PartitionId × ℕ) :
    run.broker.partitioningForStream stream configured = replicated definition := by
  have table := unmoved.table stream
  rw [defined, map_some, map_eq_some_iff] at table
  obtain ⟨expansion, found, current⟩ := table
  rw [partitioningForStream, found, ← current]

/-- If the broker has the partitioning of the metadata after an action, the action gave no
stream more partitions and activated nothing else. -/
theorem Unmoved.follows {action : ClusterAction}
    (agrees : ∀ metadata ∈ (run.next action).broker.metadata, ∀ stream definition,
      metadata.streamDefinitions.get? stream = some definition →
      ∀ configured, (run.next action).broker.partitioningForStream stream configured =
        replicated definition) : run.Follows action := by
  cases action with
  | apply command =>
    cases command with
    | streamPartitionsUpdate stream assignments =>
      intro metadata present grows
      obtain ⟨known, here, same⟩ := map_eq_some_iff.mp unmoved.defined
      obtain rfl := some.inj (here.symm.trans present)
      obtain ⟨current, stored, more, -⟩ := id grows
      have table := unmoved.table stream.name.name
      rw [← same, stored, map_some, map_eq_some_iff] at table
      obtain ⟨expansion, found, before⟩ := table
      -- The table still says what the metadata said before.
      have after := agrees (known.streamPartitionsUpdate stream assignments).1
        (by simp [ClusterBroker.next, here, DurableState.applyCommand]) stream.name.name stream
        (by simp [DurableState.streamPartitionsUpdate, grows]) (current.partitions, 0)
      have unchanged : (run.next (.apply (.streamPartitionsUpdate stream
          assignments))).broker.expansions.get? stream.name.name = some expansion := found
      rw [partitioningForStream, unchanged] at after
      have partitions := congrArg (fun pair => pair.1.value) (before.symm.trans after)
      exact absurd partitions more.ne
    | _ => trivial
  | finish activation =>
    intro expansion found ready metadata present definition defined
    have answered := finishActivation_prepared found ready
    rcases finishActivation_cases activation run.broker with
      ⟨failure, ended⟩ | ⟨entry, known, ⟨-, failure, ended⟩ | ⟨-, current, ended⟩⟩
    · rw [ended] at answered
      cases answered
    · rw [ended] at answered
      cases answered
    · obtain rfl := some.inj (known.symm.trans found)
      have after := agrees metadata (by rw [ClusterBroker.next, ended]; exact present)
        activation.stream definition defined (activation.targetPartitions, 0)
      rw [ClusterBroker.next, ended, partitioningForStream, get?_insert_self, ready.activate]
        at after
      exact after
  | _ => trivial

end

/-- As long as every admitted action follows the metadata, nothing moves. -/
theorem unmoved_of_follows {guard : ClusterBroker → ClusterAction → Prop}
    {config : Option ClusterConfig} {logs : PartitionLogSet}
    (follows : ∀ run action, Reaches next guard (opened cluster config logs) run →
      guard run action → run.Unmoved cluster → run.Follows action)
    (reached : Reaches next guard (opened cluster config logs) run) : run.Unmoved cluster := by
  induction reached with
  | refl => exact unmoved_opened cluster config logs
  | tail earlier moved ih =>
    obtain ⟨action, admitted, rfl⟩ := moved
    exact ih.next (follows _ action earlier admitted ih)

/-- The brokers always agree exactly when no command of a run gives a stream more
partitions and no plan is activated that the metadata does not say already. -/
theorem alwaysAgree_iff (guard : ClusterBroker → ClusterAction → Prop) :
    AlwaysAgree guard ↔ ∀ cluster config logs run action,
      Reaches next guard (opened cluster config logs) run → guard run action →
        run.Follows action := by
  constructor
  · intro agree cluster config logs run action reached admitted
    have follows : ∀ run action, Reaches next guard (opened cluster config logs) run →
        guard run action → run.Unmoved cluster → run.Follows action := by
      intro run action reached admitted unmoved
      have after : Reaches next guard (opened cluster config logs) (run.next action) :=
        Relation.ReflTransGen.tail reached ⟨action, admitted, rfl⟩
      refine unmoved.follows fun metadata present stream definition defined configured => ?_
      exact (agree cluster config config logs logs _ _ after after rfl metadata present stream
        definition defined configured).first
    exact follows run action reached admitted (unmoved_of_follows follows reached)
  · intro follows cluster config otherConfig logs otherLogs first second toFirst toSecond same
      metadata present stream definition defined configured
    have here := unmoved_of_follows (fun run action reached admitted _ =>
      follows cluster config logs run action reached admitted) toFirst
    have there := unmoved_of_follows (fun run action reached admitted _ =>
      follows cluster otherConfig otherLogs run action reached admitted) toSecond
    have original := here.defined
    rw [mem_def.mp present, map_some] at original
    rw [some.inj original] at defined
    have left := here.partitioning defined configured
    have right := there.partitioning defined configured
    refine ⟨left, right, fun _ _ _ _ _ _ => ?_, fun requestedEpoch => ?_⟩
    · rw [left, right]
      rfl
    · rw [left, right]

/-! ### A stream that one broker has expanded -/

def ordersStream : ConfiguredStream :=
  ⟨⟨⟨ExpansionRun.orders, ⟨1, PartitionId.one_bounded⟩, ⟨none, none⟩⟩, 1⟩, .key, .sticky, ⟨1, 1⟩,
    .none⟩

/-- A cluster with a stream of one partition. -/
def ordersCluster : Cluster where
  streams := [ordersStream]
  configured := List.cons_ne_nil _ _
  positive := by decide
  nodes := ∅
  assignments := ∅
  securityReferences := ∅
  featureGates := ∅

/-- The command that gives the stream a second partition. -/
def secondPartition : BrokerCommand :=
  .streamPartitionsUpdate
    { ordersStream.toClusterStream with
      partitions := ⟨2, PartitionId.two_bounded⟩
      partitioningEpoch := 2 }
    ((∅ : OrderedMap _ _).insert "orders:1" ⟨{1}, {1}, 1, .stable, 1, 1⟩)

/-- One broker expands the stream and both apply the command; the other broker stays with
one partition. -/
theorem expansion_seen_by_one_broker : ¬ AlwaysAgree fun _ _ => True := by
  intro agree
  let two : PartitionId := ⟨2, by decide⟩
  let start := opened ordersCluster none ⟨∅, ∅⟩
  let expanding : List ClusterAction := [.begin "orders" two, .markPrepared "orders" two,
    .apply secondPartition, .finish ⟨"orders", ⟨1, by decide⟩, two, 2⟩]
  let first := expanding.foldl next start
  let second := next start (.apply secondPartition)
  have toFirst : Reaches next (fun _ _ => True) start first :=
    .foldl expanding start fun _ _ _ => trivial
  have toSecond : Reaches next (fun _ _ => True) start second :=
    .step (.apply secondPartition) trivial (.refl second)
  have defined : (first.broker.metadata.bind fun metadata =>
      metadata.streamDefinitions.get? "orders").map replicated = some (two, 2) := by
    decide +kernel
  have same : first.applied = second.applied := rfl
  obtain ⟨definition, found, current⟩ := map_eq_some_iff.mp defined
  obtain ⟨metadata, present, here⟩ := bind_eq_some_iff.mp found
  have agreed := agree ordersCluster none none ⟨∅, ∅⟩ ⟨∅, ∅⟩ first second toFirst toSecond same
    metadata present "orders" definition here (two, 2)
  rw [← agreed.second] at current
  exact absurd current (by decide)

end ClusterBroker

end Morrow
