import Morrow.Consumer
import Morrow.PartitioningAgreement
import Morrow.ReplicaRuns

/-!
# Expanded streams after a restart

A broker on its own stores records in its partition logs and journals a reference to
each. When it starts it opens the logs of the configured partitions, reads the records
into its message index and compares the journaled references with them. The number of
partitions of a stream is read from the file with the expansion table.

The logs of partitions that an expansion has added are not among the configured ones.
They are not opened, so their records are not found and nothing can be appended to them,
although the table counts them.
-/

namespace Morrow

open GuardedRuns

variable (envelope : MessageEnvelope)

/-- The journal's note that a record was stored. -/
def PartitionAppendRecord.ofEnvelope : PartitionAppendRecord :=
  ⟨envelope.legacySeq, envelope.stream.name, envelope.partition.value, envelope.offset,
    envelope.subject⟩

/-- A stored record as the broker's message table keeps it. -/
def residentMessage : PublishRecord :=
  (PublishRecord.ofEnvelope envelope).intoResidentMetadata

/-! ### Compaction -/

/-- The records of which a compacted stream keeps the last. -/
structure CompactionKey where
  stream : String
  partition : ℕ
  nameSpace : String
  key : ByteCodec.Bytes
deriving DecidableEq

variable (streams : List ConfiguredStream)

/-- The streams with this name are compacted by key. -/
def isCompacted (name : String) : Bool :=
  streams.any fun stream => stream.name.name == name && stream.compaction == .key

def compactionIdentity (record : PublishRecord) :
    Option (CompactionKey × ℕ) := do
  let stream ← record.stream
  let partition ← record.partition
  let offset ← record.offset
  let key ← record.key
  if isCompacted streams stream then
    some (⟨stream, partition, record.nameSpace, key⟩, offset)
  else none

/-- Drop every record that has a later one with its key. -/
def recoverCompactionIndex
    (messages : OrderedMap ℕ PublishRecord) : OrderedMap ℕ PublishRecord :=
  messages.retain fun seq record =>
    match compactionIdentity streams record with
    | none => true
    | some (key, offset) => messages.entries.all fun other =>
      match compactionIdentity streams other.2 with
      | none => true
      | some (otherKey, otherOffset) =>
        decide (otherKey = key → toLex (otherOffset, other.1) ≤ toLex (offset, seq))

/-! ### Opening the logs -/

/-- A log as it is opened again: the bookkeeping of retention is read from its records. -/
def PartitionLog.reopened (log : PartitionLog) : PartitionLog :=
  { log with
    retentionRecords := log.records.map PartitionLog.retentionRecord
    retainedBytes := (log.records.map StoredEnvelope.batchBytes).sum
    deletedMessages := 0
    deletedBytes := 0 }

/-- Open the log of a partition on its directory, which is created if need be. -/
def PartitionLog.openIn (disk : OrderedMap PartitionRef PartitionLog) (stream : StreamId)
    (partition : PartitionId) : PartitionLog :=
  match disk.get? ⟨stream.name, partition⟩ with
  | some log => log.reopened
  | none => .blank stream partition

namespace PartitionLogSet

/-- Open the logs of the configured partitions. -/
def openConfigured (streams : List ConfiguredStream) (disk : OrderedMap PartitionRef PartitionLog) :
    PartitionLogSet where
  logs := .ofList (streams.flatMap fun stream =>
    (partitionsBelow stream.partitions).map fun partition =>
      (⟨stream.name.name, partition⟩, PartitionLog.openIn disk stream.name partition))
  dynamicLogs := ∅

variable (set : PartitionLogSet)

/-- Carry out one retention change. -/
def retainFrom (change : RetentionChange) : Outcome PartitionLogSet :=
  match set.logs.get? change.ref with
  | none => .error .panicked
  | some log => set.rewriteLog change.ref
      (log.records.filter fun record => change.earliestOffset ≤ record.offset)
      (some change.earliestOffset)

/-- Retention when a broker starts: plan it for all streams and carry it out. -/
def enforceRetention (streams : List StreamDefinition) (nowMs : ℕ) :
    Outcome PartitionLogSet :=
  let planned := set.retentionChanges streams nowMs
  planned.2.foldlM retainFrom planned.1

/-- The records of the configured partitions. -/
def envelopes : List MessageEnvelope :=
  set.logs.values.flatMap fun log => log.records.map StoredEnvelope.toMessageEnvelope

def isBeforeRetentionFloor (reference : PartitionAppendRecord) : Bool :=
  if bounded : reference.partition < 2 ^ 32 then
    match set.logs.get? ⟨reference.stream, ⟨reference.partition, bounded⟩⟩ with
    | some log => decide (reference.offset < log.earliestOffset)
    | none => false
  else false

end PartitionLogSet

/-! ### A broker on its own -/

/-- A broker with its message index, the references its journal holds, and the partition
directories that it has not opened. -/
structure StandaloneBroker where
  broker : ExpansionBroker
  closed : OrderedMap PartitionRef PartitionLog
  appends : OrderedMap ℕ PartitionAppendRecord
  messages : OrderedMap ℕ PublishRecord

namespace StandaloneBroker

variable (broker : StandaloneBroker)

/-- The contents of all partition directories. -/
def disk : OrderedMap PartitionRef PartitionLog :=
  (broker.closed.extend broker.broker.logs.dynamicLogs).extend broker.broker.logs.logs

variable (streams : List ConfiguredStream)

/-- The definitions that retention reads. -/
def definitions : List StreamDefinition :=
  streams.map fun stream => stream.toStreamDefinition

/-- Remove what retention has given up from the message index. -/
def applyRetentionChanges (changes : List RetentionChange)
    (messages : OrderedMap ℕ PublishRecord) : OrderedMap ℕ PublishRecord :=
  messages.retain fun _ record => changes.all fun change =>
    !record.inPartition change.ref.stream change.ref.partition.value ||
      decide (change.earliestOffset ≤ record.offset.getD 0)

/-- Store a record at the next offset of its partition. -/
def publish (envelope : StoredEnvelope) (nowMs : ℕ) : Procedure StandaloneBroker Unit :=
  fun broker =>
    match broker.broker.logs.appendCommitted envelope with
    | .error failure => (broker, .error failure)
    | .ok logs =>
      let streams := broker.broker.streams
      let planned := logs.retentionChanges (definitions streams) nowMs
      let stored := broker.messages.insert envelope.legacySeq
        (residentMessage envelope.toMessageEnvelope)
      ({ broker with
        broker := { broker.broker with logs := planned.1 }
        appends := broker.appends.insert envelope.legacySeq (.ofEnvelope envelope.toMessageEnvelope)
        messages := recoverCompactionIndex streams (applyRetentionChanges planned.2 stored) },
        .ok ())

/-- A call of partition expansion. -/
def expand {α : Type} (call : Procedure ExpansionBroker α) : Procedure StandaloneBroker α :=
  fun broker => ({ broker with broker := (call broker.broker).1 }, (call broker.broker).2)

/-- Activate a plan; the logs of the new partitions are opened on their directories. -/
def activate (stream : StreamId) (reserved : PartitionId → Bool) :
    Procedure StandaloneBroker (PartitionId × ℕ) := fun broker =>
  expand (ExpansionBroker.activatePartitionExpansion stream.name
    (fun partition => (reserved partition, .ok (.openIn broker.disk stream partition)))
    false (.ok ())) broker

/-! ### Restart -/

/-- Every journaled reference must be found among the records. -/
def checkReferences (bySeq : OrderedMap ℕ MessageEnvelope) :
    List PartitionAppendRecord → Outcome Unit
  | [] => .ok ()
  | reference :: references => do
    match bySeq.get? reference.seq with
    | none =>
      let stream := reference.stream
      let partition := reference.partition
      let offset := reference.offset
      .error (.error s!"control WAL references missing stream record {stream}:{partition}:{offset}")
    | some envelope =>
      ensure (envelope.stream.name = reference.stream ∧
          envelope.partition.value = reference.partition ∧ envelope.offset = reference.offset)
        "control WAL partition reference does not match stream data"
    checkReferences bySeq references

/-- The references of the journal, with those of records that it lacks. -/
def noteAppends (envelopes : List MessageEnvelope) (appends : OrderedMap ℕ PartitionAppendRecord) :
    OrderedMap ℕ PartitionAppendRecord :=
  envelopes.foldl (fun appends envelope =>
    if appends.contains envelope.legacySeq then appends
    else appends.insert envelope.legacySeq (.ofEnvelope envelope)) appends

/-- Forget references whose records retention or compaction has removed. -/
def keepReferences (logs : PartitionLogSet)
    (bySeq : OrderedMap ℕ MessageEnvelope) (appends : OrderedMap ℕ PartitionAppendRecord) :
    OrderedMap ℕ PartitionAppendRecord :=
  appends.retain fun seq reference =>
    bySeq.contains seq ||
      !isCompacted streams reference.stream && !logs.isBeforeRetentionFloor reference

/-- Stop the broker and open it again with the same configuration. -/
def restart (nowMs : ℕ) : Outcome StandaloneBroker := do
  let streams := broker.broker.streams
  let opened := PartitionLogSet.openConfigured streams broker.disk
  let logs ← opened.enforceRetention (definitions streams) nowMs
  let bySeq := OrderedMap.ofList (logs.envelopes.map fun envelope => (envelope.legacySeq, envelope))
  let appends := keepReferences streams logs bySeq (noteAppends logs.envelopes broker.appends)
  checkReferences bySeq appends.values
  pure {
    broker := { broker.broker with
      logs
      expansions := openExpansions streams broker.broker.saved }
    closed := broker.disk
    appends
    messages := recoverCompactionIndex streams (bySeq.mapValues fun _ => residentMessage) }

/-! ### What a restart must keep -/

/-- The table gives the stream a partition beyond the configured ones. -/
def Expanded (stream : String) : Prop :=
  ∃ expansion ∈ broker.broker.expansions.get? stream, ∃ partition : PartitionId,
    partition.value < expansion.currentPartitions.value ∧
      ∀ definition ∈ broker.broker.streams, definition.name.name = stream →
        definition.partitions.value ≤ partition.value

/-- Retention leaves the record alone when the broker starts. -/
def OutlivesRetention (nowMs : ℕ) (record : PublishRecord) : Prop :=
  ∀ change ∈ ((PartitionLogSet.openConfigured broker.broker.streams
      broker.disk).retentionChanges (definitions broker.broker.streams) nowMs).2,
    record.inPartition change.ref.stream change.ref.partition.value = true →
      change.earliestOffset ≤ record.offset.getD 0

/-- The broker starts again, its message index has the records of the stream that were
retained, and every partition of the stream takes records from where it was. -/
structure Survives (broker after : StandaloneBroker) (stream : String) (nowMs : ℕ) : Prop where
  restarts : broker.restart nowMs = .ok after
  indexed : ∀ seq record, broker.messages.get? seq = some record → record.stream = some stream →
    broker.OutlivesRetention nowMs record → after.messages.get? seq = some record
  continues : ∀ expansion ∈ broker.broker.expansions.get? stream, ∀ partition : PartitionId,
    partition.value < expansion.currentPartitions.value →
      ∃ earlier log, broker.broker.logs.find ⟨stream, partition⟩ = some earlier ∧
        after.broker.logs.find ⟨stream, partition⟩ = some log ∧
        log.nextOffset = earlier.nextOffset

def SurvivesRestart (stream : String) (nowMs : ℕ) : Prop :=
  ∃ after, broker.Survives after stream nowMs

end StandaloneBroker

/-! ### Partitions that are not configured -/

namespace PartitionLogSet

variable {set result : PartitionLogSet} {ref : PartitionRef}

/-- No log is opened for a partition beyond the configured ones. -/
theorem openConfigured_find {streams : List ConfiguredStream}
    (disk : OrderedMap PartitionRef PartitionLog)
    (beyond : ∀ definition ∈ streams, definition.name.name = ref.stream →
      definition.partitions.value ≤ ref.partition.value) :
    (openConfigured streams disk).find ref = none := by
  have absent : (openConfigured streams disk).logs.get? ref = none := by
    refine OrderedMap.get?_ofList_eq_none fun entry member same => ?_
    obtain ⟨definition, configured, inside⟩ := List.mem_flatMap.mp member
    obtain ⟨partition, below, rfl⟩ := List.mem_map.mp inside
    subst same
    have upper := beyond definition configured rfl
    exact absurd (mem_partitionsBelow.mp below) (not_lt.mpr upper)
  rw [find, absent]
  rfl

theorem retainFrom_find {change : RetentionChange} (unserved : set.find ref = none)
    (retained : set.retainFrom change = .ok result) : result.find ref = none := by
  unfold retainFrom at retained
  split at retained
  · cases retained
  · rename_i log configured
    rw [rewriteLog, configured] at retained
    obtain ⟨rewritten, -, returned⟩ := bind_eq_ok.mp retained
    cases returned
    have different : ref ≠ change.ref := by
      rintro rfl
      rw [find_of_configured configured] at unserved
      cases unserved
    rw [find_insert_logs, if_neg different, unserved]

/-- Retention opens no logs. -/
theorem enforceRetention_find {streams : List StreamDefinition} {nowMs : ℕ}
    (unserved : set.find ref = none) (enforced : set.enforceRetention streams nowMs = .ok result) :
    result.find ref = none := by
  have forgot := ReplicaDataStore.planRetention_forgets nowMs set (retentionWork streams)
  have planned : (set.retentionChanges streams nowMs).1.find ref = none := by
    have related := forgot.find ref
    rw [unserved] at related
    cases after : (set.planRetention nowMs (retentionWork streams)).1.find ref with
    | none => exact after
    | some log =>
      rw [after] at related
      cases related
  unfold enforceRetention at enforced
  simp only at enforced
  generalize (set.retentionChanges streams nowMs).1 = start at planned enforced
  generalize (set.retentionChanges streams nowMs).2 = changes at enforced
  induction changes generalizing start with
  | nil =>
    cases enforced
    exact planned
  | cons change changes ih =>
    obtain ⟨middle, first, rest⟩ := bind_eq_ok.mp enforced
    exact ih middle (retainFrom_find planned first) rest

end PartitionLogSet

namespace StandaloneBroker

variable {broker after : StandaloneBroker} {stream : String} {nowMs : ℕ}

/-- A broker that has started serves the configured partitions only. -/
theorem restart_find (restarts : broker.restart nowMs = .ok after) {partition : PartitionId}
    (beyond : ∀ definition ∈ broker.broker.streams, definition.name.name = stream →
      definition.partitions.value ≤ partition.value) :
    after.broker.logs.find ⟨stream, partition⟩ = none := by
  obtain ⟨logs, enforced, checked⟩ := bind_eq_ok.mp restarts
  obtain ⟨_, -, returned⟩ := bind_eq_ok.mp checked
  cases returned
  exact PartitionLogSet.enforceRetention_find
    (PartitionLogSet.openConfigured_find broker.disk beyond) enforced

/-- The added partitions take no records after a restart. -/
theorem Expanded.not_survives (expanded : broker.Expanded stream) :
    ¬ broker.Survives after stream nowMs := by
  intro survives
  obtain ⟨expansion, found, partition, counted, beyond⟩ := expanded
  obtain ⟨earlier, log, -, served, -⟩ := survives.continues expansion found partition counted
  rw [restart_find survives.restarts beyond] at served
  cases served

/-! ### Runs -/

/-- A broker that starts for the first time. -/
def opened (streams : List ConfiguredStream) : StandaloneBroker where
  broker := {
    streams
    cluster := none
    metadata := none
    logs := .openConfigured streams ∅
    expansions := openExpansions streams none
    saved := none }
  closed := ∅
  appends := ∅
  messages := ∅

inductive Action
  | publish (envelope : StoredEnvelope) (nowMs : ℕ)
  | begin (stream : String) (partitions : PartitionId)
  | markPrepared (stream : String) (count : PartitionId)
  | activate (stream : StreamId) (reserved : PartitionId → Bool)
  | restart (nowMs : ℕ)

variable (broker : StandaloneBroker)

def next : Action → StandaloneBroker
  | .publish envelope nowMs => (publish envelope nowMs broker).1
  | .begin stream partitions =>
    (expand (ExpansionBroker.beginPartitionExpansion stream partitions) broker).1
  | .markPrepared stream count =>
    (expand (ExpansionBroker.markPartitionExpansionPrepared stream count) broker).1
  | .activate stream reserved => (activate stream reserved broker).1
  | .restart nowMs => match broker.restart nowMs with
    | .ok after => after
    | .error _ => broker

/-- A record gets the next offset of its partition and a number of its own. -/
def Occurs : Action → Prop
  | .publish envelope _ => broker.messages.get? envelope.legacySeq = none ∧
      ∀ log ∈ broker.broker.logs.find envelope.ref, envelope.offset = log.nextOffset
  | _ => True

/-- In every run, expanded streams survive a restart. -/
def ExpansionsSurvive : Prop :=
  ∀ streams broker, Reaches next Occurs (opened streams) broker →
    ∀ stream nowMs, broker.Expanded stream → broker.SurvivesRestart stream nowMs

/-! ### A second partition -/

/-- The calls that give a stream a second partition. -/
def secondPartition : List Action :=
  [.begin "orders" ⟨2, PartitionId.two_bounded⟩,
    .markPrepared "orders" ⟨2, PartitionId.two_bounded⟩,
    .activate ExpansionRun.orders fun _ => true]

def expandedBroker : StandaloneBroker :=
  secondPartition.foldl next (opened [ClusterBroker.ordersStream])

theorem expandedBroker_expanded : expandedBroker.Expanded "orders" := by
  have streams : expandedBroker.broker.streams = [ClusterBroker.ordersStream] := by decide +kernel
  have counted : (expandedBroker.broker.expansions.get? "orders").map
      (·.currentPartitions.value) = some 2 := by decide +kernel
  obtain ⟨expansion, found, two⟩ := Option.map_eq_some_iff.mp counted
  refine ⟨expansion, found, ⟨1, by decide⟩, by rw [two]; decide, fun definition member _ => ?_⟩
  rw [streams, List.mem_singleton] at member
  subst member
  decide

/-- Whatever was stored before and after it, an activated expansion is not there after a
restart: the partitions it has added take no records. -/
theorem expansion_never_survives (broker : StandaloneBroker) (stream : String) (nowMs : ℕ)
    (expanded : broker.Expanded stream) : ¬ broker.SurvivesRestart stream nowMs := by
  rintro ⟨after, survives⟩
  exact expanded.not_survives survives

theorem expansion_never_survives_orders :
    expandedBroker.Expanded "orders" ∧ ¬ expandedBroker.SurvivesRestart "orders" 0 :=
  ⟨expandedBroker_expanded, expansion_never_survives expandedBroker "orders" 0
    expandedBroker_expanded⟩

theorem second_partition_not_reopened : ¬ ExpansionsSurvive := by
  intro survive
  have reached : Reaches next Occurs (opened [ClusterBroker.ordersStream]) expandedBroker := by
    refine .step (.begin "orders" ⟨2, by decide⟩) trivial ?_
    refine .step (.markPrepared "orders" ⟨2, by decide⟩) trivial ?_
    exact .step (.activate ExpansionRun.orders fun _ => true) trivial (.refl _)
  obtain ⟨after, survives⟩ :=
    survive _ expandedBroker reached "orders" 0 expandedBroker_expanded
  exact expandedBroker_expanded.not_survives survives

end StandaloneBroker

end Morrow
