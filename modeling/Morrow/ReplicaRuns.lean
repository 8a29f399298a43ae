import Morrow.ReplicaInvariant

/-!
# Runs of a replica

A store is opened on its partition logs and its commit journal and then driven by
calls: appends and batches, commits, retention and the activation of further
partitions. Opening indexes exactly the stored records, and every call keeps the
store coherent whatever it returns, so every reachable store is coherent.
-/

namespace Morrow

open OrderedMap List

namespace ReplicaDataStore

variable {store : ReplicaDataStore} {ref : PartitionRef}

/-! ### Retention and activation -/

/-- A log whose bookkeeping shrank keeps its records. -/
theorem kept_forgets {log next : PartitionLog} (kept : log.Kept ref) (forgot : log.Forgets next) :
    next.Kept ref := by
  refine ⟨forgot.ref.trans kept.keyed, ?_, ?_, ?_⟩ <;> rw [forgot.records]
  · exact kept.owned
  · exact kept.bounded
  · rw [forgot.nextOffset]
    exact kept.tight

/-- The second set differs from the first at most in the retention bookkeeping of
its configured logs. -/
structure Forgets (set result : PartitionLogSet) : Prop where
  logs : ∀ ref, Option.Rel PartitionLog.Forgets (set.logs.get? ref) (result.logs.get? ref)
  dynamicLogs : result.dynamicLogs = set.dynamicLogs

theorem exists_of_rel {log : Option PartitionLog} {next : PartitionLog}
    (related : Option.Rel PartitionLog.Forgets log (some next)) :
    ∃ before, log = some before ∧ before.Forgets next := by
  cases related with
  | some same => exact ⟨_, rfl, same⟩

theorem optionRel_refl (log : Option PartitionLog) : Option.Rel PartitionLog.Forgets log log := by
  cases log with
  | none => exact .none
  | some log => exact .some (PartitionLog.Forgets.refl log)

theorem optionRel_trans {first second third : Option PartitionLog}
    (earlier : Option.Rel PartitionLog.Forgets first second)
    (later : Option.Rel PartitionLog.Forgets second third) :
    Option.Rel PartitionLog.Forgets first third := by
  cases earlier with
  | none => exact later
  | some left =>
    cases later with
    | some right => exact .some (left.trans right)

theorem retentionChange_forgets (set : PartitionLogSet) (ref : PartitionRef)
    (policy : RetentionPolicy) (nowMs : ℕ) :
    Forgets set (set.retentionChange ref policy nowMs).1 := by
  unfold PartitionLogSet.retentionChange
  split
  · rename_i log configured
    refine ⟨?_, rfl⟩
    intro tested
    by_cases same : tested = ref
    · subst same
      simp only [get?_insert_self, configured]
      exact .some (log.enforceRetention_forgets policy nowMs)
    · simp only [get?_insert_of_ne _ _ same]
      exact optionRel_refl _
  · exact ⟨fun tested => optionRel_refl _, rfl⟩

theorem planRetention_forgets (nowMs : ℕ) (set : PartitionLogSet)
    (work : List (PartitionRef × RetentionPolicy)) :
    Forgets set (set.planRetention nowMs work).1 := by
  induction work generalizing set with
  | nil => exact ⟨fun ref => optionRel_refl _, rfl⟩
  | cons item work ih =>
    obtain ⟨ref, policy⟩ := item
    have step := retentionChange_forgets set ref policy nowMs
    have later := ih (set.retentionChange ref policy nowMs).1
    exact ⟨fun tested => optionRel_trans (step.logs tested) (later.logs tested),
      later.dynamicLogs.trans step.dynamicLogs⟩

theorem Forgets.find {set result : PartitionLogSet} (forgot : Forgets set result)
    (ref : PartitionRef) : Option.Rel PartitionLog.Forgets (set.find ref) (result.find ref) := by
  have configured := forgot.logs ref
  unfold PartitionLogSet.find
  rw [forgot.dynamicLogs]
  cases before : set.logs.get? ref with
  | none =>
    rw [before] at configured
    cases after : result.logs.get? ref with
    | none => exact optionRel_refl _
    | some log => rw [after] at configured; cases configured
  | some log =>
    rw [before] at configured
    cases after : result.logs.get? ref with
    | none => rw [after] at configured; cases configured
    | some next => rw [after] at configured; exact configured

variable {logs : PartitionLogSet}

/-- Forgetting bookkeeping changes no partition's records. -/
theorem contents_forgets (forgot : Forgets store.logs logs)
    (ref : PartitionRef) :
    ({ store with logs } : ReplicaDataStore).contents ref = store.contents ref := by
  have related := forgot.find ref
  unfold contents
  cases before : store.logs.find ref with
  | none =>
    rw [before] at related
    cases after : logs.find ref with
    | none => simp
    | some log => rw [after] at related; cases related
  | some log =>
    rw [before] at related
    cases after : logs.find ref with
    | none => rw [after] at related; cases related
    | some next =>
      rw [after] at related
      cases related with
      | some same => simpa [after] using same.records

section

variable (coherent : store.Coherent)

include coherent

theorem Coherent.forgets
    (forgot : Forgets store.logs logs) : ({ store with logs } : ReplicaDataStore).Coherent := by
  refine ⟨?_, ?_, ?_⟩
  · intro ref next found
    have related := forgot.find ref
    rw [found] at related
    obtain ⟨log, before, same⟩ := exists_of_rel related
    exact kept_forgets (coherent.kept ref log before) same
  · intro ref next configured
    have related := forgot.logs ref
    rw [configured] at related
    obtain ⟨log, before, same⟩ := exists_of_rel related
    rw [same.records]
    exact coherent.complete ref log before
  · intro ref entry member
    rw [contents_forgets forgot]
    exact coherent.sound ref entry member

theorem Coherent.applyRetentions (changes : List RetentionChange) :
    (store.applyRetentions changes).1.Coherent := by
  apply applyRetentions_keeps _ changes _ coherent
  intro middle change coherent
  apply coherent.rewriteKept
  rintro lowest ⟨⟩ offset accepted
  exact of_decide_eq_true accepted

theorem Coherent.enforceRetention (streams : List StreamDefinition)
    (nowMs : ℕ) : (store.enforceRetention streams nowMs).1.Coherent :=
  (coherent.forgets (planRetention_forgets nowMs store.logs _)).applyRetentions _

/-- A partition starts empty, so nothing of it is indexed. -/
theorem Coherent.activate {reserved : Bool}
    {opened : Outcome PartitionLog}
    (openedAt : ∀ log, opened = .ok log → log.ref = ref)
    (activated : store.logs.activatePartition ref reserved opened = .ok logs) :
    ({ store with logs } : ReplicaDataStore).Coherent := by
  rcases PartitionLogSet.activatePartition_cases activated with
    rfl | ⟨log, isOpened, noRecords, absent, dynamic, rfl⟩
  · exact coherent
  have finds := fun tested =>
    PartitionLogSet.find_insert_dynamic store.logs ref tested log dynamic
  refine ⟨?_, coherent.complete, ?_⟩
  · intro tested served found
    rw [finds] at found
    split at found
    · rename_i same
      obtain rfl := Option.some.inj found
      refine ⟨(openedAt log isOpened).trans same.symm, ?_, ?_, ?_⟩ <;> simp [noRecords]
    · exact coherent.kept tested served found
  · intro tested entry member
    have earlier := coherent.sound tested entry member
    refine ⟨earlier.1, ?_⟩
    obtain ⟨record, stored, atOffset⟩ := earlier.2
    refine ⟨record, ?_, atOffset⟩
    by_cases same : tested = ref
    · subst same
      simp [contents, absent] at stored
    · simpa [contents, finds, same] using stored

end

/-! ### Opening -/

/-- The last replayed record of a partition and offset is the indexed one. -/
theorem indexReplay_get? (replay : List MessageEnvelope)
    (unique : ∀ first ∈ replay, ∀ second ∈ replay,
      first.ref = second.ref → first.offset = second.offset → first = second)
    (ref : PartitionRef) (offset : ℕ) (entry : MessageEnvelope) :
    (((indexReplay replay).get? ref).getD ∅).get? offset = some entry ↔
      entry ∈ replay ∧ entry.ref = ref ∧ entry.offset = offset := by
  induction replay using List.reverseRecOn with
  | nil => simp [indexReplay]
  | append_singleton replay last ih =>
    have earlier := ih (fun first firstIn second secondIn =>
      unique first (mem_append_left _ firstIn) second (mem_append_left _ secondIn))
    have step : indexReplay (replay ++ [last]) = (indexReplay replay).insert last.ref
        ((((indexReplay replay).get? last.ref).getD ∅).insert last.offset last) := by
      simp [indexReplay, foldl_append]
    by_cases same : ref = last.ref ∧ offset = last.offset
    · obtain ⟨rfl, rfl⟩ := same
      rw [step, get?_insert_self, Option.getD_some, get?_insert_self]
      simp only [Option.some.injEq, mem_append, mem_singleton]
      constructor
      · rintro rfl
        exact ⟨.inr rfl, rfl, rfl⟩
      · rintro ⟨member, atRef, atOffset⟩
        exact (unique entry (by simpa using member) last (by simp) atRef atOffset).symm
    · have other : (((indexReplay (replay ++ [last])).get? ref).getD ∅).get? offset =
          (((indexReplay replay).get? ref).getD ∅).get? offset := by
        rw [step, get?_insert]
        split
        · rename_i sameRef
          subst sameRef
          exact get?_insert_of_ne _ _ fun sameOffset => same ⟨rfl, sameOffset⟩
        · rfl
      rw [other, earlier, mem_append, mem_singleton]
      constructor
      · exact fun found => ⟨.inl found.1, found.2⟩
      · rintro ⟨before | rfl, atRef, atOffset⟩
        · exact ⟨before, atRef, atOffset⟩
        · exact absurd ⟨atRef.symm, atOffset.symm⟩ same

/-- Every log holds records of the partition it is stored under. -/
def Owned (logs : OrderedMap PartitionRef PartitionLog) : Prop :=
  ∀ ref log, logs.get? ref = some log → ∀ record ∈ log.records, record.ref = ref

section Opening

variable {logs : OrderedMap PartitionRef PartitionLog}

theorem open_find (logs : OrderedMap PartitionRef PartitionLog)
    (history : List PartitionCommitRecord) (bytes : ℕ) (ref : PartitionRef) :
    (openForPartitions logs history bytes).logs.find ref = logs.get? ref := by
  change (logs.get? ref).or none = logs.get? ref
  simp

variable (owned : Owned logs)

include owned

theorem mem_replayLogs (entry : MessageEnvelope) :
    entry ∈ replayLogs logs ↔ ∃ log record, logs.get? entry.ref = some log ∧
      record ∈ log.records ∧ record.intoResidentMetadata = entry := by
  simp only [replayLogs, mem_flatMap, mem_map, mem_values]
  constructor
  · rintro ⟨log, ⟨ref, found⟩, record, member, rfl⟩
    have atRef : record.ref = ref := owned ref log found record member
    exact ⟨log, record, atRef.symm ▸ found, member, rfl⟩
  · rintro ⟨log, record, found, member, rfl⟩
    exact ⟨log, ⟨_, found⟩, record, member, rfl⟩

/-- Opening indexes exactly the stored records of every partition. -/
theorem open_index (history : List PartitionCommitRecord) (bytes : ℕ) (ref : PartitionRef) :
    (openForPartitions logs history bytes).Indexed ref := by
  have unique : ∀ first ∈ replayLogs logs, ∀ second ∈ replayLogs logs,
      first.ref = second.ref → first.offset = second.offset → first = second := by
    intro first firstIn second secondIn sameRef sameOffset
    obtain ⟨log, left, found, leftIn, rfl⟩ := (mem_replayLogs owned first).mp firstIn
    obtain ⟨other, right, foundToo, rightIn, rfl⟩ := (mem_replayLogs owned second).mp secondIn
    rw [← sameRef, found] at foundToo
    obtain rfl := Option.some.inj foundToo
    have leftRead := PartitionLog.readOffset_eq_some.mpr ⟨leftIn, rfl⟩
    have rightRead := PartitionLog.readOffset_eq_some.mpr ⟨rightIn, rfl⟩
    rw [show left.offset = right.offset from sameOffset, rightRead] at leftRead
    rw [Option.some.inj leftRead]
  have ordered : ((openForPartitions logs history bytes).contents ref |>.map indexEntry).Pairwise
      (fun first second => first.1 < second.1) := by
    rw [pairwise_map]
    exact contents_increasing _ ref
  have found := open_find logs history bytes ref
  have same : (openForPartitions logs history bytes).index ref =
      ⟨((openForPartitions logs history bytes).contents ref).map indexEntry, ordered⟩ := by
    apply ext_get?
    intro offset
    apply Option.ext
    intro entry
    change (((indexReplay (replayLogs logs)).get? ref).getD ∅).get? offset = some entry ↔ _
    rw [indexReplay_get? _ unique, mem_replayLogs owned, ← mem_entries]
    simp only [contents, found, mem_map, indexEntry, Prod.mk.injEq]
    constructor
    · rintro ⟨⟨log, record, atRef, member, rfl⟩, rfl, rfl⟩
      exact ⟨record, by rw [atRef]; exact member, rfl, rfl⟩
    · rintro ⟨record, member, rfl, rfl⟩
      cases served : logs.get? ref with
      | none => simp [served] at member
      | some log =>
        rw [served] at member
        have atRef : record.ref = ref := owned ref log served record member
        exact ⟨⟨log, record, atRef.symm ▸ served, member, rfl⟩, atRef, rfl⟩
  rw [Indexed, same]

omit owned

/-- A freshly opened store is coherent. -/
theorem Coherent.opened (kept : ∀ ref log, logs.get? ref = some log → log.Kept ref)
    (history : List PartitionCommitRecord) (bytes : ℕ) :
    (openForPartitions logs history bytes).Coherent := by
  have owned : Owned logs := fun ref log found => (kept ref log found).owned
  refine ⟨?_, ?_, ?_⟩
  · intro ref log found
    rw [open_find] at found
    exact kept ref log found
  · intro ref log configured
    rw [open_index owned history bytes ref,
      contents_of_find (PartitionLogSet.find_of_configured configured)]
  · intro ref entry member
    rw [open_index owned history bytes ref, mem_map] at member
    obtain ⟨record, stored, rfl⟩ := member
    exact ⟨rfl, record, stored, rfl⟩

end Opening

/-! ### Runs -/

/-- A call on the store. -/
inductive Call
  | append (request : DataAppendRequest)
  | appendBatch (limits : BatchLimits) (requests : List DataAppendRequest)
  | commit (request : DataCommitRequest) (io : CommitIo)
  | enforceRetention (streams : List StreamDefinition) (nowMs : ℕ)
  | activatePartition (ref : PartitionRef) (reserved : Bool) (opened : Outcome PartitionLog)

/-- A log opened for activation is the log of the activated partition. -/
def Call.WellFormed : Call → Prop
  | .activatePartition ref _ opened => ∀ log, opened = .ok log → log.ref = ref
  | _ => True

/-- The store after a call, whatever the call returned. -/
def after (store : ReplicaDataStore) : Call → ReplicaDataStore
  | .append request => (store.appendInner request true).1
  | .appendBatch limits requests => (store.appendBatch limits requests).1
  | .commit request io => (store.commit request io).1
  | .enforceRetention streams nowMs => (store.enforceRetention streams nowMs).1
  | .activatePartition ref reserved opened =>
    match store.logs.activatePartition ref reserved opened with
    | .ok logs => { store with logs }
    | .error _ => store

/-- A store opened on logs of its own partitions and driven by any calls. Opening
a log counts its records for retention. The journal's watermarks are machine words. -/
inductive Reachable : ReplicaDataStore → Prop
  | opened {logs : OrderedMap PartitionRef PartitionLog} {history : List PartitionCommitRecord}
      (bytes : ℕ) (kept : ∀ ref log, logs.get? ref = some log → log.Kept ref)
      (settled : ∀ ref log, logs.get? ref = some log → log.Settled)
      (words : ∀ record ∈ history, record.highWatermark ≤ u64Max) :
      Reachable (openForPartitions logs history bytes)
  | step {store : ReplicaDataStore} (call : Call) (wellFormed : call.WellFormed)
      (reached : Reachable store) : Reachable (store.after call)

theorem Coherent.after (coherent : store.Coherent) (call : Call) (wellFormed : call.WellFormed) :
    (store.after call).Coherent := by
  cases call with
  | append request => exact coherent.appendInner request true
  | appendBatch limits requests => exact coherent.appendBatch limits requests
  | commit request io => exact coherent.commit request io
  | enforceRetention streams nowMs => exact coherent.enforceRetention streams nowMs
  | activatePartition ref reserved opened =>
    simp only [ReplicaDataStore.after]
    split
    · rename_i logs activated
      exact coherent.activate wellFormed activated
    · exact coherent

/-- Every reachable store is coherent. -/
theorem Reachable.coherent (reached : Reachable store) : store.Coherent := by
  induction reached with
  | opened bytes kept _ _ => exact Coherent.opened kept _ bytes
  | step call wellFormed _ ih => exact ih.after call wellFormed

end ReplicaDataStore

/-! ### A small partition

Records of one partition that concrete runs refer to.
-/

namespace Sample

open ByteCodec

def stream : StreamId := ⟨"orders", validStreamName_orders⟩

def ref : PartitionRef := ⟨"orders", ⟨0, PartitionId.zero_bounded⟩⟩

def envelope (offset : ℕ) (payload : UInt8) : MessageEnvelope where
  nameSpace := "default"
  stream := stream
  partition := ⟨0, PartitionId.zero_bounded⟩
  offset := offset
  subject := "orders/new"
  key := none
  headers := []
  timestampMs := offset
  replyTo := none
  schemaId := none
  payload := [payload]
  partitioningEpoch := 1
  leaderEpoch := 1
  legacySeq := offset + 1

/-- There is a small offset. -/
instance smallOffset : NeZero 8 := ⟨by decide⟩

/-- The record at a small offset with a one-byte payload. -/
def record (offset : Fin 8) (payload : UInt8) : StoredEnvelope where
  toMessageEnvelope := envelope offset payload
  storable := by
    have small := offset.isLt
    have word : offset.val < 2 ^ 64 := by omega
    have unit : 1 < 2 ^ 64 := by decide
    refine ⟨word, word, Nat.two_pow_pos 64, unit, unit, ?_, ?_⟩
    · change offset.val + 1 < 2 ^ 64
      omega
    · simp only [MessageEnvelope.body, MessageEnvelope.fields, length_append,
        littleEndian_length, field_length, envelope, length_singleton]
      decide

variable (records : List StoredEnvelope)

/-- A log that holds exactly the given records. -/
def log (nextOffset : ℕ)
    (increasing : records.Pairwise (fun first second => first.offset < second.offset))
    (exceeded : ∀ record ∈ records, saturatingSucc record.offset ≤ nextOffset) : PartitionLog where
  stream := stream
  partition := ⟨0, PartitionId.zero_bounded⟩
  records := records
  nextOffset := nextOffset
  retentionRecords := records.map PartitionLog.retentionRecord
  retainedBytes := (records.map StoredEnvelope.batchBytes).sum
  deletedMessages := 0
  deletedBytes := 0
  increasing := increasing
  exceeded := exceeded

/-- The logs of a replica that serves one partition. -/
def logs (log : PartitionLog) : OrderedMap PartitionRef PartitionLog :=
  (∅ : OrderedMap PartitionRef PartitionLog).insert ref log

theorem logs_get? {log served : PartitionLog} {tested : PartitionRef}
    (found : (logs log).get? tested = some served) : tested = ref ∧ served = log := by
  rcases get?_insert_eq_some.mp found with ⟨same, rfl⟩ | ⟨-, absent⟩
  · exact ⟨same, rfl⟩
  · cases absent

/-- A replica opened on one log is reachable. -/
theorem opened_reachable {log : PartitionLog} {history : List PartitionCommitRecord}
    (kept : log.Kept ref) (settled : log.Settled)
    (words : ∀ record ∈ history, record.highWatermark ≤ u64Max) :
    ReplicaDataStore.Reachable (ReplicaDataStore.openForPartitions (logs log) history 0) := by
  refine ReplicaDataStore.Reachable.opened 0 ?_ ?_ words
  · intro tested served found
    obtain ⟨rfl, rfl⟩ := logs_get? found
    exact kept
  · intro tested served found
    obtain ⟨_, rfl⟩ := logs_get? found
    exact settled

theorem log_settled (nextOffset : ℕ)
    (increasing : records.Pairwise (fun first second => first.offset < second.offset))
    (exceeded : ∀ record ∈ records, saturatingSucc record.offset ≤ nextOffset) :
    (log records nextOffset increasing exceeded).Settled := ⟨rfl, rfl⟩

/-- A log with one record at offset zero. -/
def singleRecordLog : PartitionLog := log [record 0 7] 1 (by simp) (by decide)

theorem singleRecordLog_kept : singleRecordLog.Kept ref := by
  refine ⟨rfl, ?_, ?_, ?_⟩
  · intro stored member
    rw [mem_singleton.mp member]
    rfl
  · intro stored member
    rw [mem_singleton.mp member]
    decide
  · rintro last ⟨⟩
    rfl

end Sample

end Morrow
