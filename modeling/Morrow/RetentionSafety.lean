import Morrow.ReplicaRetention
import Morrow.Replication

/-!
# Retention and committed records

A replica is safe for the metadata when the record at every committed watermark is
stored with its checksum, and it takes the leader's next record when its last
record is the watermark. Retention keeps both exactly when the watermark records of
the configured partitions outlive their policies and no record lies behind them. A
partition whose records have all aged out, or whose policy has less room than its
last records need, becomes unsafe and refuses every further append; one that holds
records behind the watermark refuses the leader's next record in any case.
-/

namespace Morrow.ReplicaDataStore

open OrderedMap List

variable {store next : ReplicaDataStore} {ref : PartitionRef} {changes : List RetentionChange}

/-! ### What is left to read -/

section

variable (retains : store.Retains next changes)

include retains

theorem Retains.indexed (indexed : store.Indexed ref) :
    next.Indexed ref := by
  have entries : (store.index ref).entries = (store.contents ref).map indexEntry := indexed
  rw [Indexed, retains.index, retains.contents]
  simp only [OrderedMap.retain, entries, keepRecords, filter_map]
  rfl

/-- Exactly the spared records can still be loaded. -/
theorem Retains.loadEnvelope (ref : PartitionRef)
    (offset : ℕ) :
    next.logs.loadEnvelope ref offset =
      if spares changes ref offset then store.logs.loadEnvelope ref offset else none := by
  apply Option.ext
  intro record
  rw [loadEnvelope_eq_some, retains.contents, keepRecords, mem_filter]
  split
  · rename_i spared
    rw [loadEnvelope_eq_some]
    constructor
    · rintro ⟨⟨member, _⟩, atOffset⟩
      exact ⟨member, atOffset⟩
    · rintro ⟨member, rfl⟩
      exact ⟨⟨member, spared⟩, rfl⟩
  · rename_i given
    constructor
    · rintro ⟨⟨_, spared⟩, rfl⟩
      exact absurd spared given
    · rintro ⟨⟩

theorem Retains.storedChecksum (coherent : store.Coherent)
    (ref : PartitionRef) (offset : ℕ) :
    next.storedChecksum ref offset =
      if spares changes ref offset then store.storedChecksum ref offset else none := by
  unfold ReplicaDataStore.storedChecksum
  rw [retains.index, get?_retain]
  cases listed : (store.index ref).get? offset with
  | none => simp
  | some entry =>
    have atOffset := (coherent.index_get? listed).1
    by_cases spared : spares changes ref offset = true
    · simp [spared, Option.filter, atOffset, retains.loadEnvelope]
    · simp [spared, Option.filter]

end

theorem hasCommittedPrefix_iff {metadata : PartitionCommits} :
    store.hasCommittedPrefix metadata = true ↔ store.unsafeCommits = false ∧
      ∀ key commit, metadata.get? key = some commit → ∃ ref, parsePartitionKey key = some ref ∧
        store.storedChecksum ref commit.highWatermark = some commit.checksum := by
  simp only [hasCommittedPrefix, Bool.and_eq_true, Bool.not_eq_true', all_eq_true,
    Prod.forall, mem_entries]
  refine and_congr_right (fun _ => forall₃_congr (fun key commit _ => ?_))
  cases parsePartitionKey key with
  | none => simp
  | some ref => simp

/-- A stored checksum belongs to a record of the partition. -/
theorem Coherent.record_of_storedChecksum (coherent : store.Coherent) {offset checksum : ℕ}
    (stored : store.storedChecksum ref offset = some checksum) :
    ∃ record ∈ store.contents ref, record.offset = offset ∧ record.checksum = checksum := by
  obtain ⟨entry, listed, rest⟩ := Option.bind_eq_some_iff.mp stored
  obtain ⟨record, loaded, returned⟩ := Option.bind_eq_some_iff.mp rest
  rw [(coherent.index_get? listed).1, loadEnvelope_eq_some] at loaded
  exact ⟨record, loaded.1, loaded.2, Option.some.inj returned⟩

/-! ### The watermark under retention -/

/-- The leader's request for the record after a committed watermark. -/
structure NextAfter (commit : PartitionCommitMetadata) (request : DataAppendRequest) : Prop where
  offset : request.envelope.offset = commit.highWatermark + 1
  epoch : request.envelope.leaderEpoch ≤ request.leaderEpoch
  predecessorOffset : request.predecessorOffset = some commit.highWatermark
  predecessorChecksum : request.predecessorChecksum = some commit.checksum

/-- Another replica holds the same log of a partition, both have indexed it, and there is
room after the committed watermark. -/
structure Mirrors (store replica : ReplicaDataStore) (ref : PartitionRef)
    (commit : PartitionCommitMetadata) : Prop where
  reached : Reachable replica
  indexed : store.Indexed ref
  mirrored : replica.Indexed ref
  configured : replica.logs.logs.get? ref = store.logs.logs.get? ref
  found : replica.logs.find ref = store.logs.find ref
  room : commit.highWatermark + 1 < u64Max

/-- A last record that is spared stays the last one. -/
theorem Retains.getLast? (retains : store.Retains next changes) {last : StoredEnvelope}
    (isLast : (store.contents ref).getLast? = some last)
    (spared : spares changes ref last.offset = true) :
    (next.contents ref).getLast? = some last := by
  obtain ⟨front, shape⟩ := getLast?_eq_some_iff.mp isLast
  rw [retains.contents, shape, keepRecords, filter_append, filter_cons, if_pos spared,
    filter_nil, getLast?_concat]

section Streams

variable {streams : List StreamDefinition} {nowMs : ℕ}
  (distinct : (streams.map (·.name.name)).Nodup)

include distinct

variable {record : StoredEnvelope}

/-- The plan spares a stored record of a configured partition exactly when the
record outlives the policies of the streams that list its partition. -/
theorem spares_iff_survives (coherent : store.Coherent) (settled : store.Settled)
    {log : PartitionLog} (configured : store.logs.logs.get? ref = some log)
    (member : record ∈ log.records) :
    spares (store.logs.retentionChanges streams nowMs).2 ref record.offset = true ↔
      ∀ stream ∈ streams, stream.name.name = ref.stream →
        ref.partition.value < stream.partitions.value →
        log.Survives stream.retention nowMs record.offset := by
  have kept := coherent.kept ref log (PartitionLogSet.find_of_configured configured)
  have below : ∀ stored ∈ log.records, stored.offset < log.nextOffset :=
    fun stored among => kept.below among
  have planned := mem_planRetention store.logs nowMs (retentionWork_nodup distinct) ref
  rw [spares_iff]
  constructor
  · intro spared stream listed named inside
    rw [← PartitionLog.enforceRetention_spares_iff (settled ref log configured) below member]
    intro earliest moved
    refine spared earliest ((planned earliest).mpr ⟨stream.retention, log, ?_, configured, moved⟩)
    exact mem_retentionWork.mpr ⟨stream, listed, named, inside, rfl⟩
  · intro survives earliest change
    obtain ⟨policy, served, listed, servedAt, moved⟩ := (planned earliest).mp change
    rw [configured] at servedAt
    obtain rfl := Option.some.inj servedAt
    obtain ⟨stream, among, named, inside, rfl⟩ := mem_retentionWork.mp listed
    exact (PartitionLog.enforceRetention_spares_iff (settled ref log configured) below member).mpr
      (survives stream among named inside) earliest moved

omit distinct in
/-- No change touches a partition that is not configured. -/
theorem spares_of_unconfigured (unconfigured : store.logs.logs.get? ref = none) (offset : ℕ) :
    spares (store.logs.retentionChanges streams nowMs).2 ref offset = true := by
  rw [spares_iff]
  intro earliest change
  have configured := planRetention_configured change
  simp [unconfigured] at configured

/-- A stored record is spared wherever the streams that list its partition let it
survive. -/
theorem spares_of_survives (coherent : store.Coherent) (settled : store.Settled)
    (member : record ∈ store.contents ref)
    (survives : ∀ log, store.logs.logs.get? ref = some log →
      ∀ stream ∈ streams, stream.name.name = ref.stream →
        ref.partition.value < stream.partitions.value →
        log.Survives stream.retention nowMs record.offset) :
    spares (store.logs.retentionChanges streams nowMs).2 ref record.offset = true := by
  cases configured : store.logs.logs.get? ref with
  | none => exact spares_of_unconfigured configured record.offset
  | some log =>
    rw [contents_of_find (PartitionLogSet.find_of_configured configured)] at member
    exact (spares_iff_survives distinct coherent settled configured member).mpr
      (survives log configured)

/-- A replica whose last record is the watermark, and survives, takes the leader's
next record. -/
theorem Mirrors.accepts {replica : ReplicaDataStore} {commit : PartitionCommitMetadata}
    {request : DataAppendRequest}
    (mirrors : store.Mirrors replica request.envelope.ref commit)
    (nextAfter : NextAfter commit request)
    (last : (store.contents request.envelope.ref).getLast?.map (·.offset) =
      some commit.highWatermark)
    (stored : ∃ record ∈ store.contents request.envelope.ref,
      record.offset = commit.highWatermark ∧ record.checksum = commit.checksum)
    (survives : ∀ log, store.logs.logs.get? request.envelope.ref = some log →
      ∀ stream ∈ streams, stream.name.name = request.envelope.ref.stream →
        request.envelope.ref.partition.value < stream.partitions.value →
        log.Survives stream.retention nowMs commit.highWatermark) (flush : Bool) :
    ∃ response,
      ((replica.enforceRetention streams nowMs).1.appendInner request flush).2 = .ok response := by
  have coherent := mirrors.reached.coherent
  have settled := mirrors.reached.settled
  have sameContents : replica.contents request.envelope.ref =
      store.contents request.envelope.ref := by
    simp only [contents, mirrors.found]
  obtain ⟨watermark, isLast, atWatermark⟩ := Option.map_eq_some_iff.mp last
  have member := mem_of_getLast? isLast
  obtain ⟨record, recordIn, atOffset, checksum⟩ := stored
  obtain rfl : record = watermark :=
    contents_unique recordIn member (atOffset.trans atWatermark.symm)
  obtain ⟨next, result, retains, _⟩ := coherent.enforceRetention_retains settled streams nowMs
  rw [← sameContents] at member isLast
  have spared : spares (replica.logs.retentionChanges streams nowMs).2 request.envelope.ref
      record.offset = true := by
    refine spares_of_survives distinct coherent settled member ?_
    rw [mirrors.configured, atOffset]
    exact survives
  have nextLast := retains.getLast? isLast spared
  have nextCoherent : next.Coherent := by
    have after := coherent.enforceRetention streams nowMs
    rwa [result] at after
  obtain ⟨log, serves⟩ := Serves.of_contents nextCoherent (retains.indexed mirrors.mirrored)
    (mem_of_getLast? nextLast)
  rw [serves.contents] at nextLast
  have nextOffset := serves.kept.tight record nextLast
  have room := mirrors.room
  have here := nextAfter.offset
  obtain ⟨_, accepted, _⟩ := serves.appendInner_next rfl (by omega) (by omega) nextAfter.epoch
    (serves.checkPredecessor_last rfl nextLast (atOffset ▸ nextAfter.predecessorOffset)
      (checksum ▸ nextAfter.predecessorChecksum)) flush
  rw [result, accepted]
  exact ⟨_, rfl⟩

end Streams

/-! ### A partition with one committed record -/

open Sample (record singleRecordLog singleRecordLog_kept)

/-- The stream of the partition, with room for one record. -/
def narrow : List StreamDefinition :=
  [⟨Sample.stream, ⟨1, PartitionId.one_bounded⟩, ⟨none, some (record 1 8).batchBytes⟩⟩]

/-- Retention never fails on a replica, whatever calls came before, and a configured
partition then holds exactly the records that outlive the policies of its streams. -/
theorem retention_keeps_survivors {streams : List StreamDefinition}
    (distinct : (streams.map (·.name.name)).Nodup) (reached : Reachable store) (nowMs : ℕ) :
    ∃ next, store.enforceRetention streams nowMs = (next, .ok ()) ∧
      ∀ ref log, store.logs.logs.get? ref = some log → next.Indexed ref ∧
        ∀ record, record ∈ next.contents ref ↔ record ∈ log.records ∧
          ∀ stream ∈ streams, stream.name.name = ref.stream →
            ref.partition.value < stream.partitions.value →
            log.Survives stream.retention nowMs record.offset := by
  have coherent := reached.coherent
  obtain ⟨next, enforced, retains, -⟩ :=
    coherent.enforceRetention_retains reached.settled streams nowMs
  refine ⟨next, enforced, fun ref log configured => ?_⟩
  refine ⟨retains.indexed (coherent.indexed configured), fun record => ?_⟩
  rw [retains.contents, contents_of_find (PartitionLogSet.find_of_configured configured),
    keepRecords, mem_filter]
  exact and_congr_right (spares_iff_survives distinct coherent reached.settled configured)

/-- With room for one record, the first of two is given up and the second is left. -/
theorem retention_keeps_survivors_aged :
    ∃ next, (replicaOf twoRecordLog).enforceRetention narrow 100 = (next, .ok ()) ∧
      record 0 7 ∉ next.contents Sample.ref ∧
      record 1 8 ∈ next.contents Sample.ref := by
  have distinct : (narrow.map (·.name.name)).Nodup := by decide
  obtain ⟨next, enforced, left⟩ := retention_keeps_survivors distinct
    (replicaOf_reachable twoRecordLog_kept (Sample.log_settled _ _ _ _)) 100
  obtain ⟨-, held⟩ := left Sample.ref twoRecordLog (get?_insert_self _ _ _)
  refine ⟨next, enforced, ?_, ?_⟩
  · rw [held]
    rintro ⟨-, survives⟩
    have size := (survives _ mem_cons_self rfl (by decide)).size _ rfl
    revert size
    decide +kernel
  · rw [held]
    refine ⟨mem_cons_of_mem _ mem_cons_self, ?_⟩
    intro stream listed _ _
    rw [mem_singleton.mp listed]
    refine ⟨?_, ?_⟩
    · rintro maxAgeMs ⟨⟩
    · rintro maxBytes ⟨⟩
      decide +kernel

end Morrow.ReplicaDataStore
