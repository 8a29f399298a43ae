import Morrow.RetentionPlan
import Morrow.ReplicaAppend

/-!
# Retention on a replica

Retention plans over the logs of the configured partitions and then shrinks each
changed partition to the offsets it kept. Between calls the bookkeeping of every
configured log agrees with its records, so the plan spares exactly the records
that outlive the policy.

The plan knows nothing of commits. When the record at a partition's high watermark
does not outlive the policy, the replica loses the record that both the safety
check before an election and the predecessor check of the next append look for.
-/

namespace Morrow

open OrderedMap List PartitionLogSet

theorem PartitionLog.Kept.below {log : PartitionLog} {ref : PartitionRef} (kept : log.Kept ref)
    {record : StoredEnvelope} (member : record ∈ log.records) : record.offset < log.nextOffset := by
  have exceeded := log.exceeded record member
  rw [saturatingSucc_of_lt (kept.bounded record member)] at exceeded
  omega

namespace ReplicaDataStore

variable {store next : ReplicaDataStore} {ref : PartitionRef}

/-! ### The bookkeeping between calls -/

/-- The bookkeeping of every configured log agrees with its records. -/
def Settled (store : ReplicaDataStore) : Prop :=
  ∀ ref log, store.logs.logs.get? ref = some log → log.Settled

theorem settled_append {log appended : PartitionLog} {envelope : StoredEnvelope}
    (settled : log.Settled) (result : log.appendCommitted envelope = .ok appended) :
    appended.Settled := by
  rcases PartitionLog.appendCommitted_cases result with ⟨_, rfl, _⟩ | ⟨here, room, rfl⟩
  · exact settled
  · constructor
    · simp [PartitionLog.push, settled.records]
    · simp [PartitionLog.push, settled.bytes]

theorem settled_rewrite {log rewritten : PartitionLog} {records : List StoredEnvelope}
    {floor : Option ℕ} (result : log.rewrite records floor = .ok rewritten) :
    rewritten.Settled := by
  obtain ⟨kept, _, _, counted, bytes⟩ := PartitionLog.rewrite_cases result
  exact ⟨by rw [counted, kept], by rw [bytes, kept]⟩

section

variable (settled : store.Settled)

include settled

theorem Settled.rewriteKept (coherent : store.Coherent)
    (ref : PartitionRef) (keep : ℕ → Bool) (unavailable : String) (floor : Option ℕ) :
    (store.rewriteKept ref keep unavailable floor).1.Settled := by
  rcases rewriteKept_cases coherent ref keep unavailable floor with
    ⟨failure, _, result⟩ | ⟨log, rewritten, _, rewrites, result⟩
  · rw [result]
    exact settled
  · rw [result]
    intro tested served found
    rcases get?_insert_eq_some.mp found with ⟨-, rfl⟩ | ⟨-, old⟩
    · exact settled_rewrite rewrites
    · exact settled tested served old

theorem Settled.storeRecord {request : DataAppendRequest}
    (stored : store.storeRecord request = .ok next) : next.Settled := by
  rcases storeRecord_cases stored with rfl | ⟨logs, _, appended, rfl⟩
  · exact settled
  · obtain ⟨log, extended, found, grown, _, configured⟩ :=
      appendCommitted_cases appended
    intro tested served servedAt
    rw [configured] at servedAt
    split at servedAt
    · rename_i same
      obtain ⟨old, oldAt, rfl⟩ := Option.map_eq_some_iff.mp servedAt
      rw [same] at oldAt
      rw [find_of_configured oldAt] at found
      obtain rfl := Option.some.inj found
      exact settled_append (settled _ _ oldAt) grown
    · exact settled tested served servedAt

theorem Settled.appendInner (coherent : store.Coherent)
    (request : DataAppendRequest) (flush : Bool) :
    (store.appendInner request flush).1.Settled := by
  refine appendInner_keeps Settled request flush settled ?_
    (fun _ _ middle stored => middle.storeRecord stored)
  unfold truncateSuffix
  split
  · exact settled.rewriteKept coherent _ _ _ _
  · exact settled

theorem Settled.appendBatch (coherent : store.Coherent)
    (limits : BatchLimits) (requests : List DataAppendRequest) :
    (store.appendBatch limits requests).1.Settled :=
  (appendBatch_keeps (fun state => state.Coherent ∧ state.Settled) limits requests
    (fun request _ _ holds => ⟨holds.1.appendInner request false,
      holds.2.appendInner holds.1 request false⟩) ⟨coherent, settled⟩).2

end

/-- Every configured log is settled or has a change to come. -/
def Awaits (set : PartitionLogSet) (changes : List RetentionChange) : Prop :=
  ∀ ref log, set.logs.get? ref = some log → log.Settled ∨ ∃ change ∈ changes, change.ref = ref

variable {set : PartitionLogSet} {changes : List RetentionChange}

/-- Planning for one partition leaves its log settled or reports a change. -/
theorem Awaits.retentionChange (awaits : Awaits set changes)
    (kept : ∀ ref log, set.logs.get? ref = some log → log.Kept ref) (ref : PartitionRef)
    (policy : RetentionPolicy) (nowMs : ℕ) :
    Awaits (set.retentionChange ref policy nowMs).1
      (changes ++ (set.retentionChange ref policy nowMs).2.toList) := by
  have earlier : ∀ tested log, set.logs.get? tested = some log → ∀ more : List RetentionChange,
      log.Settled ∨ ∃ change ∈ changes ++ more, change.ref = tested := by
    intro tested log found more
    refine (awaits tested log found).imp_right ?_
    rintro ⟨change, member, same⟩
    exact ⟨change, mem_append_left more member, same⟩
  unfold PartitionLogSet.retentionChange
  split
  · rename_i log configured
    intro tested served found
    rcases get?_insert_eq_some.mp found with ⟨rfl, rfl⟩ | ⟨-, found⟩
    · rcases awaits tested log configured with settled | ⟨change, member, same⟩
      · cases planned : (log.enforceRetention policy nowMs).2 with
        | none =>
          exact .inl (settled.unmoved (fun _ member => (kept _ _ configured).below member)
            planned)
        | some earliest => exact .inr ⟨⟨tested, earliest⟩, by simp [planned], rfl⟩
      · exact .inr ⟨change, mem_append_left _ member, same⟩
    · exact earlier tested served found _
  · intro tested served found
    exact earlier tested served found _

theorem optionRel_isSome {first second : Option PartitionLog}
    (related : Option.Rel PartitionLog.Forgets first second) : second.isSome = first.isSome := by
  cases related <;> rfl

theorem kept_planned {planned : PartitionLogSet} (forgot : Forgets set planned)
    (kept : ∀ ref log, set.logs.get? ref = some log → log.Kept ref) (ref : PartitionRef)
    (log : PartitionLog) (found : planned.logs.get? ref = some log) :
    log.Kept ref := by
  have related := forgot.logs ref
  rw [found] at related
  cases before : set.logs.get? ref with
  | none => rw [before] at related; cases related
  | some old =>
    rw [before] at related
    cases related with
    | some same => exact kept_forgets (kept ref old before) same

theorem Awaits.planRetention (awaits : Awaits set changes)
    (kept : ∀ ref log, set.logs.get? ref = some log → log.Kept ref) (nowMs : ℕ)
    (work : List (PartitionRef × RetentionPolicy)) :
    Awaits (set.planRetention nowMs work).1 (changes ++ (set.planRetention nowMs work).2) := by
  induction work generalizing set changes with
  | nil => simpa [planRetention] using awaits
  | cons item work ih =>
    obtain ⟨ref, policy⟩ := item
    have first := awaits.retentionChange kept ref policy nowMs
    have later := ih first (kept_planned (retentionChange_forgets set ref policy nowMs) kept)
    rw [append_assoc] at later
    exact later

/-! ### What a plan contains -/

variable {work : List (PartitionRef × RetentionPolicy)} {change : RetentionChange}

/-- Only configured partitions are changed. -/
theorem planRetention_configured {nowMs : ℕ} (planned : change ∈ (set.planRetention nowMs work).2) :
    (set.logs.get? change.ref).isSome := by
  induction work generalizing set with
  | nil => simp [planRetention] at planned
  | cons item work ih =>
    rcases mem_append.mp planned with first | later
    · unfold retentionChange at first
      split at first
      · rename_i log configured
        obtain ⟨earliest, _, rfl⟩ := Option.map_eq_some_iff.mp (Option.mem_toList.mp first)
        simp [configured]
      · simp at first
    · have afterFirst := ih later
      unfold retentionChange at afterFirst
      split at afterFirst
      · rename_i log configured
        rw [get?_insert] at afterFirst
        split at afterFirst
        · rename_i same
          simp [same, configured]
        · exact afterFirst
      · exact afterFirst

/-- When no partition is listed twice, the plan changes exactly the listed
partitions whose earliest offset moves. -/
theorem mem_planRetention (set : PartitionLogSet) (nowMs : ℕ) (distinct : (work.map Prod.fst).Nodup)
    (ref : PartitionRef) (earliest : ℕ) :
    ⟨ref, earliest⟩ ∈ (set.planRetention nowMs work).2 ↔
      ∃ policy log, (ref, policy) ∈ work ∧ set.logs.get? ref = some log ∧
        (log.enforceRetention policy nowMs).2 = some earliest := by
  induction work generalizing set with
  | nil => simp [planRetention]
  | cons item work ih =>
    obtain ⟨first, policy⟩ := item
    obtain ⟨unlisted, rest⟩ := nodup_cons.mp distinct
    have elsewhere : ∀ other, (ref, other) ∈ work →
        (set.retentionChange first policy nowMs).1.logs.get? ref = set.logs.get? ref := by
      intro other listed
      have differ : ref ≠ first := by
        rintro rfl
        exact unlisted (mem_map.mpr ⟨_, listed, rfl⟩)
      unfold retentionChange
      split
      · exact get?_insert_of_ne _ _ differ
      · rfl
    have here : ⟨ref, earliest⟩ ∈ (set.retentionChange first policy nowMs).2.toList ↔
        ref = first ∧ ∃ log, set.logs.get? first = some log ∧
          (log.enforceRetention policy nowMs).2 = some earliest := by
      unfold retentionChange
      split
      · rename_i log configured
        simp only [Option.mem_toList, Option.map_eq_some_iff,
          RetentionChange.mk.injEq, configured, Option.some.injEq, exists_eq_left']
        constructor
        · rintro ⟨_, planned, rfl, rfl⟩
          exact ⟨rfl, planned⟩
        · rintro ⟨rfl, planned⟩
          exact ⟨earliest, planned, rfl, rfl⟩
      · rename_i unconfigured
        simp [unconfigured]
    have split : ⟨ref, earliest⟩ ∈ (set.planRetention nowMs ((first, policy) :: work)).2 ↔
        ⟨ref, earliest⟩ ∈ (set.retentionChange first policy nowMs).2.toList ∨
          ⟨ref, earliest⟩ ∈
            ((set.retentionChange first policy nowMs).1.planRetention nowMs work).2 :=
      mem_append
    rw [split, here, ih _ rest]
    constructor
    · rintro (⟨rfl, log, configured, planned⟩ | ⟨other, log, listed, configured, planned⟩)
      · exact ⟨policy, log, mem_cons_self, configured, planned⟩
      · exact ⟨other, log, mem_cons_of_mem _ listed, elsewhere other listed ▸ configured, planned⟩
    · rintro ⟨other, log, listed, configured, planned⟩
      rcases mem_cons.mp listed with same | later
      · obtain ⟨rfl, rfl⟩ := Prod.mk.inj same
        exact .inl ⟨rfl, log, configured, planned⟩
      · exact .inr ⟨other, log, later, (elsewhere other later).trans configured, planned⟩

variable {streams : List StreamDefinition}

/-- The listed partitions are those of the given streams. -/
theorem mem_retentionWork {policy : RetentionPolicy} :
    (ref, policy) ∈ retentionWork streams ↔
      ∃ stream ∈ streams, stream.name.name = ref.stream ∧
        ref.partition.value < stream.partitions.value ∧ stream.retention = policy := by
  simp only [retentionWork, mem_flatMap, mem_map, Prod.mk.injEq, mem_partitionsBelow]
  constructor
  · rintro ⟨stream, member, partition, below, rfl, rfl⟩
    exact ⟨stream, member, rfl, below, rfl⟩
  · rintro ⟨stream, member, named, below, rfl⟩
    exact ⟨stream, member, ref.partition, below, by rw [named], rfl⟩

/-- Streams with distinct names have no partition in common. -/
theorem retentionWork_nodup (distinct : (streams.map (·.name.name)).Nodup) :
    ((retentionWork streams).map Prod.fst).Nodup := by
  have named : (retentionWork streams).map Prod.fst =
      streams.flatMap (fun stream => (partitionsBelow stream.partitions).map
        (fun partition => (⟨stream.name.name, partition⟩ : PartitionRef))) := by
    simp only [retentionWork, map_flatMap, map_map]
    rfl
  rw [named, nodup_flatMap]
  refine ⟨?_, ?_⟩
  · intro stream _
    apply List.Nodup.map
    · intro first second same
      exact (PartitionRef.mk.inj same).2
    · apply List.Nodup.map
      · intro first second same
        exact Fin.ext (PartitionId.mk.inj same)
      · exact nodup_finRange _
  · have separate := pairwise_map.mp distinct
    refine separate.imp ?_
    intro first second differ ref inFirst inSecond
    obtain ⟨_, _, rfl⟩ := mem_map.mp inFirst
    obtain ⟨_, _, same⟩ := mem_map.mp inSecond
    exact differ (PartitionRef.mk.inj same).1.symm

/-! ### Applying a plan -/

/-- The offsets of a partition that all the changes keep. -/
def spares (changes : List RetentionChange) (ref : PartitionRef) (offset : ℕ) : Bool :=
  changes.all (fun change => decide (change.ref = ref → change.earliestOffset ≤ offset))

theorem spares_iff {offset : ℕ} :
    spares changes ref offset = true ↔
      ∀ earliest, ⟨ref, earliest⟩ ∈ changes → earliest ≤ offset := by
  simp only [spares, all_eq_true, decide_eq_true_eq]
  constructor
  · intro all earliest member
    exact all _ member rfl
  · rintro all ⟨_, earliest⟩ member rfl
    exact all earliest member

/-- The second store is the first one without what the changes give up. -/
structure Retains (store next : ReplicaDataStore) (changes : List RetentionChange) : Prop where
  contents : ∀ ref, next.contents ref = keepRecords (spares changes ref) (store.contents ref)
  index : ∀ ref, next.index ref =
    (store.index ref).retain (fun offset _ => spares changes ref offset)
  configured : ∀ ref, (next.logs.logs.get? ref).isSome = (store.logs.logs.get? ref).isSome
  unsafeCommits : next.unsafeCommits = store.unsafeCommits

theorem retain_retain (index : RecordIndex) (first second : ℕ → Bool) :
    (index.retain (fun offset _ => first offset)).retain (fun offset _ => second offset) =
      index.retain (fun offset _ => first offset && second offset) := by
  apply ext_get?
  intro offset
  simp only [get?_retain]
  cases index.get? offset with
  | none => rfl
  | some entry => cases first offset <;> simp [Option.filter]

theorem Retains.nil (store : ReplicaDataStore) : store.Retains store [] := by
  refine ⟨?_, ?_, fun _ => rfl, rfl⟩
  · simp [keepRecords, spares]
  · intro ref
    apply ext_get?
    intro offset
    rw [get?_retain]
    cases (store.index ref).get? offset <;> simp [spares, Option.filter]

theorem Retains.cons {middle : ReplicaDataStore} (first : store.Retains middle [change])
    (rest : middle.Retains next changes) : store.Retains next (change :: changes) := by
  have both : ∀ ref, spares (change :: changes) ref =
      fun offset => spares [change] ref offset && spares changes ref offset := by
    intro ref
    funext offset
    simp [spares]
  refine ⟨?_, ?_, ?_, rest.unsafeCommits.trans first.unsafeCommits⟩
  · intro ref
    rw [rest.contents, first.contents, both]
    simp only [keepRecords, filter_filter, Bool.and_comm]
  · intro ref
    rw [rest.index, first.index, both]
    exact retain_retain _ _ _
  · intro ref
    rw [rest.configured, first.configured]

/-- One change of a configured partition shrinks that partition alone. -/
theorem Coherent.applyRetention_retains (coherent : store.Coherent)
    (configured : (store.logs.logs.get? change.ref).isSome) :
    ∃ next, store.applyRetention change = (next, .ok ()) ∧ store.Retains next [change] ∧
      ∃ log rewritten, store.logs.logs.get? change.ref = some log ∧
        next.logs.logs = store.logs.logs.insert change.ref rewritten ∧ rewritten.Settled := by
  rcases rewriteKept_cases coherent change.ref
      (fun offset => decide (change.earliestOffset ≤ offset))
      "retained replica record is unavailable" (some change.earliestOffset) with
    ⟨failure, unconfigured, _⟩ | ⟨log, rewritten, served, rewrites, result⟩
  · simp [unconfigured] at configured
  have own : spares [change] change.ref =
      fun offset => decide (change.earliestOffset ≤ offset) := by
    funext offset
    simp [spares]
  have other : ∀ ref, ref ≠ change.ref → spares [change] ref = fun _ => true := by
    intro ref differ
    funext offset
    simp [spares, differ.symm]
  refine ⟨_, result, ⟨?_, ?_, ?_, rfl⟩, log, rewritten, served, rfl, settled_rewrite rewrites⟩
  · intro ref
    simp only [contents, find_insert_logs]
    by_cases same : ref = change.ref
    · subst same
      rw [if_pos rfl, find_of_configured served, own]
      exact (PartitionLog.rewrite_cases rewrites).1
    · rw [if_neg same, other ref same]
      simp [keepRecords]
  · intro ref
    change (store.keepIndex change.ref _).index ref = _
    rw [keepIndex_index]
    by_cases same : ref = change.ref
    · subst same
      rw [if_pos rfl, own]
    · rw [if_neg same, other ref same]
      apply ext_get?
      intro offset
      rw [get?_retain]
      cases (store.index ref).get? offset <;> simp [Option.filter]
  · intro ref
    rw [get?_insert]
    split
    · rename_i same
      simp [same, served]
    · rfl

/-- Applying a plan of configured partitions succeeds, removes exactly what the
plan gives up, and settles every log that awaited a change. -/
theorem Coherent.applyRetentions_retains (coherent : store.Coherent)
    (configured : ∀ change ∈ changes, (store.logs.logs.get? change.ref).isSome)
    (awaits : Awaits store.logs changes) :
    ∃ next, store.applyRetentions changes = (next, .ok ()) ∧ store.Retains next changes ∧
      next.Settled := by
  induction changes generalizing store with
  | nil =>
    refine ⟨store, rfl, Retains.nil store, ?_⟩
    intro ref log found
    rcases awaits ref log found with settled | ⟨change, member, _⟩
    · exact settled
    · cases member
  | cons change changes ih =>
    obtain ⟨middle, applied, first, log, rewritten, served, middleLogs, settled⟩ :=
      coherent.applyRetention_retains (configured change mem_cons_self)
    have middleCoherent : middle.Coherent := by
      have single := coherent.applyRetentions [change]
      simpa [ReplicaDataStore.applyRetentions, applied] using single
    have middleAwaits : Awaits middle.logs changes := by
      intro tested served found
      rw [middleLogs] at found
      rcases get?_insert_eq_some.mp found with ⟨-, rfl⟩ | ⟨differ, found⟩
      · exact .inl settled
      · rcases awaits tested served found with settled | ⟨awaited, member, same⟩
        · exact .inl settled
        · rcases mem_cons.mp member with rfl | later
          · exact absurd same.symm differ
          · exact .inr ⟨awaited, later, same⟩
    obtain ⟨next, rest, retains, nextSettled⟩ := ih middleCoherent
      (fun later member => by
        rw [first.configured]
        exact configured later (mem_cons_of_mem change member)) middleAwaits
    refine ⟨next, ?_, first.cons retains, nextSettled⟩
    simp only [ReplicaDataStore.applyRetentions, applied, rest]

/-- Retention always succeeds. It removes exactly what the plan gives up and
leaves the bookkeeping settled. -/
theorem Coherent.enforceRetention_retains (coherent : store.Coherent) (settled : store.Settled)
    (streams : List StreamDefinition) (nowMs : ℕ) :
    ∃ next, store.enforceRetention streams nowMs = (next, .ok ()) ∧
      store.Retains next (store.logs.retentionChanges streams nowMs).2 ∧ next.Settled := by
  have forgot := planRetention_forgets nowMs store.logs (retentionWork streams)
  have kept : ∀ ref log, store.logs.logs.get? ref = some log → log.Kept ref :=
    fun ref log found => coherent.kept ref log (find_of_configured found)
  have plannedSome : ∀ ref, ((store.logs.retentionChanges streams nowMs).1.logs.get? ref).isSome =
      (store.logs.logs.get? ref).isSome := by
    intro ref
    exact optionRel_isSome (forgot.logs ref)
  have awaits : Awaits store.logs [] := fun ref log found => .inl (settled ref log found)
  obtain ⟨next, applied, retains, nextSettled⟩ :=
    (coherent.forgets forgot).applyRetentions_retains
      (fun change planned => by
        have configured := planRetention_configured planned
        rw [← plannedSome] at configured
        exact configured)
      (awaits.planRetention kept nowMs (retentionWork streams))
  refine ⟨next, applied, ⟨?_, retains.index, ?_, retains.unsafeCommits⟩, nextSettled⟩
  · intro ref
    rw [retains.contents, contents_forgets forgot]
    rfl
  · intro ref
    rw [retains.configured]
    exact plannedSome ref

theorem Settled.after (settled : store.Settled) (coherent : store.Coherent) (call : Call) :
    (store.after call).Settled := by
  cases call with
  | append request => exact settled.appendInner coherent request true
  | appendBatch limits requests => exact settled.appendBatch coherent limits requests
  | commit request io =>
    intro ref log found
    simp only [ReplicaDataStore.after] at found
    rw [(store.commit_records request io).1] at found
    exact settled ref log found
  | enforceRetention streams nowMs =>
    obtain ⟨next, result, _, nextSettled⟩ :=
      coherent.enforceRetention_retains settled streams nowMs
    simp only [ReplicaDataStore.after, result]
    exact nextSettled
  | activatePartition ref reserved opened =>
    simp only [ReplicaDataStore.after]
    split
    · rename_i logs activated
      have sameLogs : logs.logs = store.logs.logs := by
        rcases activatePartition_cases activated with rfl | ⟨log, -, -, -, -, rfl⟩
        · rfl
        · rfl
      intro tested log found
      rw [sameLogs] at found
      exact settled tested log found
    · exact settled

/-- In every reachable store the bookkeeping is settled. -/
theorem Reachable.settled (reached : Reachable store) : store.Settled := by
  induction reached with
  | opened bytes _ settled _ => exact settled
  | step call _ reached ih =>
    exact ih.after reached.coherent call

end ReplicaDataStore

end Morrow
