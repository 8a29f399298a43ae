import Morrow.RetentionSafety

/-!
# Catching up a lagging follower

The requests a leader sends to a follower form one chain: every record names the
one before it, by offset and by checksum. A follower takes such a chain batch by
batch when it starts right after the follower's last record. The chain the leader
builds is right everywhere but at its start. There the offset is the one before
the first missing record, but the checksum is that of the watermark record, which
the new requests name. So a follower that already holds records refuses the first
request, unless the two records happen to have the same checksum; only an empty
follower, whose first request names no predecessor, is brought up to date. The
leader itself refuses the new batch when it holds records behind the watermark.
-/

namespace Morrow

open Replication OrderedMap List

namespace ReplicaDataStore

variable {store next : ReplicaDataStore} {ref : PartitionRef} {log : PartitionLog}
  {limits : BatchLimits}

/-! ### Requests that continue a log -/

/-- The last record a chain of requests leaves behind. -/
def lastOf : StoredEnvelope → List DataAppendRequest → StoredEnvelope
  | last, [] => last
  | _, request :: requests => lastOf request.envelope requests

theorem follows_append {last : StoredEnvelope} {first second : List DataAppendRequest} :
    Follows ref last (first ++ second) ↔
      Follows ref last first ∧ Follows ref (lastOf last first) second := by
  induction first generalizing last with
  | nil => simp [Follows, lastOf]
  | cons request requests ih =>
    simp only [cons_append, Follows, ih, lastOf, and_assoc]

theorem getLast?_envelopes (request : DataAppendRequest) (requests : List DataAppendRequest) :
    (envelopes (request :: requests)).getLast? = some (lastOf request.envelope requests) := by
  induction requests generalizing request with
  | nil => rfl
  | cons later requests ih =>
    rw [lastOf, ← ih later]
    simp [envelopes]

variable {requests : List DataAppendRequest} {request : DataAppendRequest}

variable {batch : List DataAppendRequest} {extended : PartitionLog}

/-- What is left of a chain continues the log extended by its first part. -/
theorem Continues.rest {rest : List DataAppendRequest}
    (continues : Continues ref log (batch ++ rest)) (nonempty : batch ≠ [])
    (kept : extended.Kept ref) (records : extended.records = log.records ++ envelopes batch) :
    Continues ref extended rest := by
  cases batch with
  | nil => exact absurd rfl nonempty
  | cons request requests =>
    obtain ⟨_, _, _, _, _, follows⟩ := continues
    have isLast : extended.records.getLast? = some (lastOf request.envelope requests) := by
      rw [records, getLast?_append, getLast?_envelopes, Option.some_or]
    exact Continues.of_follows kept isLast (follows_append.mp follows).2

theorem Continues.front {rest : List DataAppendRequest}
    (continues : Continues ref log (batch ++ rest)) : Continues ref log batch := by
  cases batch with
  | nil => trivial
  | cons request requests =>
    obtain ⟨owner, here, epoch, predecessor, checksum, follows⟩ := continues
    exact ⟨owner, here, epoch, predecessor, checksum, (follows_append.mp follows).1⟩

/-- The offset after a chain of requests. -/
theorem Continues.next_offset (continues : Continues ref log batch) (nonempty : batch ≠ [])
    (kept : extended.Kept ref) (records : extended.records = log.records ++ envelopes batch) :
    extended.nextOffset = log.nextOffset + batch.length := by
  cases batch with
  | nil => exact absurd rfl nonempty
  | cons request requests =>
    obtain ⟨_, here, _, _, _, follows⟩ := continues
    have isLast : extended.records.getLast? = some (lastOf request.envelope requests) := by
      rw [records, getLast?_append, getLast?_envelopes, Option.some_or]
    have atLast : ∀ (requests : List DataAppendRequest) (last : StoredEnvelope),
        Follows ref last requests →
          (lastOf last requests).offset = last.offset + requests.length := by
      intro requests
      induction requests with
      | nil =>
        intro last _
        rfl
      | cons later requests ih =>
        rintro last ⟨_, offset, _, _, _, rest⟩
        have further := ih later.envelope rest
        simp only [lastOf, length_cons]
        omega
    have offset := atLast requests request.envelope follows
    have tight := kept.tight _ isLast
    simp only [length_cons]
    omega

/-! ### Batches -/

/-- Cutting into batches keeps the requests and their order. -/
theorem batches_flatten (limits : BatchLimits) (pending requests : List DataAppendRequest) :
    (batches limits pending requests).flatten = pending ++ requests := by
  induction requests generalizing pending with
  | nil =>
    simp only [batches]
    split
    · rename_i empty
      simp [empty]
    · simp
  | cons request requests ih =>
    simp only [batches]
    split
    · rw [flatten_cons, ih]
      simp
    · rw [ih]
      simp

/-- A batch being filled is within the limits, or empty. -/
def Fits (limits : BatchLimits) (pending : List DataAppendRequest) : Prop :=
  pending.length ≤ limits.records ∧ requestBytes pending ≤ limits.bytes

/-- Every batch is within the limits when every record alone is. -/
theorem batches_within {pending : List DataAppendRequest} (fits : Fits limits pending)
    (small : ∀ request ∈ requests, dataAppendEnvelopeBytes request.envelope ≤ limits.bytes) :
    ∀ batch ∈ batches limits pending requests, WithinLimits limits batch := by
  induction requests generalizing pending with
  | nil =>
    intro batch member
    simp only [batches] at member
    split at member
    · cases member
    · rename_i nonempty
      rw [mem_singleton.mp member]
      exact ⟨⟨nonempty, fits.1⟩, fits.2⟩
  | cons request requests ih =>
    have alone := small request mem_cons_self
    have rest := (forall_mem_cons.mp small).2
    intro batch member
    simp only [batches] at member
    split at member
    · rename_i full
      rcases mem_cons.mp member with rfl | later
      · exact ⟨⟨full.1, fits.1⟩, fits.2⟩
      · refine ih ⟨?_, ?_⟩ rest batch later
        · exact limits.recordsBounded.1
        · simpa [requestBytes] using alone
    · rename_i open_
      refine ih ?_ rest batch member
      by_cases empty : pending = []
      · subst empty
        exact ⟨limits.recordsBounded.1, by simpa [requestBytes] using alone⟩
      · have space : ¬ (pending.length = limits.records ∨
            limits.bytes < requestBytes pending + dataAppendEnvelopeBytes request.envelope) :=
          fun full => open_ ⟨empty, full⟩
        have length := fits.1
        have grown : requestBytes (pending ++ [request]) =
            requestBytes pending + dataAppendEnvelopeBytes request.envelope := by
          simp [requestBytes]
        constructor
        · rw [length_append, length_singleton]
          omega
        · omega

variable {cut : List (List DataAppendRequest)}

/-- A follower takes a chain of requests cut into batches. The induction is on the
batches; each one leaves a log that the rest continues. -/
theorem Serves.sendBatches_continues (serves : store.Serves ref log)
    (lastResponse : Option DataAppendResponse) (continues : Continues ref log cut.flatten)
    (within : ∀ batch ∈ cut, WithinLimits limits batch)
    (room : log.nextOffset + cut.flatten.length ≤ u64Max)
    (answered : cut = [] → lastResponse.isSome) :
    ∃ next response extended, sendBatches limits store lastResponse cut = (next, .ok response) ∧
      next.Serves ref extended ∧ extended.records = log.records ++ envelopes cut.flatten := by
  induction cut generalizing store log lastResponse with
  | nil =>
    obtain ⟨response, rfl⟩ := Option.isSome_iff_exists.mp (answered rfl)
    exact ⟨store, response, log, rfl, serves, by simp [envelopes]⟩
  | cons batch cut ih =>
    rw [flatten_cons] at continues room
    rw [length_append] at room
    have fits := within batch mem_cons_self
    have front := continues.front
    obtain ⟨middle, responses, extended, appended, middleServes, records, matched⟩ :=
      serves.appendBatch_continues front fits (by omega)
    have nextOffset := front.next_offset fits.1.1 middleServes.kept records
    have lengths := congrArg length matched
    simp only [matchOffsets, envelopes, length_map] at lengths
    have someAnswer : responses.getLast?.isSome := by
      rw [getLast?_isSome, ← length_pos_iff, lengths]
      exact length_pos_iff.mpr fits.1.1
    obtain ⟨next, response, final, sent, nextServes, finalRecords⟩ :=
      ih middleServes _ (continues.rest fits.1.1 middleServes.kept records)
        (forall_mem_cons.mp within).2 (by omega)
        (fun _ => someAnswer)
    refine ⟨next, response, final, ?_, nextServes, ?_⟩
    · simp only [sendBatches, appended, sent]
    · rw [finalRecords, records]
      simp [envelopes]

/-- A follower that refuses the first request refuses the first batch. -/
theorem sendBatches_refused {failure : Failure} (flattened : cut.flatten = request :: requests)
    (within : ∀ batch ∈ cut, WithinLimits limits batch)
    (refused : (store.appendInner request false).2 = .error failure)
    (lastResponse : Option DataAppendResponse) :
    (sendBatches limits store lastResponse cut).2 = .error failure := by
  cases cut with
  | nil => cases flattened
  | cons batch cut =>
    have fits := within batch mem_cons_self
    cases batch with
    | nil => exact absurd rfl fits.1.1
    | cons first batch =>
      obtain rfl := (cons.inj flattened).1
      obtain ⟨after, shape⟩ : ∃ after, store.appendInner first false = (after, .error failure) :=
        ⟨_, Prod.ext rfl refused⟩
      have all : store.appendAll (first :: batch) = (after, .error failure) := by
        simp only [appendAll, shape]
      simp only [sendBatches, appendBatch_failed fits all]

/-! ### The leader's side -/

/-- What a leader has checked when it has built its requests. -/
structure Prepared (leader : ReplicaDataStore) (nodeId : ℕ) (metadata : ClusterMetadata)
    (limits : BatchLimits) (fsync : Bool) (batch : List StoredEnvelope)
    (requests : List DataAppendRequest) (ref : PartitionRef) (assignment : PartitionAssignment) :
    Prop where
  nonempty : batch ≠ []
  length : batch.length ≤ limits.records
  bytes : (batch.map dataAppendEnvelopeBytes).sum ≤ limits.bytes
  owned : ∀ envelope ∈ batch, envelope.ref = ref
  safe : leader.hasCommittedPrefix (durableCommits metadata.partitionCommits leader) = true
  built : requests = newRequests nodeId assignment fsync
    ((leader.commits.get? ref.key).or
      ((durableCommits metadata.partitionCommits leader).get? ref.key))
    (stampFrom assignment (firstOffset ((leader.commits.get? ref.key).or
      ((durableCommits metadata.partitionCommits leader).get? ref.key))) 0 batch)

theorem prepareBatch_ok {leader : ReplicaDataStore} {nodeId : ℕ} {metadata : ClusterMetadata}
    {fsync clusterDurable : Bool} {batch : List StoredEnvelope}
    (prepared : prepareBatch leader nodeId metadata limits fsync clusterDurable batch =
      .ok requests) :
    ∃ ref assignment, metadata.partitionAssignments.get? ref.key = some assignment ∧
      Prepared leader nodeId metadata limits fsync batch requests ref assignment := by
  obtain ⟨_, sized, prepared⟩ := bind_eq_ok.mp prepared
  obtain ⟨_, bytes, prepared⟩ := bind_eq_ok.mp prepared
  cases batch with
  | nil => cases prepared
  | cons first batch =>
    obtain ⟨_, same, prepared⟩ := bind_eq_ok.mp prepared
    obtain ⟨_, safe, prepared⟩ := bind_eq_ok.mp prepared
    cases found : metadata.partitionAssignments.get? first.ref.key with
    | none =>
      simp only [found] at prepared
      cases prepared
    | some assignment =>
      simp only [found] at prepared
      obtain ⟨_, _, prepared⟩ := bind_eq_ok.mp prepared
      obtain ⟨_, _, prepared⟩ := bind_eq_ok.mp prepared
      obtain ⟨_, _, prepared⟩ := bind_eq_ok.mp prepared
      obtain ⟨_, _, returned⟩ := bind_eq_ok.mp prepared
      refine ⟨first.ref, assignment, found, (ensure_eq_ok.mp sized).1, (ensure_eq_ok.mp sized).2,
        ensure_eq_ok.mp bytes, ?_, ensure_eq_ok.mp safe, (Except.ok.inj returned).symm⟩
      intro envelope member
      exact partitionKey_injective _ _ (ensure_eq_ok.mp same envelope member)

section Chains

variable {nodeId : ℕ} {assignment : PartitionAssignment} {fsync : Bool}
  {previous : Option PartitionCommitMetadata} {batch : List StoredEnvelope}

variable {last : StoredEnvelope}

theorem laterRequests_follows {start index : ℕ} (here : last.offset + 1 = start + index)
    (owned : ∀ envelope ∈ batch, envelope.ref = ref)
    (room : start + index + batch.length ≤ u64Max) :
    Follows ref last (laterRequests nodeId assignment fsync previous last.checksum
      (stampFrom assignment start index batch)) := by
  induction batch generalizing last index with
  | nil => trivial
  | cons envelope batch ih =>
    simp only [length_cons] at room
    have offset : saturatingAdd start index = last.offset + 1 := by
      rw [saturatingAdd]
      omega
    refine ⟨owned envelope mem_cons_self, offset, le_rfl, ?_, rfl, ?_⟩
    · change some (saturatingAdd start index - 1) = some last.offset
      rw [offset, Nat.add_sub_cancel]
    · apply ih
      · change saturatingAdd start index + 1 = start + (index + 1)
        omega
      · exact (forall_mem_cons.mp owned).2
      · omega

variable {watermark : StoredEnvelope}

/-- The new requests follow the committed watermark. -/
theorem newRequests_follows {commit : PartitionCommitMetadata}
    (offset : commit.highWatermark = watermark.offset)
    (checksum : commit.checksum = watermark.checksum)
    (owned : ∀ envelope ∈ batch, envelope.ref = ref)
    (room : watermark.offset + batch.length < u64Max) :
    Follows ref watermark (newRequests nodeId assignment fsync (some commit)
      (stampFrom assignment (firstOffset (some commit)) 0 batch)) := by
  cases batch with
  | nil => trivial
  | cons envelope batch =>
    simp only [length_cons] at room
    have start : firstOffset (some commit) = watermark.offset + 1 := by
      rw [firstOffset, Option.elim_some, offset, saturatingSucc_of_lt (by omega)]
    have stamped : saturatingAdd (firstOffset (some commit)) 0 = watermark.offset + 1 := by
      rw [saturatingAdd]
      omega
    refine ⟨owned envelope mem_cons_self, stamped, le_rfl, by simp [leaderRequest, offset],
      by simp [leaderRequest, checksum], ?_⟩
    apply laterRequests_follows
    · change saturatingAdd (firstOffset (some commit)) 0 + 1 = firstOffset (some commit) + (0 + 1)
      omega
    · exact (forall_mem_cons.mp owned).2
    · omega

variable (nodeId assignment fsync previous) in
theorem envelopes_laterRequests (checksum : ℕ) (records : List StoredEnvelope) :
    envelopes (laterRequests nodeId assignment fsync previous checksum records) = records := by
  induction records generalizing checksum with
  | nil => rfl
  | cons record records ih =>
    simp only [laterRequests, envelopes, map_cons] at ih ⊢
    rw [ih]
    rfl

variable (nodeId assignment fsync previous) in
theorem envelopes_newRequests (records : List StoredEnvelope) :
    envelopes (newRequests nodeId assignment fsync previous records) = records := by
  cases records with
  | nil => rfl
  | cons record records =>
    have later := envelopes_laterRequests nodeId assignment fsync previous record.checksum records
    simp only [newRequests, envelopes, map_cons] at later ⊢
    rw [later]
    rfl

variable (assignment) in
/-- Numbering records does not change what they count towards the byte bound. -/
theorem bytes_stampFrom (start index : ℕ) (batch : List StoredEnvelope) :
    (stampFrom assignment start index batch).map dataAppendEnvelopeBytes =
      batch.map dataAppendEnvelopeBytes := by
  induction batch generalizing index with
  | nil => rfl
  | cons envelope batch ih =>
    simp only [stampFrom, map_cons, ih]
    rfl

theorem envelopes_catchUpRequests (first : DataAppendRequest) (checksum : Option ℕ)
    (records : List StoredEnvelope) :
    envelopes (catchUpRequests first checksum records) = records := by
  induction records generalizing checksum with
  | nil => rfl
  | cons record records ih =>
    simp only [catchUpRequests, envelopes, map_cons] at ih ⊢
    rw [ih]
    rfl

variable {first : DataAppendRequest} {records : List StoredEnvelope}

/-- Consecutive records are sent as a chain when the first one is sent with the
checksum of the record before it. -/
theorem catchUpRequests_follows
    (consecutive : (last :: records).IsChain (fun first second => second.offset = first.offset + 1))
    (owned : ∀ record ∈ records, record.ref = ref)
    (epochs : ∀ record ∈ records, record.leaderEpoch ≤ first.leaderEpoch) :
    Follows ref last (catchUpRequests first (some last.checksum) records) := by
  induction records generalizing last with
  | nil => trivial
  | cons record records ih =>
    obtain ⟨next, rest⟩ := isChain_cons_cons.mp consecutive
    refine ⟨owned record mem_cons_self, next, epochs record mem_cons_self, ?_, rfl, ?_⟩
    · simp [catchUpRequest, checkedPred, next]
    · exact ih rest
        (forall_mem_cons.mp owned).2
        (forall_mem_cons.mp epochs).2

theorem lastOf_catchUpRequests {checksum : Option ℕ}
    (isLast : (last :: records).getLast? = some watermark) :
    lastOf last (catchUpRequests first checksum records) = watermark := by
  induction records generalizing last checksum with
  | nil => exact Option.some.inj isLast
  | cons record records ih =>
    exact ih isLast

end Chains

/-! ### Catching up -/

/-- The follower and the leader hold the same records up to the last new one. -/
def CatchesUp (leader follower : ReplicaDataStore) (metadata : ClusterMetadata)
    (limits : BatchLimits) (ref : PartitionRef) (requests : List DataAppendRequest) : Prop :=
  ∃ next response leaderNext responses,
    replicateTo leader follower metadata limits requests = (next, .ok response) ∧
      leader.appendBatch limits requests = (leaderNext, .ok responses) ∧
      next.contents ref = leaderNext.contents ref

/-- The leader's log of a partition is committed up to the watermark; the follower's
log is a strict prefix of the committed part. Behind the watermark the leader may hold
records that are not committed. -/
structure Lagging (leader follower : ReplicaDataStore) (commits : PartitionCommits)
    (ref : PartitionRef) (log : PartitionLog) (missing uncommitted : List StoredEnvelope)
    (watermark : StoredEnvelope) : Prop where
  leaderReached : Reachable leader
  followerReached : Reachable follower
  leaderIndexed : leader.Indexed ref
  followerIndexed : follower.Indexed ref
  found : follower.logs.find ref = some log
  held : leader.contents ref = log.records ++ missing ++ uncommitted
  last : missing.getLast? = some watermark
  consecutive : (log.records ++ missing).IsChain
    (fun first second => second.offset = first.offset + 1)
  committed : ∃ commit, commits.get? ref.key = some commit ∧ commit.highWatermark = watermark.offset
  agreed : ∀ commit, leader.commits.get? ref.key = some commit → commits.get? ref.key = some commit

namespace Lagging

variable {leader follower : ReplicaDataStore} {commits : PartitionCommits}
  {missing uncommitted : List StoredEnvelope} {watermark : StoredEnvelope}

section

variable (lagging : Lagging leader follower commits ref log missing uncommitted watermark)

include lagging

theorem stored : watermark ∈ leader.contents ref := by
  rw [lagging.held]
  exact mem_append_left _ (mem_append_right _ (mem_of_getLast? lagging.last))

theorem leaderServes : ∃ leaderLog, leader.Serves ref leaderLog :=
  Serves.of_contents lagging.leaderReached.coherent lagging.leaderIndexed lagging.stored

/-- What is not committed lies behind the watermark. -/
theorem behind {record : StoredEnvelope} (member : record ∈ uncommitted) :
    watermark.offset < record.offset := by
  have ordered := leader.contents_increasing ref
  rw [lagging.held, pairwise_append] at ordered
  exact ordered.2.2 watermark (mem_append_right _ (mem_of_getLast? lagging.last)) record member

theorem serves : follower.Serves ref log :=
  ⟨lagging.followerReached.coherent, lagging.followerIndexed, lagging.found⟩

theorem kept {record : StoredEnvelope} (member : record ∈ missing) :
    record.ref = ref ∧ record.offset < u64Max ∧ record.offset ≤ watermark.offset := by
  obtain ⟨leaderLog, serves⟩ := lagging.leaderServes
  have ordered := leader.contents_increasing ref
  have stored : record ∈ leader.contents ref := by
    rw [lagging.held]
    exact mem_append_left _ (mem_append_right _ member)
  rw [lagging.held, append_assoc, pairwise_append, pairwise_append] at ordered
  rw [serves.contents] at stored
  exact ⟨serves.kept.owned record stored, serves.kept.bounded record stored,
    PartitionLog.offset_le_last ordered.2.1.1 lagging.last member⟩

/-- The catch-up records are exactly the missing ones. -/
theorem catchUpRecords :
    leader.catchUpRecords commits ref (follower.progress ref) = .ok missing := by
  obtain ⟨commit, known, atWatermark⟩ := lagging.committed
  have ordered := leader.contents_increasing ref
  rw [lagging.held, pairwise_append, pairwise_append] at ordered
  replace ordered := ordered.1
  have entries := lagging.leaderIndexed
  generalize isStart : (follower.progress ref).elim 0 saturatingSucc = start
  -- The follower's progress separates what it holds from what it lacks.
  obtain ⟨below, above⟩ : (∀ record ∈ log.records, record.offset < start) ∧
      ∀ record ∈ missing, start ≤ record.offset := by
    rw [← isStart, lagging.serves.progress]
    cases isLast : log.records.getLast? with
    | none =>
      rw [getLast?_eq_none_iff.mp isLast]
      simp
    | some last =>
      have member := mem_of_getLast? isLast
      have room := lagging.serves.kept.bounded last member
      simp only [Option.map_some, Option.elim_some, saturatingSucc_of_lt room]
      refine ⟨fun record among => ?_, (ordered.2.2 last member)⟩
      have below := PartitionLog.offset_le_last log.increasing isLast among
      omega
  have reaches : ¬ commit.highWatermark < start := by
    have first := above watermark (mem_of_getLast? lagging.last)
    omega
  have listed : ((leader.index ref).range start commit.highWatermark).map Prod.snd =
      missing.map (·.intoResidentMetadata) := by
    let wanted := fun record : StoredEnvelope =>
      decide (start ≤ record.offset ∧ record.offset ≤ commit.highWatermark)
    have heldOut : log.records.filter wanted = [] := by
      rw [filter_eq_nil_iff]
      intro record member accepted
      have low := below record member
      have reached := (of_decide_eq_true accepted).1
      omega
    have missingIn : missing.filter wanted = missing := by
      rw [filter_eq_self]
      intro record member
      have upTo := (lagging.kept member).2.2
      exact decide_eq_true ⟨above record member, by omega⟩
    have behindOut : uncommitted.filter wanted = [] := by
      rw [filter_eq_nil_iff]
      intro record member accepted
      have after := lagging.behind member
      have reached := (of_decide_eq_true accepted).2
      omega
    rw [OrderedMap.range, entries, lagging.held, filter_map, map_map, filter_append, filter_append]
    change map _ (log.records.filter wanted ++ missing.filter wanted ++
      uncommitted.filter wanted) = _
    rw [heldOut, missingIn, behindOut, append_nil]
    rfl
  simp only [ReplicaDataStore.catchUpRecords, known, isStart, if_neg reaches, listed]
  apply loadRecords_ok
  intro record member
  rw [lagging.held]
  exact mem_append_left _ (mem_append_right _ member)

/-- A leader with records behind the watermark refuses a batch that follows it. -/
theorem leader_refuses {requests : List DataAppendRequest}
    (follows : Follows ref watermark requests) (within : WithinLimits limits requests)
    (suffix : uncommitted ≠ []) :
    ∃ failure, (leader.appendBatch limits requests).2 = .error failure := by
  obtain ⟨leaderLog, serves⟩ := lagging.leaderServes
  obtain ⟨first, rest, rfl⟩ := exists_cons_of_ne_nil within.1.1
  obtain ⟨owner, _, epoch, named, _, _⟩ := follows
  obtain ⟨last, isLast⟩ := Option.isSome_iff_exists.mp (getLast?_isSome.mpr suffix)
  have elsewhere : leader.progress ref ≠ some watermark.offset := by
    rw [serves.progress, ← serves.contents, lagging.held, getLast?_append, isLast]
    intro same
    have after := lagging.behind (mem_of_getLast? isLast)
    have equal : last.offset = watermark.offset := Option.some.inj same
    omega
  obtain ⟨message, refused⟩ := appendInner_refused owner epoch named elsewhere false
  have all : leader.appendAll (first :: rest) = (leader, .error (.error message)) := by
    simp only [appendAll, refused]
  exact ⟨_, by rw [appendBatch_failed within all]⟩

end

end Lagging

/-- The follower holds nothing yet and the leader's log goes back to offset zero. -/
def StartsFromZero (log : PartitionLog) (missing : List StoredEnvelope) : Prop :=
  log.records = [] ∧ log.nextOffset = 0 ∧ ∀ record ∈ missing.head?, record.offset = 0

/-- The follower's last record has the checksum of the watermark record. -/
def EndsLike (log : PartitionLog) (watermark : StoredEnvelope) : Prop :=
  ∃ last, log.records.getLast? = some last ∧ last.checksum = watermark.checksum

section CatchUp

variable {leader follower : ReplicaDataStore} {commits : PartitionCommits}
  {missing uncommitted : List StoredEnvelope} {watermark : StoredEnvelope}
  {first : DataAppendRequest} {requests : List DataAppendRequest}

/-- The chain of catch-up requests and new requests continues the follower's log
when the follower is empty or ends like the watermark. -/
theorem Lagging.continues
    (lagging : Lagging leader follower commits ref log missing uncommitted watermark)
    (epochs : ∀ record ∈ missing, record.leaderEpoch ≤ first.leaderEpoch)
    (follows : Follows ref watermark requests)
    (start : StartsFromZero log missing ∨ EndsLike log watermark) :
    Continues ref log (catchUpRequests first (some watermark.checksum) missing ++ requests) := by
  have owned : ∀ record ∈ missing, record.ref = ref := fun record member =>
    (lagging.kept member).1
  have consecutive := lagging.consecutive
  rcases start with ⟨empty, next, zero⟩ | ⟨last, isLast, same⟩
  · -- The first record has no predecessor; the others follow it.
    cases missing with
    | nil => cases lagging.last
    | cons record missing =>
      rw [empty] at consecutive
      have offset := zero record rfl
      refine ⟨owned record mem_cons_self, by rw [next]; exact offset,
        epochs record mem_cons_self, ?_, ?_, ?_⟩
      · rw [empty]
        simp [catchUpRequest, checkedPred, offset]
      · rw [empty]
        rintro last ⟨⟩
      · refine follows_append.mpr ⟨catchUpRequests_follows consecutive
          (forall_mem_cons.mp owned).2
          (forall_mem_cons.mp epochs).2, ?_⟩
        change Follows ref (lastOf record _) requests
        rw [lastOf_catchUpRequests lagging.last]
        exact follows
  · obtain ⟨front, shape⟩ := getLast?_eq_some_iff.mp isLast
    have chain : (last :: missing).IsChain
        (fun first second => second.offset = first.offset + 1) := by
      rw [shape, append_assoc] at consecutive
      exact consecutive.right_of_append
    apply Continues.of_follows lagging.serves.kept isLast
    rw [← same]
    refine follows_append.mpr ⟨catchUpRequests_follows chain owned epochs, ?_⟩
    have atLast : (last :: missing).getLast? = some watermark := by
      rw [getLast?_cons, lagging.last, Option.getD_some]
    rw [lastOf_catchUpRequests atLast]
    exact follows

/-- A log refuses a record below its next offset that it does not hold. -/
theorem Serves.appendInner_forgotten (serves : store.Serves ref log) {request : DataAppendRequest}
    (owner : request.envelope.ref = ref) (empty : log.records = [])
    (below : request.envelope.offset < log.nextOffset)
    (epoch : request.envelope.leaderEpoch ≤ request.leaderEpoch)
    (follows : store.checkPredecessor request = .ok ()) (flush : Bool) :
    ∃ failure, (store.appendInner request flush).2 = .error failure := by
  subst owner
  have absent : (store.index request.envelope.ref).get? request.envelope.offset = none := by
    apply Option.eq_none_iff_forall_ne_some.mpr
    intro entry listed
    obtain ⟨_, record, stored, _⟩ := serves.coherent.index_get? listed
    rw [serves.contents, empty] at stored
    cases stored
  have noTruncation : store.mustTruncate request = .ok false := by
    simp only [mustTruncate, absent]
  cases appended : store.logs.appendCommitted request.envelope with
  | error failure =>
    have refused : store.storeRecord request = .error failure := by
      simp only [storeRecord, absent, appended, error_bind]
    simp only [appendInner, ensure_of epoch, ok_bind, follows, noTruncation, Bool.false_eq_true,
      if_false, refused]
    exact ⟨failure, rfl⟩
  | ok logs =>
    obtain ⟨served, extended, found, grown, _, _⟩ := PartitionLogSet.appendCommitted_cases appended
    rw [serves.found] at found
    obtain rfl := Option.some.inj found
    rcases PartitionLog.appendCommitted_cases grown with ⟨_, _, same⟩ | ⟨here, _, _⟩
    · simp [PartitionLog.readOffset, empty] at same
    · omega

variable {record : StoredEnvelope} {later : List StoredEnvelope}

/-- Otherwise the follower refuses the first catch-up request. -/
theorem Lagging.refuses
    (lagging : Lagging leader follower commits ref log missing uncommitted watermark)
    (shape : missing = record :: later)
    (epochs : ∀ record ∈ missing, record.leaderEpoch ≤ first.leaderEpoch)
    (start : ¬ (StartsFromZero log missing ∨ EndsLike log watermark)) :
    ∃ failure, (follower.appendInner
      (catchUpRequest first (some watermark.checksum) record) false).2 = .error failure := by
  subst shape
  have owner : (catchUpRequest first (some watermark.checksum) record).envelope.ref = ref :=
    (lagging.kept mem_cons_self).1
  have epoch := epochs record mem_cons_self
  have serves := lagging.serves
  cases isLast : log.records.getLast? with
  | none =>
    have empty := getLast?_eq_none_iff.mp isLast
    by_cases zero : record.offset = 0
    · -- The record is older than the follower's next offset and was never stored.
      have beyond : record.offset < log.nextOffset := by
        by_contra atZero
        exact start (.inl ⟨empty, by omega, by simpa using zero⟩)
      have noPredecessor : follower.checkPredecessor
          (catchUpRequest first (some watermark.checksum) record) = .ok () := by
        simp [checkPredecessor, catchUpRequest, checkedPred, zero]
      exact serves.appendInner_forgotten owner empty beyond epoch noPredecessor false
    · have named : (catchUpRequest first (some watermark.checksum) record).predecessorOffset =
          some (record.offset - 1) := by
        simp [catchUpRequest, checkedPred, zero]
      have elsewhere : follower.progress ref ≠ some (record.offset - 1) := by
        rw [serves.progress, isLast]
        rintro ⟨⟩
      obtain ⟨message, refused⟩ := appendInner_refused owner epoch named elsewhere false
      exact ⟨_, by rw [refused]⟩
  | some last =>
    -- The offset is right; the checksum is that of the watermark.
    have differ : ¬ last.checksum = watermark.checksum :=
      fun same => start (.inr ⟨last, isLast, same⟩)
    obtain ⟨front, ending⟩ := getLast?_eq_some_iff.mp isLast
    have next : record.offset = last.offset + 1 := by
      have consecutive := lagging.consecutive
      rw [ending, append_assoc] at consecutive
      exact (isChain_cons_cons.mp consecutive.right_of_append).1
    have progress : follower.progress ref = some last.offset := by
      rw [serves.progress, isLast, Option.map_some]
    have loaded : follower.logs.loadEnvelope ref last.offset = some last :=
      loadEnvelope_eq_some.mpr ⟨serves.contents ▸ mem_of_getLast? isLast, rfl⟩
    have named : (catchUpRequest first (some watermark.checksum) record).predecessorOffset =
        some last.offset := by
      simp [catchUpRequest, checkedPred, next]
    have refused : follower.checkPredecessor
        (catchUpRequest first (some watermark.checksum) record) =
        .error (.error "partition predecessor checksum mismatch") := by
      simp only [checkPredecessor, named, owner, progress, loaded]
      exact ensure_of_not differ
    exact ⟨_, by rw [appendInner_of_checkPredecessor epoch refused]⟩

/-- Consecutive records span the offsets from the first to the last. -/
theorem offset_of_consecutive
    (consecutive : (record :: later).IsChain (fun first second => second.offset = first.offset + 1))
    (isLast : (record :: later).getLast? = some watermark) :
    watermark.offset = record.offset + later.length := by
  induction later generalizing record with
  | nil =>
    obtain rfl := Option.some.inj isLast
    rfl
  | cons next later ih =>
    obtain ⟨step, rest⟩ := isChain_cons_cons.mp consecutive
    have further := ih rest isLast
    simp only [length_cons]
    omega

/-- The new requests of a prepared batch follow the watermark, are within the
limits, and lead with the watermark's checksum and the leader's epoch. -/
theorem Prepared.chain {nodeId : ℕ} {metadata : ClusterMetadata}
    {assignment : PartitionAssignment} {fsync : Bool} {batch : List StoredEnvelope}
    (prepared : Prepared leader nodeId metadata limits fsync batch requests ref assignment)
    (lagging : Lagging leader follower (durableCommits metadata.partitionCommits leader) ref log
      missing uncommitted watermark)
    (room : watermark.offset + batch.length < u64Max) :
    Follows ref watermark requests ∧ WithinLimits limits requests ∧
      requests.length = batch.length ∧
      ∀ first ∈ requests.head?, first.leaderEpoch = assignment.leaderEpoch := by
  obtain ⟨commit, known, atWatermark⟩ := lagging.committed
  have previous : (leader.commits.get? ref.key).or
      ((durableCommits metadata.partitionCommits leader).get? ref.key) = some commit := by
    cases own : leader.commits.get? ref.key with
    | none => rw [Option.none_or, known]
    | some current => rw [Option.some_or, ← lagging.agreed current own, known]
  have checksum : commit.checksum = watermark.checksum := by
    obtain ⟨own, parsed, stored⟩ := (hasCommittedPrefix_iff.mp prepared.safe).2 _ _ known
    rw [PartitionRef.key, parsePartitionKey_partitionKey] at parsed
    obtain rfl := Option.some.inj parsed
    obtain ⟨record, member, atOffset, same⟩ :=
      lagging.leaderReached.coherent.record_of_storedChecksum stored
    rw [← same, contents_unique member lagging.stored (atOffset.trans atWatermark)]
  have built := prepared.built
  rw [previous] at built
  have sizes : requests.map (fun request => dataAppendEnvelopeBytes request.envelope) =
      batch.map dataAppendEnvelopeBytes := by
    have sent := envelopes_newRequests nodeId assignment fsync (some commit)
      (stampFrom assignment (firstOffset (some commit)) 0 batch)
    rw [← built] at sent
    rw [← bytes_stampFrom assignment (firstOffset (some commit)) 0, ← sent, envelopes, map_map]
    rfl
  have count : requests.length = batch.length := by
    simpa using congrArg List.length sizes
  refine ⟨?_, ⟨⟨?_, count ▸ prepared.length⟩, sizes ▸ prepared.bytes⟩, count, ?_⟩
  · rw [built]
    exact newRequests_follows atWatermark checksum prepared.owned room
  · rw [← length_pos_iff, count]
    exact length_pos_iff.mpr prepared.nonempty
  · intro first isFirst
    obtain ⟨envelope, rest, rfl⟩ := exists_cons_of_ne_nil prepared.nonempty
    rw [built] at isFirst
    obtain rfl := Option.some.inj isFirst
    rfl

/-- A lagging follower is brought up to date exactly when the leader's log ends at the
watermark and either the follower is empty and the leader's log goes back to offset
zero, or the follower's last record has the checksum of the watermark record. -/
theorem catchesUp_iff {nodeId : ℕ} {metadata : ClusterMetadata} {assignment : PartitionAssignment}
    {fsync clusterDurable : Bool} {batch : List StoredEnvelope}
    (prepared : prepareBatch leader nodeId metadata limits fsync clusterDurable batch =
      .ok requests)
    (owned : ∀ envelope ∈ batch, envelope.ref = ref)
    (assigned : metadata.partitionAssignments.get? ref.key = some assignment)
    (lagging : Lagging leader follower (durableCommits metadata.partitionCommits leader) ref log
      missing uncommitted watermark)
    (epochs : ∀ record ∈ missing, record.leaderEpoch ≤ assignment.leaderEpoch)
    (small : ∀ record ∈ missing, dataAppendEnvelopeBytes record ≤ limits.bytes)
    (room : watermark.offset + batch.length < u64Max) :
    CatchesUp leader follower metadata limits ref requests ↔
      uncommitted = [] ∧ (StartsFromZero log missing ∨ EndsLike log watermark) := by
  obtain ⟨batchRef, batchAssignment, found, prepared⟩ := prepareBatch_ok prepared
  obtain ⟨envelope, inBatch⟩ := exists_mem_of_ne_nil batch prepared.nonempty
  obtain rfl : batchRef = ref :=
    (prepared.owned envelope inBatch).symm.trans (owned envelope inBatch)
  rw [assigned] at found
  obtain rfl := Option.some.inj found
  obtain ⟨follows, within, count, firstEpoch⟩ := prepared.chain lagging room
  obtain ⟨first, rest, rfl⟩ := exists_cons_of_ne_nil within.1.1
  obtain ⟨record, later, rfl⟩ :=
    exists_cons_of_ne_nil (ne_nil_of_mem (mem_of_getLast? lagging.last))
  rw [← firstEpoch first rfl] at epochs
  have sent := batches_flatten limits []
    (catchUpRequests first (some watermark.checksum) (record :: later) ++ first :: rest)
  have allWithin : ∀ cut ∈ batches limits []
      (catchUpRequests first (some watermark.checksum) (record :: later) ++ first :: rest),
      WithinLimits limits cut := by
    refine batches_within ⟨Nat.zero_le _, Nat.zero_le _⟩ ?_
    intro request member
    rcases mem_append.mp member with caught | new
    · have listed : request.envelope ∈
          envelopes (catchUpRequests first (some watermark.checksum) (record :: later)) :=
        mem_map_of_mem caught
      rw [envelopes_catchUpRequests] at listed
      exact small request.envelope listed
    · exact (single_le_sum (by simp) _ (mem_map_of_mem new)).trans within.2
  have replicates : replicateTo leader follower metadata limits (first :: rest) =
      sendBatches limits follower none (batches limits []
        (catchUpRequests first (some watermark.checksum) (record :: later) ++ first :: rest)) := by
    simp only [replicateTo, follows.1, lagging.catchUpRecords, follows.2.2.2.2.1]
  constructor
  · rintro ⟨next, response, _, _, result, leaderAppends, _⟩
    refine ⟨?_, ?_⟩
    · by_contra suffix
      obtain ⟨failure, refused⟩ := lagging.leader_refuses follows within suffix
      rw [leaderAppends] at refused
      cases refused
    by_contra start
    obtain ⟨failure, refused⟩ := lagging.refuses rfl epochs start
    have failed := sendBatches_refused sent allWithin refused none
    rw [← replicates, result] at failed
    cases failed
  · rintro ⟨rfl, start⟩
    obtain ⟨leaderLog, leaderServes⟩ := lagging.leaderServes
    have held := lagging.held
    rw [append_nil] at held
    have isLast : leaderLog.records.getLast? = some watermark := by
      rw [← leaderServes.contents, held, getLast?_append, lagging.last, Option.some_or]
    have tight := leaderServes.kept.tight watermark isLast
    obtain ⟨leaderNext, responses, _, leaderAppends, leaderNextServes, leaderRecords, _⟩ :=
      leaderServes.appendBatch_continues (.of_follows leaderServes.kept isLast follows) within
        (by omega)
    have continues := lagging.continues epochs follows start
    have begins := continues.2.1
    have span := offset_of_consecutive lagging.consecutive.right_of_append lagging.last
    have caught := congrArg length
      (envelopes_catchUpRequests first (some watermark.checksum) (record :: later))
    simp only [envelopes, length_map, length_cons] at caught
    have length := congrArg length sent
    simp only [nil_append, length_append] at length
    change record.offset = log.nextOffset at begins
    rw [nil_append] at sent
    rw [← sent] at continues
    obtain ⟨next, response, extended, result, nextServes, records⟩ :=
      lagging.serves.sendBatches_continues none continues allWithin (by omega) (by
        intro empty
        rw [empty] at sent
        cases sent)
    refine ⟨next, response, leaderNext, responses, replicates.trans result, leaderAppends, ?_⟩
    rw [nextServes.contents, leaderNextServes.contents, records, leaderRecords,
      ← leaderServes.contents, held, sent]
    simp only [envelopes, map_append, append_assoc]
    congr 2
    exact envelopes_catchUpRequests first _ (record :: later)

end CatchUp

/-! ### A leader with two followers

The leader holds and has committed one or two records; one follower is empty, the
other one holds the first record.
-/

theorem nil_increasing : ([] : List StoredEnvelope).Pairwise
    (fun first second => first.offset < second.offset) := .nil

theorem nil_exceeded : ∀ record ∈ ([] : List StoredEnvelope), saturatingSucc record.offset ≤ 0 :=
  nofun

open Sample (record singleRecordLog singleRecordLog_kept)

def emptyLog : PartitionLog := Sample.log [] 0 nil_increasing nil_exceeded

theorem emptyLog_kept : emptyLog.Kept Sample.ref := by
  refine ⟨rfl, ?_, ?_, ?_⟩
  · rintro record ⟨⟩
  · rintro record ⟨⟩
  · rintro last ⟨⟩

theorem one_word : 1 < 2 ^ 64 := by decide

/-- Node one leads the partition, committed up to the given record. -/
def committedUpTo (watermark : StoredEnvelope) : ClusterMetadata where
  partitionCommits := (∅ : PartitionCommits).insert Sample.ref.key
    ⟨1, watermark.offset, watermark.checksum, 1, 1⟩
  partitionAssignments := (∅ : OrderedMap String PartitionAssignment).insert Sample.ref.key
    ⟨1, 1, 1, [1, 2], [1, 2], one_word⟩
  partitionLocalCommit := true

/-- The requests node one builds for one more record. -/
def requestsFor (leader : ReplicaDataStore) (watermark : StoredEnvelope) : List DataAppendRequest :=
  match prepareBatch leader 1 (committedUpTo watermark) defaultLimits true false
      [record 0 9] with
  | .ok requests => requests
  | .error _ => []

/-- A leader without commits of its own and a follower behind it. -/
theorem lagging_replicas {leaderLog log : PartitionLog} {missing : List StoredEnvelope}
    {watermark : StoredEnvelope} (leaderKept : leaderLog.Kept Sample.ref)
    (leaderSettled : leaderLog.Settled) (kept : log.Kept Sample.ref) (settled : log.Settled)
    (held : leaderLog.records = log.records ++ missing) (last : missing.getLast? = some watermark)
    (consecutive : leaderLog.records.IsChain
      (fun first second => second.offset = first.offset + 1)) :
    Lagging (replicaOf leaderLog) (replicaOf log)
      (durableCommits (committedUpTo watermark).partitionCommits (replicaOf leaderLog)) Sample.ref
      log missing [] watermark := by
  have merged : durableCommits (committedUpTo watermark).partitionCommits (replicaOf leaderLog) =
      (committedUpTo watermark).partitionCommits := rfl
  refine ⟨replicaOf_reachable leaderKept leaderSettled, replicaOf_reachable kept settled,
    replicaOf_indexed leaderKept, replicaOf_indexed kept, ?_, ?_, last, ?_, ?_, ?_⟩
  · rw [replicaOf, open_find, Sample.logs, get?_insert_self]
  · rw [replicaOf_contents, held, append_nil]
  · rwa [held] at consecutive
  · rw [merged]
    exact ⟨_, get?_insert_self _ _ _, rfl⟩
  · rintro commit ⟨⟩

/-- The empty follower is brought up to date: it is sent both committed records and then
the new one. -/
theorem catchesUp_empty :
    prepareBatch (replicaOf twoRecordLog) 1 (committedUpTo (record 1 8)) defaultLimits
        true false [record 0 9] =
      .ok (requestsFor (replicaOf twoRecordLog) (record 1 8)) ∧
    CatchesUp (replicaOf twoRecordLog) (replicaOf emptyLog) (committedUpTo (record 1 8))
      defaultLimits Sample.ref (requestsFor (replicaOf twoRecordLog) (record 1 8)) := by
  have prepared : prepareBatch (replicaOf twoRecordLog) 1 (committedUpTo (record 1 8))
      defaultLimits true false [record 0 9] =
      .ok (requestsFor (replicaOf twoRecordLog) (record 1 8)) := by
    decide +kernel
  have lagging := lagging_replicas twoRecordLog_kept (Sample.log_settled _ _ _ _)
    emptyLog_kept (Sample.log_settled _ _ _ _)
    (show twoRecordLog.records = emptyLog.records ++ [record 0 7, record 1 8] from
      rfl) rfl (by simp [twoRecordLog, Sample.log]; rfl)
  refine ⟨prepared, (catchesUp_iff prepared ?_ (get?_insert_self _ _ _) lagging ?_ ?_
    (by decide)).mpr ⟨rfl, .inl ⟨rfl, rfl, ?_⟩⟩⟩
  · intro envelope member
    rw [mem_singleton.mp member]
    rfl
  · simp only [forall_mem_cons]
    exact ⟨le_rfl, le_rfl, forall_mem_nil _⟩
  · decide +kernel
  · rintro record ⟨⟩
    rfl

/-- The follower that holds the first of two records refuses the second. -/
theorem lagging_follower_not_caught_up :
    Lagging (replicaOf twoRecordLog) (replicaOf singleRecordLog)
        (durableCommits (committedUpTo (record 1 8)).partitionCommits
          (replicaOf twoRecordLog)) Sample.ref singleRecordLog [record 1 8] []
        (record 1 8) ∧
      prepareBatch (replicaOf twoRecordLog) 1 (committedUpTo (record 1 8))
          defaultLimits true false [record 0 9] =
        .ok (requestsFor (replicaOf twoRecordLog) (record 1 8)) ∧
      (replicateTo (replicaOf twoRecordLog) (replicaOf singleRecordLog)
          (committedUpTo (record 1 8)) defaultLimits
          (requestsFor (replicaOf twoRecordLog) (record 1 8))).2 =
        .error (.error "partition predecessor checksum mismatch") ∧
      ¬ CatchesUp (replicaOf twoRecordLog) (replicaOf singleRecordLog)
          (committedUpTo (record 1 8)) defaultLimits Sample.ref
          (requestsFor (replicaOf twoRecordLog) (record 1 8)) := by
  have refused : (replicateTo (replicaOf twoRecordLog) (replicaOf singleRecordLog)
      (committedUpTo (record 1 8)) defaultLimits
      (requestsFor (replicaOf twoRecordLog) (record 1 8))).2 =
      .error (.error "partition predecessor checksum mismatch") := by decide +kernel
  refine ⟨lagging_replicas twoRecordLog_kept (Sample.log_settled _ _ _ _)
    singleRecordLog_kept (Sample.log_settled _ _ _ _)
    (show twoRecordLog.records = singleRecordLog.records ++ [record 1 8] from rfl)
    rfl (by simp [twoRecordLog, Sample.log]; rfl), by decide +kernel, refused, ?_⟩
  rintro ⟨next, response, _, _, result, _, _⟩
  rw [result] at refused
  cases refused

end ReplicaDataStore

end Morrow
