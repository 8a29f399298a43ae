import Morrow.ReplicaRuns

/-!
# Appending to a follower

A leader sends its next records with the offset and checksum of the record each
one follows. A follower whose last record is that predecessor stores the whole
batch. It refuses everything else that names a predecessor: a follower that kept
records beyond the watermark refuses the batch that should replace them, and a
follower that has stored the batch refuses the same batch when it is sent again.
So reconciliation of an uncommitted suffix and idempotent retransmission, which
the truncation and the comparison of stored records are there for, never happen
for requests that name their predecessor.

What an append does change, it changes beyond the watermark the request names.
-/

namespace Morrow.ReplicaDataStore

open List Option

variable {store next : ReplicaDataStore} {ref : PartitionRef} {log : PartitionLog}

/-- A coherent store that serves a partition from a fully indexed log. -/
structure Serves (store : ReplicaDataStore) (ref : PartitionRef) (log : PartitionLog) : Prop where
  coherent : store.Coherent
  indexed : store.Indexed ref
  found : store.logs.find ref = some log

theorem Serves.contents (serves : store.Serves ref log) : store.contents ref = log.records :=
  contents_of_find serves.found

theorem Serves.kept (serves : store.Serves ref log) : log.Kept ref :=
  serves.coherent.kept ref log serves.found

/-- The progress a follower reports is the offset of its last record. -/
theorem Serves.progress (serves : store.Serves ref log) :
    store.progress ref = log.records.getLast?.map (·.offset) := by
  rw [serves.indexed.progress, serves.contents]

/-- Nothing is indexed at the next offset. -/
theorem Serves.next_absent (serves : store.Serves ref log) (room : log.nextOffset < u64Max) :
    (store.index ref).get? log.nextOffset = none := by
  apply eq_none_iff_forall_ne_some.mpr
  intro entry listed
  obtain ⟨_, record, stored, atOffset⟩ := serves.coherent.index_get? listed
  rw [serves.contents] at stored
  have below := PartitionLog.offset_lt_next stored room
  omega

/-! ### One record after the last -/

variable {request : DataAppendRequest} {last : StoredEnvelope}

/-- A request that names the last record with its checksum passes the predecessor check. -/
theorem Serves.checkPredecessor_last (serves : store.Serves ref log)
    (owner : request.envelope.ref = ref) (isLast : log.records.getLast? = some last)
    (offset : request.predecessorOffset = some last.offset)
    (checksum : request.predecessorChecksum = some last.checksum) :
    store.checkPredecessor request = .ok () := by
  have loaded : store.logs.loadEnvelope ref last.offset = some last :=
    loadEnvelope_eq_some.mpr ⟨serves.contents ▸ mem_of_getLast? isLast, rfl⟩
  have progress : store.progress ref = some last.offset := by
    rw [serves.progress, isLast, map_some]
  simp only [checkPredecessor, owner, offset, checksum, progress, loaded,
    ensure_of trivial, ok_bind]

/-- A request that fails the predecessor check is refused, and nothing changes. -/
theorem appendInner_of_checkPredecessor {failure : Failure}
    (epoch : request.envelope.leaderEpoch ≤ request.leaderEpoch)
    (refused : store.checkPredecessor request = .error failure) (flush : Bool) :
    store.appendInner request flush = (store, .error failure) := by
  simp only [appendInner, ensure_of epoch, ok_bind, refused, error_bind]

/-- A request that names another offset than the last record's is refused. -/
theorem appendInner_refused {predecessor : ℕ} (owner : request.envelope.ref = ref)
    (epoch : request.envelope.leaderEpoch ≤ request.leaderEpoch)
    (named : request.predecessorOffset = some predecessor)
    (elsewhere : store.progress ref ≠ some predecessor) (flush : Bool) :
    ∃ message, store.appendInner request flush = (store, .error (.error message)) := by
  have refused : ∃ message, store.checkPredecessor request = .error (.error message) := by
    simp only [checkPredecessor, owner, named, ensure_of_not elsewhere]
    exact ⟨_, rfl⟩
  obtain ⟨message, refused⟩ := refused
  exact ⟨message, appendInner_of_checkPredecessor epoch refused flush⟩

/-- Appending the next record extends the log by it and keeps the index complete. -/
theorem Serves.appendInner_next (serves : store.Serves ref log) (owner : request.envelope.ref = ref)
    (here : request.envelope.offset = log.nextOffset) (room : log.nextOffset < u64Max)
    (epoch : request.envelope.leaderEpoch ≤ request.leaderEpoch)
    (follows : store.checkPredecessor request = .ok ()) (flush : Bool) :
    ∃ next, store.appendInner request flush =
        (next, .ok {
          matchOffset := request.envelope.offset
          flushedOffset :=
            if request.fsync && flush then some request.envelope.offset else none }) ∧
      next.Serves ref (log.push request.envelope here room) := by
  subst owner
  have absent : (store.index request.envelope.ref).get? request.envelope.offset = none := by
    rw [here]
    exact serves.next_absent room
  have pushed := PartitionLog.appendCommitted_next here room
  obtain ⟨logs, appended⟩ := PartitionLogSet.appendCommitted_of_find serves.found pushed
  obtain ⟨served, extended, found, grown, finds, _⟩ :=
    PartitionLogSet.appendCommitted_cases appended
  rw [serves.found] at found
  obtain rfl := some.inj found
  rw [pushed] at grown
  obtain rfl := Except.ok.inj grown
  have result : store.storeRecord request = .ok { store with
      logs
      records := store.records.insert request.envelope.ref
        ((store.index request.envelope.ref).insert request.envelope.offset
          request.envelope.intoResidentMetadata) } := by
    simp only [storeRecord, absent, appended]
    rfl
  have noTruncation : store.mustTruncate request = .ok false := by
    simp only [mustTruncate, absent]
  refine ⟨_, ?_, serves.coherent.storeRecord result, ?_, ?_⟩
  · simp only [appendInner, ensure_of epoch, ok_bind, follows, noTruncation, Bool.false_eq_true,
      if_false, result]
  · have above : ∀ entry ∈ (store.index request.envelope.ref).entries,
        entry.1 < request.envelope.offset := by
      intro entry member
      obtain ⟨_, record, stored, atOffset⟩ := serves.coherent.sound _ entry member
      rw [serves.contents] at stored
      have below := PartitionLog.offset_lt_next stored room
      omega
    have entries := serves.indexed
    rw [Indexed, index_of_insert rfl, if_pos rfl, OrderedMap.entries_insert_above _ above, entries,
      serves.contents]
    simp only [ReplicaDataStore.contents, finds, if_pos]
    rw [elim_some, PartitionLog.push, map_append]
    rfl
  · simp [finds]

/-! ### A batch after the last record -/

/-- The requests of a leader for consecutive records after a given one. Each names
the record before it with its checksum. -/
def Follows (ref : PartitionRef) : StoredEnvelope → List DataAppendRequest → Prop
  | _, [] => True
  | last, request :: requests =>
    request.envelope.ref = ref ∧ request.envelope.offset = last.offset + 1 ∧
      request.envelope.leaderEpoch ≤ request.leaderEpoch ∧
      request.predecessorOffset = some last.offset ∧
      request.predecessorChecksum = some last.checksum ∧
      Follows ref request.envelope requests

/-- The records of a batch. -/
def envelopes (requests : List DataAppendRequest) : List StoredEnvelope :=
  requests.map (·.envelope)

/-- The offsets a follower reports for a batch it has stored. -/
def matchOffsets (responses : List DataAppendResponse) : List ℕ :=
  responses.map (·.matchOffset)

variable {requests : List DataAppendRequest}

/-- The first request comes right after a log, whether or not it holds records,
and the others follow it. -/
def Continues (ref : PartitionRef) (log : PartitionLog) : List DataAppendRequest → Prop
  | [] => True
  | request :: requests =>
    request.envelope.ref = ref ∧ request.envelope.offset = log.nextOffset ∧
      request.envelope.leaderEpoch ≤ request.leaderEpoch ∧
      request.predecessorOffset = log.records.getLast?.map (·.offset) ∧
      (∀ last ∈ log.records.getLast?, request.predecessorChecksum = some last.checksum) ∧
      Follows ref request.envelope requests

theorem Continues.of_follows {last : StoredEnvelope} (kept : log.Kept ref)
    (isLast : log.records.getLast? = some last) (follows : Follows ref last requests) :
    Continues ref log requests := by
  cases requests with
  | nil => trivial
  | cons request requests =>
    obtain ⟨owner, offset, epoch, predecessor, checksum, rest⟩ := follows
    refine ⟨owner, ?_, epoch, ?_, ?_, rest⟩
    · rw [offset, kept.tight last isLast]
    · rw [predecessor, isLast, map_some]
    · intro other isOther
      rw [isLast] at isOther
      rw [checksum, some.inj isOther]

theorem Serves.checkPredecessor_continues (serves : store.Serves ref log)
    (continues : Continues ref log (request :: requests)) :
    store.checkPredecessor request = .ok () := by
  obtain ⟨owner, _, _, predecessor, checksum, _⟩ := continues
  cases isLast : log.records.getLast? with
  | none =>
    rw [isLast, map_none] at predecessor
    simp only [checkPredecessor, predecessor]
  | some last =>
    rw [isLast] at predecessor
    exact serves.checkPredecessor_last owner isLast predecessor (checksum last isLast)

/-- A follower stores requests that continue its log. The induction is on the batch; each
record becomes the last one for the rest. -/
theorem Serves.appendAll_continues (serves : store.Serves ref log)
    (continues : Continues ref log requests) (room : log.nextOffset + requests.length ≤ u64Max) :
    ∃ next responses extended, store.appendAll requests = (next, .ok responses) ∧
      next.Serves ref extended ∧ extended.records = log.records ++ envelopes requests ∧
      matchOffsets responses = (envelopes requests).map (·.offset) := by
  induction requests generalizing store log with
  | nil => exact ⟨store, [], log, rfl, serves, by simp [envelopes], rfl⟩
  | cons request requests ih =>
    have predecessor := serves.checkPredecessor_continues continues
    obtain ⟨owner, here, epoch, _, _, follows⟩ := continues
    simp only [length_cons] at room
    obtain ⟨middle, first, middleServes⟩ := serves.appendInner_next owner here (by omega) epoch
      predecessor false
    have tight := middleServes.kept.tight _ List.getLast?_concat
    obtain ⟨next, responses, extended, later, nextServes, records, matched⟩ :=
      ih middleServes (.of_follows middleServes.kept List.getLast?_concat follows) (by omega)
    refine ⟨next, ⟨request.envelope.offset, none⟩ :: responses, extended, ?_, nextServes, ?_, ?_⟩
    · simp only [appendAll, first, later, Bool.and_false, Bool.false_eq_true, if_false]
    · rw [records]
      simp [PartitionLog.push, envelopes]
    · simp only [matchOffsets, envelopes, map_cons] at matched ⊢
      rw [matched]

/-- The bounds a batch must meet before its records are looked at. -/
def WithinLimits (limits : BatchLimits) (requests : List DataAppendRequest) : Prop :=
  (requests ≠ [] ∧ requests.length ≤ limits.records) ∧
    (requests.map (fun request => dataAppendEnvelopeBytes request.envelope)).sum ≤ limits.bytes

variable {limits : BatchLimits} {responses : List DataAppendResponse}

theorem appendBatch_failed {failure : Failure} (within : WithinLimits limits requests)
    (all : store.appendAll requests = (next, .error failure)) :
    store.appendBatch limits requests = (next, .error failure) := by
  simp only [appendBatch, ensure_of within.1, ensure_of within.2, ok_bind, all]

/-- Marking flushed records leaves the matched offsets. -/
theorem matchOffsets_markFlushed (sameLength : responses.length = requests.length) :
    matchOffsets (markFlushed requests responses) = matchOffsets responses := by
  unfold markFlushed
  split
  · clear * - sameLength
    induction responses generalizing requests with
    | nil => simp [matchOffsets]
    | cons response responses ih =>
      cases requests with
      | nil => cases sameLength
      | cons request requests =>
        have rest := ih (Nat.succ.inj sameLength)
        simp only [matchOffsets, zipWith_cons_cons, map_cons] at rest ⊢
        rw [rest]
        split <;> rfl
  · rfl

/-- A batch that continues the log is stored as a whole. -/
theorem Serves.appendBatch_continues (serves : store.Serves ref log)
    (continues : Continues ref log requests) (within : WithinLimits limits requests)
    (room : log.nextOffset + requests.length ≤ u64Max) :
    ∃ next responses extended, store.appendBatch limits requests = (next, .ok responses) ∧
      next.Serves ref extended ∧ extended.records = log.records ++ envelopes requests ∧
      matchOffsets responses = (envelopes requests).map (·.offset) := by
  obtain ⟨next, responses, extended, all, nextServes, records, matched⟩ :=
    serves.appendAll_continues continues room
  have sameLength : responses.length = requests.length := by
    have lengths := congrArg List.length matched
    simpa [matchOffsets, envelopes] using lengths
  refine ⟨next, markFlushed requests responses, extended, ?_, nextServes, records,
    (matchOffsets_markFlushed sameLength).trans matched⟩
  simp only [appendBatch, ensure_of within.1, ensure_of within.2, ok_bind, all]

/-- A batch whose first request names another offset than the follower's last is
refused, and nothing changes. -/
theorem appendBatch_refused (follows : Follows ref last requests)
    (within : WithinLimits limits requests) (elsewhere : store.progress ref ≠ some last.offset) :
    ∃ message, store.appendBatch limits requests = (store, .error (.error message)) := by
  cases requests with
  | nil => exact absurd rfl within.1.1
  | cons request requests =>
    obtain ⟨owner, _, epoch, predecessor, _, _⟩ := follows
    obtain ⟨message, refused⟩ := appendInner_refused owner epoch predecessor elsewhere false
    refine ⟨message, appendBatch_failed within ?_⟩
    simp only [appendAll, refused]

/-! ### What an append cannot reach -/

/-- A record of another partition, or at or below the watermark a request names. -/
def Protected (request : DataAppendRequest) (ref : PartitionRef) (record : StoredEnvelope) :
    Prop :=
  ref = request.envelope.ref → ∃ committed ∈ request.committedHighWatermark,
    record.offset ≤ committed

variable {record : StoredEnvelope}

theorem storeRecord_contents (stored : store.storeRecord request = .ok next)
    (member : record ∈ store.contents ref) : record ∈ next.contents ref := by
  rcases storeRecord_cases stored with rfl | ⟨logs, _, appended, rfl⟩
  · exact member
  · obtain ⟨log, extended, found, grown, finds, _⟩ := PartitionLogSet.appendCommitted_cases appended
    simp only [contents, finds]
    split
    · rename_i same
      subst same
      rw [contents_of_find found] at member
      exact (appendCommitted_records grown).1 record member
    · exact member

theorem Coherent.truncateSuffix_contents (coherent : store.Coherent)
    (isProtected : Protected request ref record) (member : record ∈ store.contents ref) :
    record ∈ (store.truncateSuffix request).1.contents ref := by
  unfold ReplicaDataStore.truncateSuffix
  split
  · rename_i allowed
    rcases rewriteKept_cases coherent request.envelope.ref
        (fun offset => decide (offset < request.envelope.offset)) "replica record is unavailable"
        none with ⟨failure, _, result⟩ | ⟨log, rewritten, configured, rewrites, result⟩
    · rw [result]
      exact member
    · rw [result]
      simp only [contents, PartitionLogSet.find_insert_logs]
      split
      · rename_i same
        obtain ⟨committed, named, below⟩ := isProtected same
        rw [same, contents_of_find (PartitionLogSet.find_of_configured configured)] at member
        rw [elim_some, (PartitionLog.rewrite_cases rewrites).1, keepRecords, mem_filter]
        exact ⟨member, decide_eq_true (below.trans_lt (allowed committed named))⟩
      · exact member
  · exact member

/-- An append keeps every record it may not touch, whatever its outcome. -/
theorem Coherent.appendInner_protects (coherent : store.Coherent) (request : DataAppendRequest)
    (flush : Bool) (isProtected : Protected request ref record)
    (member : record ∈ store.contents ref) :
    record ∈ (store.appendInner request flush).1.contents ref :=
  appendInner_keeps (fun state => record ∈ state.contents ref) request flush member
    (coherent.truncateSuffix_contents isProtected member)
    (fun _ _ present stored => storeRecord_contents stored present)

/-! ### Reconciliation -/

/-- A batch replaces whatever a follower holds beyond the committed records, and
the same batch sent again is accepted with the same offsets and changes nothing. -/
def Reconciles (store : ReplicaDataStore) (limits : BatchLimits) (ref : PartitionRef)
    (committed : List StoredEnvelope) (batch : List DataAppendRequest) : Prop :=
  ∃ next responses, store.appendBatch limits batch = (next, .ok responses) ∧
    next.contents ref = committed ++ envelopes batch ∧
    ∃ again repeated, next.appendBatch limits batch = (again, .ok repeated) ∧
      matchOffsets repeated = matchOffsets responses ∧ again.contents ref = next.contents ref

theorem Serves.of_contents (coherent : store.Coherent) (indexed : store.Indexed ref)
    (member : record ∈ store.contents ref) :
    ∃ log, store.Serves ref log := by
  unfold ReplicaDataStore.contents at member
  cases found : store.logs.find ref with
  | none => simp [found] at member
  | some log => exact ⟨log, coherent, indexed, found⟩

/-- The offset of a list's last record lies beyond an earlier record's. -/
theorem last_offset_ne {front suffix : List StoredEnvelope} {watermark : StoredEnvelope}
    (ordered : (front ++ [watermark] ++ suffix).Pairwise
      (fun first second => first.offset < second.offset)) (nonempty : suffix ≠ []) :
    (front ++ [watermark] ++ suffix).getLast?.map (·.offset) ≠
      some watermark.offset := by
  obtain ⟨last, isLast⟩ : ∃ last, suffix.getLast? = some last :=
    ⟨_, List.getLast?_eq_some_getLast nonempty⟩
  have beyond := (pairwise_append.mp ordered).2.2 watermark (by simp) last
    (mem_of_getLast? isLast)
  rw [List.getLast?_append, isLast]
  simp only [some_or, map_some, ne_eq, some.injEq]
  omega

/-- For a follower that holds the committed records and any suffix, and a leader's
batch after the watermark: the batch is stored exactly when there is no suffix to
replace; once stored it is refused when it is sent again; so it is never
reconciled. No append and no batch reaches a record that its requests protect. -/
theorem follower_reconciliation {front suffix : List StoredEnvelope} {watermark : StoredEnvelope}
    {batch : List DataAppendRequest} {limits : BatchLimits} (reached : Reachable store)
    (indexed : store.Indexed ref) (shape : store.contents ref = front ++ [watermark] ++ suffix)
    (follows : Follows ref watermark batch) (within : WithinLimits limits batch)
    (room : watermark.offset + batch.length < u64Max) :
    ¬ Reconciles store limits ref (front ++ [watermark]) batch ∧
      ((∃ next responses, store.appendBatch limits batch = (next, .ok responses) ∧
          next.contents ref = front ++ [watermark] ++ envelopes batch) ↔ suffix = []) ∧
      (∀ next responses, store.appendBatch limits batch = (next, .ok responses) →
        ∃ message, next.appendBatch limits batch = (next, .error (.error message))) ∧
      (∀ (request : DataAppendRequest) (other : PartitionRef) (record : StoredEnvelope),
        Protected request other record → record ∈ store.contents other →
          record ∈ (store.appendInner request true).1.contents other) ∧
      ∀ (requests : List DataAppendRequest) (other : PartitionRef) (record : StoredEnvelope),
        (∀ request ∈ requests, Protected request other record) → record ∈ store.contents other →
          record ∈ (store.appendBatch limits requests).1.contents other := by
  have coherent := reached.coherent
  obtain ⟨log, serves⟩ := Serves.of_contents coherent indexed
    (show watermark ∈ store.contents ref by simp [shape])
  have records : log.records = front ++ [watermark] ++ suffix := by rw [← serves.contents, shape]
  have stuck : suffix ≠ [] →
      ∃ message, store.appendBatch limits batch = (store, .error (.error message)) := by
    intro nonempty
    apply appendBatch_refused follows within
    rw [serves.progress, records]
    exact last_offset_ne (records ▸ log.increasing) nonempty
  have stores : suffix = [] → ∃ next responses extended,
      store.appendBatch limits batch = (next, .ok responses) ∧ next.Serves ref extended ∧
        extended.records = front ++ [watermark] ++ envelopes batch := by
    rintro rfl
    have isLast : log.records.getLast? = some watermark := by
      rw [records]
      simp
    have tight := serves.kept.tight watermark isLast
    obtain ⟨next, responses, extended, result, nextServes, grown, _⟩ :=
      serves.appendBatch_continues (.of_follows serves.kept isLast follows) within (by omega)
    exact ⟨next, responses, extended, result, nextServes, by rw [grown, records, append_nil]⟩
  have refusedAgain : ∀ next responses, store.appendBatch limits batch = (next, .ok responses) →
      ∃ message, next.appendBatch limits batch = (next, .error (.error message)) := by
    intro next responses result
    by_cases empty : suffix = []
    · obtain ⟨stored, _, extended, storedResult, storedServes, grown⟩ := stores empty
      rw [result] at storedResult
      obtain rfl : next = stored := (Prod.mk.inj storedResult).1
      apply appendBatch_refused follows within
      rw [storedServes.progress, grown]
      refine last_offset_ne (grown ▸ extended.increasing) ?_
      simpa [envelopes] using within.1.1
    · obtain ⟨message, refused⟩ := stuck empty
      rw [result] at refused
      cases (Prod.mk.inj refused).2
  refine ⟨?_, ⟨?_, ?_⟩, refusedAgain, ?_, ?_⟩
  · rintro ⟨next, responses, result, _, again, repeated, resent, _, _⟩
    obtain ⟨message, refused⟩ := refusedAgain next responses result
    rw [resent] at refused
    cases (Prod.mk.inj refused).2
  · rintro ⟨next, responses, result, _⟩
    by_contra nonempty
    obtain ⟨message, refused⟩ := stuck nonempty
    rw [result] at refused
    cases (Prod.mk.inj refused).2
  · intro empty
    obtain ⟨next, responses, extended, result, nextServes, grown⟩ := stores empty
    exact ⟨next, responses, result, by rw [nextServes.contents, grown]⟩
  · intro request other record isProtected member
    exact coherent.appendInner_protects request true isProtected member
  · intro requests other record isProtected member
    have kept := appendBatch_keeps (fun state => state.Coherent ∧ record ∈ state.contents other)
      limits requests (fun request among state holds => ⟨holds.1.appendInner request false,
        holds.1.appendInner_protects request false (isProtected request among) holds.2⟩)
      ⟨coherent, member⟩
    exact kept.2

/-! ### A follower with one record beyond the watermark -/

/-- The largest limits. -/
def defaultLimits : BatchLimits := ⟨256, 8 * 1024 * 1024, by decide, by decide⟩

/-- A replica that serves one partition from the given log. -/
def replicaOf (log : PartitionLog) : ReplicaDataStore := openForPartitions (Sample.logs log) [] 0

theorem replicaOf_reachable {log : PartitionLog} (kept : log.Kept Sample.ref)
    (settled : log.Settled) : Reachable (replicaOf log) :=
  Sample.opened_reachable kept settled (by simp)

theorem replicaOf_contents (log : PartitionLog) :
    (replicaOf log).contents Sample.ref = log.records := by
  apply contents_of_find
  rw [replicaOf, open_find, Sample.logs, OrderedMap.get?_insert_self]

theorem replicaOf_indexed {log : PartitionLog} (kept : log.Kept Sample.ref) :
    (replicaOf log).Indexed Sample.ref := by
  apply open_index
  intro ref served found
  obtain ⟨rfl, rfl⟩ := Sample.logs_get? found
  exact kept.owned

/-- A log with two records. Nothing says whether the second one was ever committed. -/
def twoRecordLog : PartitionLog :=
  Sample.log [Sample.record 0 7, Sample.record 1 8] 2 (by decide) (by decide)

theorem twoRecordLog_kept : twoRecordLog.Kept Sample.ref := by
  refine ⟨rfl, ?_, ?_, ?_⟩
  · intro record member
    rcases mem_cons.mp member with rfl | later
    · rfl
    · rw [mem_singleton.mp later]
      rfl
  · decide
  · rintro last ⟨⟩
    rfl

theorem twoRecord_reachable : Reachable (replicaOf twoRecordLog) :=
  replicaOf_reachable twoRecordLog_kept (Sample.log_settled _ _ _ _)

/-- The new leader's batch for the offset after the watermark. -/
def replacementBatch : List DataAppendRequest :=
  [{ leaderId := 2, leaderEpoch := 2, replicaSetGeneration := 1, fsync := true,
     committedHighWatermark := some 0, predecessorOffset := some 0,
     predecessorChecksum := some (Sample.record 0 7).checksum,
     batchDigest := (Sample.record 1 9).checksum, durability := .localFlush,
     envelope := Sample.record 1 9 }]

theorem replacementBatch_follows : Follows Sample.ref (Sample.record 0 7) replacementBatch :=
  ⟨rfl, rfl, by decide, rfl, rfl, trivial⟩

theorem replacementBatch_within : WithinLimits defaultLimits replacementBatch := by
  refine ⟨⟨by simp [replacementBatch], by decide⟩, by decide +kernel⟩

/-- The follower refuses the batch that should replace its second record. -/
theorem follower_reconciliation_refused :
    Reachable (replicaOf twoRecordLog) ∧
      ¬ Reconciles (replicaOf twoRecordLog) defaultLimits Sample.ref [Sample.record 0 7]
        replacementBatch :=
  ⟨twoRecord_reachable,
    (follower_reconciliation (twoRecord_reachable)
      (replicaOf_indexed twoRecordLog_kept)
      (show (replicaOf twoRecordLog).contents Sample.ref =
        [] ++ [Sample.record 0 7] ++ [Sample.record 1 8] from replicaOf_contents twoRecordLog)
      replacementBatch_follows replacementBatch_within
      (by decide)).1⟩

/-- The refusal names the record the batch should have replaced. -/
theorem replacement_batch_not_reconciled :
    ¬ Reconciles (replicaOf twoRecordLog) defaultLimits Sample.ref [Sample.record 0 7]
        replacementBatch ∧
      (∃ message, ((replicaOf twoRecordLog).appendBatch defaultLimits replacementBatch).2 =
        .error (.error message)) := by
  have refused : ∃ message,
      ((replicaOf twoRecordLog).appendBatch defaultLimits replacementBatch).2 =
        .error (.error message) :=
    ⟨"partition append has a gap or stale predecessor (current=Some(1), predecessor=0)", by
      decide +kernel⟩
  refine ⟨?_, refused⟩
  rintro ⟨next, responses, result, _⟩
  obtain ⟨message, refused⟩ := refused
  rw [result] at refused
  cases refused

end Morrow.ReplicaDataStore
