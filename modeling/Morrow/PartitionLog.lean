import Morrow.Envelope
import Morrow.OrderedMap

/-!
# Partition logs at the level of records

A log is the list of its records in strictly increasing offset order together
with the offset the next record will take. Offsets may have gaps, and the next
offset may lie beyond the last record, once retention or compaction has removed
records. Retention first forgets records in the log's own bookkeeping and reports
the earliest offset left; the stored records change only when the log is
rewritten with what its owner kept.

Segments, indexes and the file operations behind these calls are the subject of
the file-level modules. Here the disk does what it is asked, a stored record is
always read back, and the cache in front of the reads is left out.
-/

namespace Morrow

open List

/-- What retention knows about one stored record. -/
structure RetentionRecord where
  offset : ℕ
  timestampMs : ℕ
  bytes : ℕ
deriving DecidableEq

/-- The limits retention enforces. -/
structure RetentionPolicy where
  maxAgeMs : Option ℕ
  maxBytes : Option ℕ
deriving DecidableEq

/-- One partition's log. -/
structure PartitionLog where
  stream : StreamId
  partition : PartitionId
  records : List StoredEnvelope
  nextOffset : ℕ
  retentionRecords : List RetentionRecord
  retainedBytes : ℕ
  deletedMessages : ℕ
  deletedBytes : ℕ
  increasing : records.Pairwise (fun first second => first.offset < second.offset)
  exceeded : ∀ record ∈ records, saturatingSucc record.offset ≤ nextOffset
deriving DecidableEq

namespace PartitionLog

def ref (log : PartitionLog) : PartitionRef := ⟨log.stream.name, log.partition⟩

/-- The bookkeeping entry of a stored record. -/
def retentionRecord (record : StoredEnvelope) : RetentionRecord :=
  ⟨record.offset, record.timestampMs, record.batchBytes⟩

/-- The record stored at an offset. -/
def readOffset (log : PartitionLog) (offset : ℕ) : Option StoredEnvelope :=
  log.records.find? (fun record => decide (record.offset = offset))

variable {log : PartitionLog} {record : StoredEnvelope}

theorem readOffset_eq_some {offset : ℕ} :
    log.readOffset offset = some record ↔ record ∈ log.records ∧ record.offset = offset := by
  have ordered := log.increasing
  unfold readOffset
  generalize log.records = records at ordered
  induction records with
  | nil => simp
  | cons head rest ih =>
    obtain ⟨headBelow, restOrdered⟩ := pairwise_cons.mp ordered
    by_cases hit : head.offset = offset
    · have absent : ∀ later ∈ rest, later.offset ≠ offset := by
        intro later member
        have above := headBelow later member
        omega
      rw [find?_cons_of_pos (by simpa using hit)]
      constructor
      · intro found
        obtain rfl := Option.some.inj found
        exact ⟨mem_cons_self, hit⟩
      · rintro ⟨member, at_⟩
        rcases mem_cons.mp member with rfl | later
        · rfl
        · exact absurd at_ (absent record later)
    · rw [find?_cons_of_neg (by simpa using hit)]
      refine (ih restOrdered).trans ?_
      constructor
      · rintro ⟨member, at_⟩
        exact ⟨mem_cons_of_mem head member, at_⟩
      · rintro ⟨member, at_⟩
        rcases mem_cons.mp member with rfl | later
        · exact absurd at_ hit
        · exact ⟨later, at_⟩

/-- A record below the largest word lies below the next offset. -/
theorem offset_lt_next (member : record ∈ log.records) (room : log.nextOffset < u64Max) :
    record.offset < log.nextOffset := by
  have exceeded := log.exceeded record member
  unfold saturatingSucc at exceeded
  split at exceeded <;> omega

/-- The log after one record was written at the next offset. -/
def push (log : PartitionLog) (record : StoredEnvelope) (here : record.offset = log.nextOffset)
    (room : log.nextOffset < u64Max) : PartitionLog :=
  { log with
    records := log.records ++ [record]
    nextOffset := log.nextOffset + 1
    retentionRecords := log.retentionRecords ++ [retentionRecord record]
    retainedBytes := log.retainedBytes + record.batchBytes
    increasing := by
      rw [pairwise_append]
      refine ⟨log.increasing, pairwise_singleton _ _, ?_⟩
      intro earlier member later same
      rw [mem_singleton.mp same, here]
      exact offset_lt_next member room
    exceeded := by
      refine forall_mem_concat.mpr ⟨fun stored earlier => ?_, ?_⟩
      · exact (log.exceeded stored earlier).trans (Nat.le_succ _)
      · rw [here]
        exact saturatingSucc_le log.nextOffset }

/-- Append a record whose offset was chosen elsewhere. A record below the next
offset must already be stored with the same bytes; a record beyond it would leave
a gap. -/
def appendCommitted (log : PartitionLog) (envelope : StoredEnvelope) : Outcome PartitionLog :=
  if envelope.offset < log.nextOffset then do
    ensure ((log.readOffset envelope.offset).map StoredEnvelope.checksum = some envelope.checksum)
      "partition-log append conflicts with an immutable committed record"
    pure log
  else if here : envelope.offset = log.nextOffset then
    -- The counter is advanced without a check after the batch was written.
    if room : log.nextOffset < u64Max then .ok (log.push envelope here room)
    else .error .panicked
  else
    let next := log.nextOffset
    let requested := envelope.offset
    .error (.error
      s!"partition-log append creates an offset gap (next={next}, requested={requested})")

variable {envelope : StoredEnvelope}

/-- Appending at the next offset extends the log by exactly that record. -/
theorem appendCommitted_next (here : envelope.offset = log.nextOffset)
    (room : log.nextOffset < u64Max) :
    log.appendCommitted envelope = .ok (log.push envelope here room) := by
  have notBelow : ¬ envelope.offset < log.nextOffset := by omega
  rw [appendCommitted, if_neg notBelow, dif_pos here, dif_pos room]

variable {result : PartitionLog}

/-- A successful append either finds its record stored or extends the log. -/
theorem appendCommitted_cases (appended : log.appendCommitted envelope = .ok result) :
    (envelope.offset < log.nextOffset ∧ result = log ∧
        (log.readOffset envelope.offset).map StoredEnvelope.checksum = some envelope.checksum) ∨
      ∃ (here : envelope.offset = log.nextOffset) (room : log.nextOffset < u64Max),
        result = log.push envelope here room := by
  unfold appendCommitted at appended
  split at appended
  · rename_i below
    obtain ⟨done, same, returned⟩ := bind_eq_ok.mp appended
    exact .inl ⟨below, (Except.ok.inj returned).symm, ensure_eq_ok.mp same⟩
  · split at appended
    · rename_i here
      split at appended
      · rename_i room
        exact .inr ⟨here, room, (Except.ok.inj appended).symm⟩
      · cases appended
    · cases appended

/-- The next offset after a rewrite: beyond the last kept record, and not below
the floor. -/
def nextOffsetAfter (records : List StoredEnvelope) (floor : Option ℕ) : ℕ :=
  max (records.getLast?.elim 0 (fun record => saturatingSucc record.offset)) (floor.getD 0)

variable {records : List StoredEnvelope}

/-- In increasing order the last record has the largest offset. -/
theorem offset_le_last {last : StoredEnvelope}
    (increasing : records.Pairwise (fun first second => first.offset < second.offset))
    (isLast : records.getLast? = some last) (member : record ∈ records) :
    record.offset ≤ last.offset := by
  obtain ⟨front, rfl⟩ := getLast?_eq_some_iff.mp isLast
  rcases mem_append.mp member with earlier | same
  · exact ((pairwise_append.mp increasing).2.2 record earlier last mem_cons_self).le
  · rw [mem_singleton.mp same]

/-- The log reopened on exactly the given records. -/
def replacement (log : PartitionLog) (records : List StoredEnvelope) (nextOffset : ℕ)
    (increasing : records.Pairwise (fun first second => first.offset < second.offset))
    (below : ∀ last ∈ records.getLast?, last.offset < nextOffset) : PartitionLog :=
  { log with
    records := records
    nextOffset := nextOffset
    retentionRecords := records.map retentionRecord
    retainedBytes := (records.map StoredEnvelope.batchBytes).sum
    increasing := increasing
    exceeded := by
      intro record member
      have nonempty : records ≠ [] := ne_nil_of_mem member
      obtain ⟨last, isLast⟩ : ∃ last, records.getLast? = some last :=
        ⟨_, getLast?_eq_some_getLast nonempty⟩
      have toLast := offset_le_last increasing isLast member
      have lastBelow := below last isLast
      have succ := saturatingSucc_le record.offset
      omega }

/-- Replace the stored records. The new segment is staged, installed and opened
again, which checks the order, the next offset and the owner of every record. -/
def rewrite (log : PartitionLog) (records : List StoredEnvelope) (floor : Option ℕ) :
    Outcome PartitionLog :=
  let nextOffset := nextOffsetAfter records floor
  if increasing : records.IsChain (fun first second => first.offset < second.offset) then
    if below : ∀ last ∈ records.getLast?, last.offset < nextOffset then
      if ∀ record ∈ records, record.ref = log.ref then
        .ok (log.replacement records nextOffset (isChain_iff_pairwise.mp increasing) below)
      else .error (.error "partition-log envelope stored under the wrong stream or partition")
    else .error (.error "partition rewrite next offset does not exceed retained offsets")
  else .error (.error "partition rewrite offsets are not strictly increasing")

/-- A rewrite that succeeds stores exactly the given records. -/
theorem rewrite_cases {floor : Option ℕ} (rewritten : log.rewrite records floor = .ok result) :
    result.records = records ∧ result.nextOffset = nextOffsetAfter records floor ∧
      result.ref = log.ref ∧ result.retentionRecords = records.map retentionRecord ∧
      result.retainedBytes = (records.map StoredEnvelope.batchBytes).sum := by
  simp only [rewrite] at rewritten
  split at rewritten
  · split at rewritten
    · split at rewritten
      · obtain rfl := Except.ok.inj rewritten
        exact ⟨rfl, rfl, rfl, rfl, rfl⟩
      · cases rewritten
    · cases rewritten
  · cases rewritten

/-- A rewrite with part of the records the log holds succeeds, unless the last
kept record sits at the largest offset. -/
theorem rewrite_sublist (floor : Option ℕ) (kept : records.Sublist log.records)
    (owned : ∀ record ∈ log.records, record.ref = log.ref)
    (bounded : ∀ record ∈ records, record.offset < u64Max) :
    ∃ result, log.rewrite records floor = .ok result := by
  have increasing : records.Pairwise (fun first second => first.offset < second.offset) :=
    log.increasing.sublist kept
  have below : ∀ last ∈ records.getLast?, last.offset < nextOffsetAfter records floor := by
    intro last isLast
    have room := bounded last (mem_of_getLast? isLast)
    rw [nextOffsetAfter, Option.mem_def.mp isLast]
    simp only [Option.elim_some, saturatingSucc_of_lt room]
    omega
  have ownedKept : ∀ record ∈ records, record.ref = log.ref :=
    fun record member => owned record (kept.subset member)
  refine ⟨log.replacement records _ increasing below, ?_⟩
  simp only [rewrite]
  rw [dif_pos (isChain_iff_pairwise.mpr increasing), dif_pos below, if_pos ownedKept]

/-! ### Retention -/

/-- The first offset retention still counts, or the next offset when it counts none. -/
def earliestOffset (log : PartitionLog) : ℕ :=
  match log.retentionRecords with
  | [] => log.nextOffset
  | record :: _ => record.offset

def removeOldestRetentionRecord (log : PartitionLog) : PartitionLog :=
  match log.retentionRecords with
  | [] => log
  | record :: rest =>
    { log with
      retentionRecords := rest
      retainedBytes := log.retainedBytes - record.bytes
      deletedMessages := log.deletedMessages + 1
      deletedBytes := log.deletedBytes + record.bytes }

/-- Forget records from the front while the test on the retained bytes and the
front record holds. The list is the bookkeeping at the start of the loop. -/
def removeWhile (test : ℕ → RetentionRecord → Bool) : List RetentionRecord → PartitionLog →
    PartitionLog
  | [], log => log
  | record :: rest, log =>
    if test log.retainedBytes record then
      removeWhile test rest log.removeOldestRetentionRecord
    else log

/-- Forget records by age, then by total size; report the earliest offset left
when it moved. -/
def enforceRetention (log : PartitionLog) (policy : RetentionPolicy) (nowMs : ℕ) :
    PartitionLog × Option ℕ :=
  let before := log.earliestOffset
  let aged := match policy.maxAgeMs with
    | some maxAgeMs =>
      removeWhile (fun _ record => decide (maxAgeMs < nowMs - record.timestampMs))
        log.retentionRecords log
    | none => log
  let sized := match policy.maxBytes with
    | some maxBytes =>
      removeWhile (fun retained _ => decide (maxBytes < retained)) aged.retentionRecords aged
    | none => aged
  (sized, if sized.earliestOffset ≠ before then some sized.earliestOffset else none)

/-- The second log differs from the first at most in bookkeeping forgotten from
the front. -/
structure Forgets (log result : PartitionLog) : Prop where
  records : result.records = log.records
  nextOffset : result.nextOffset = log.nextOffset
  ref : result.ref = log.ref
  retained : result.retentionRecords <:+ log.retentionRecords

theorem Forgets.refl (log : PartitionLog) : log.Forgets log := ⟨rfl, rfl, rfl, suffix_rfl⟩

theorem Forgets.trans {first second third : PartitionLog} (earlier : first.Forgets second)
    (later : second.Forgets third) : first.Forgets third :=
  ⟨later.records.trans earlier.records, later.nextOffset.trans earlier.nextOffset,
    later.ref.trans earlier.ref, later.retained.trans earlier.retained⟩

theorem removeOldestRetentionRecord_forgets (log : PartitionLog) :
    log.Forgets log.removeOldestRetentionRecord := by
  unfold removeOldestRetentionRecord
  split
  · exact Forgets.refl log
  · rename_i record rest shape
    exact ⟨rfl, rfl, rfl, shape ▸ suffix_cons record rest⟩

theorem removeWhile_forgets (test : ℕ → RetentionRecord → Bool) (pending : List RetentionRecord)
    (log : PartitionLog) : log.Forgets (removeWhile test pending log) := by
  induction pending generalizing log with
  | nil => exact Forgets.refl log
  | cons record rest ih =>
    simp only [removeWhile]
    split
    · exact (removeOldestRetentionRecord_forgets log).trans (ih _)
    · exact Forgets.refl log

/-- Planning retention changes nothing but the bookkeeping. -/
theorem enforceRetention_forgets (log : PartitionLog) (policy : RetentionPolicy) (nowMs : ℕ) :
    log.Forgets (log.enforceRetention policy nowMs).1 := by
  unfold enforceRetention
  cases policy.maxAgeMs with
  | none =>
    cases policy.maxBytes with
    | none => exact Forgets.refl log
    | some maxBytes => exact removeWhile_forgets _ _ _
  | some maxAgeMs =>
    cases policy.maxBytes with
    | none => exact removeWhile_forgets _ _ _
    | some maxBytes => exact (removeWhile_forgets _ _ _).trans (removeWhile_forgets _ _ _)

theorem enforceRetention_change {policy : RetentionPolicy} {nowMs : ℕ} :
    (log.enforceRetention policy nowMs).2 =
      if (log.enforceRetention policy nowMs).1.earliestOffset ≠ log.earliestOffset then
        some (log.enforceRetention policy nowMs).1.earliestOffset
      else none := rfl

/-- The bookkeeping agrees with the stored records. -/
structure Settled (log : PartitionLog) : Prop where
  records : log.retentionRecords = log.records.map retentionRecord
  bytes : log.retainedBytes = (log.records.map StoredEnvelope.batchBytes).sum

end PartitionLog

/-! ### The logs of all partitions -/

/-- A partition whose records below an offset retention has given up. -/
structure RetentionChange where
  ref : PartitionRef
  earliestOffset : ℕ
deriving DecidableEq

/-- The parts of a stream's definition that retention reads. -/
structure StreamDefinition where
  name : StreamId
  partitions : PartitionId
  retention : RetentionPolicy
deriving DecidableEq

/-- The logs opened for configured partitions, and those activated later. -/
structure PartitionLogSet where
  logs : OrderedMap PartitionRef PartitionLog
  dynamicLogs : OrderedMap PartitionRef PartitionLog
deriving DecidableEq

namespace PartitionLogSet

variable (set : PartitionLogSet) (ref : PartitionRef)

/-- The log that serves a partition: a configured one before an activated one. -/
def find : Option PartitionLog :=
  (set.logs.get? ref).or (set.dynamicLogs.get? ref)

def loadEnvelope (offset : ℕ) :
    Option StoredEnvelope :=
  match set.logs.get? ref with
  | some log => log.readOffset offset
  | none => (set.dynamicLogs.get? ref).bind (fun log => log.readOffset offset)

def appendCommitted (envelope : StoredEnvelope) : Outcome PartitionLogSet :=
  match set.logs.get? envelope.ref with
  | some log => do
    let appended ← log.appendCommitted envelope
    pure { set with logs := set.logs.insert envelope.ref appended }
  | none =>
    match set.dynamicLogs.get? envelope.ref with
    | some log => do
      let appended ← log.appendCommitted envelope
      pure { set with dynamicLogs := set.dynamicLogs.insert envelope.ref appended }
    | none => .error (.error "unknown stream partition")

/-- Rewrite a configured partition, with a floor for its next offset when retention
asks for it; an activated partition is not found. -/
def rewriteLog (records : List StoredEnvelope)
    (floor : Option ℕ) : Outcome PartitionLogSet :=
  match set.logs.get? ref with
  | some log => do
    let rewritten ← log.rewrite records floor
    pure { set with logs := set.logs.insert ref rewritten }
  | none => .error (.error "unknown stream partition")

/-- Start to serve a partition that is not configured. The log opened for it must
hold no records; whether a slot was reserved for it is an input. -/
def activatePartition (reserved : Bool)
    (opened : Outcome PartitionLog) : Outcome PartitionLogSet :=
  if (set.find ref).isSome then .ok set
  else do
    ensure (reserved = true) "dynamic partition resource limit reached"
    match StreamId.new ref.stream with
    | .error message => .error (.error message)
    | .ok _ =>
      let log ← opened
      ensure (log.records = []) "dynamic partition contains unreconciled records"
      pure { set with dynamicLogs := set.dynamicLogs.insert ref log }

/-- Plan retention for one partition, if it is configured here. -/
def retentionChange (policy : RetentionPolicy)
    (nowMs : ℕ) : PartitionLogSet × Option RetentionChange :=
  match set.logs.get? ref with
  | some log =>
    let planned := log.enforceRetention policy nowMs
    ({ set with logs := set.logs.insert ref planned.1 },
      planned.2.map (fun earliestOffset => ⟨ref, earliestOffset⟩))
  | none => (set, none)

/-- Plan retention for the listed partitions, in order. -/
def planRetention (nowMs : ℕ) : PartitionLogSet → List (PartitionRef × RetentionPolicy) →
    PartitionLogSet × List RetentionChange
  | set, [] => (set, [])
  | set, (ref, policy) :: work =>
    let planned := set.retentionChange ref policy nowMs
    let later := planRetention nowMs planned.1 work
    (later.1, planned.2.toList ++ later.2)

variable (streams : List StreamDefinition)

/-- Every partition of every given stream, with the stream's policy. -/
def retentionWork : List (PartitionRef × RetentionPolicy) :=
  streams.flatMap (fun stream =>
    (partitionsBelow stream.partitions).map (fun partition =>
      (⟨stream.name.name, partition⟩, stream.retention)))

def retentionChanges (nowMs : ℕ) :
    PartitionLogSet × List RetentionChange :=
  set.planRetention nowMs (retentionWork streams)

end PartitionLogSet

end Morrow
