import Morrow.PartitionLog

/-!
# Which records retention keeps

Retention walks the bookkeeping from the oldest record. The age limit stops it at
the first record that is young enough, whatever comes later; the size limit stops
it once the records left fit. So a record survives the age limit exactly when some
record up to it is young enough, and the size limit exactly when the records from
it on fit. The plan reports the earliest offset left only when it moved, and when
it did not move nothing was forgotten.
-/

namespace Morrow.PartitionLog

open List

/-! ### The loop on the bookkeeping -/

def totalBytes (records : List RetentionRecord) : ℕ :=
  (records.map (·.bytes)).sum

/-- What the loop leaves of bookkeeping whose byte count is exact. -/
def trim (test : ℕ → RetentionRecord → Bool) : List RetentionRecord → List RetentionRecord
  | [] => []
  | record :: rest =>
    if test (totalBytes (record :: rest)) record then trim test rest else record :: rest

/-- The log's bookkeeping is the given list, and its byte count is exact. -/
structure Counts (log : PartitionLog) (counted : List RetentionRecord) : Prop where
  records : log.retentionRecords = counted
  bytes : log.retainedBytes = totalBytes counted

variable {records : List RetentionRecord}

theorem removeWhile_counts (test : ℕ → RetentionRecord → Bool) {log : PartitionLog}
    (counts : log.Counts records) :
    (removeWhile test records log).Counts (trim test records) := by
  induction records generalizing log with
  | nil => exact counts
  | cons record rest ih =>
    have forgotten : log.removeOldestRetentionRecord.Counts rest := by
      constructor
      · simp [removeOldestRetentionRecord, counts.records]
      · simp [removeOldestRetentionRecord, counts.records, counts.bytes, totalBytes]
    rw [removeWhile, trim, counts.bytes]
    split
    · exact ih forgotten
    · exact counts

theorem Counts.removeWhile {log : PartitionLog} (counts : log.Counts records)
    (test : ℕ → RetentionRecord → Bool) :
    (removeWhile test log.retentionRecords log).Counts (trim test records) := by
  rw [counts.records]
  exact removeWhile_counts test counts

/-- The bookkeeping is in offset order. -/
def Ordered (records : List RetentionRecord) : Prop :=
  records.Pairwise (fun first second => first.offset < second.offset)

section Limits

variable {records : List RetentionRecord} {record : RetentionRecord}

theorem trim_suffix (test : ℕ → RetentionRecord → Bool) (records : List RetentionRecord) :
    trim test records <:+ records := by
  induction records with
  | nil => exact suffix_rfl
  | cons record rest ih =>
    simp only [trim]
    split
    · exact ih.trans (suffix_cons record rest)
    · exact suffix_rfl

/-- The age limit keeps a record exactly when some record up to it is young enough. -/
theorem mem_trim_age (ordered : Ordered records) (old : RetentionRecord → Bool) :
    record ∈ trim (fun _ => old) records ↔ record ∈ records ∧
      ∃ earlier ∈ records, earlier.offset ≤ record.offset ∧ old earlier = false := by
  induction records with
  | nil => simp [trim]
  | cons head rest ih =>
    obtain ⟨below, restOrdered⟩ := pairwise_cons.mp ordered
    simp only [trim]
    split
    · rename_i aged
      rw [ih restOrdered]
      constructor
      · rintro ⟨member, earlier, among, upTo, young⟩
        exact ⟨mem_cons_of_mem head member, earlier, mem_cons_of_mem head among, upTo, young⟩
      · rintro ⟨member, earlier, among, upTo, young⟩
        have later : earlier ∈ rest := by
          rcases mem_cons.mp among with rfl | later
          · rw [aged] at young
            cases young
          · exact later
        rcases mem_cons.mp member with rfl | member
        · have beyond := below earlier later
          omega
        · exact ⟨member, earlier, later, upTo, young⟩
    · rename_i young
      constructor
      · intro member
        refine ⟨member, head, mem_cons_self, ?_, by simpa using young⟩
        rcases mem_cons.mp member with rfl | later
        · exact le_rfl
        · exact (below record later).le
      · rintro ⟨member, _⟩
        exact member

/-- The bytes of the records from an offset on. -/
def bytesFrom (offset : ℕ) (records : List RetentionRecord) : ℕ :=
  totalBytes (records.filter (fun record => decide (offset ≤ record.offset)))

/-- Records below an offset do not count towards the bytes from it on. -/
theorem bytesFrom_append {offset : ℕ} {front : List RetentionRecord}
    (below : ∀ earlier ∈ front, earlier.offset < offset) (records : List RetentionRecord) :
    bytesFrom offset (front ++ records) = bytesFrom offset records := by
  have none : front.filter (fun record => decide (offset ≤ record.offset)) = [] := by
    rw [filter_eq_nil_iff]
    intro earlier member
    have low := below earlier member
    simpa using low
  simp [bytesFrom, filter_append, none]

variable {rest : List RetentionRecord}

theorem bytesFrom_head (record : RetentionRecord) (ordered : Ordered (record :: rest)) :
    bytesFrom record.offset (record :: rest) = totalBytes (record :: rest) := by
  have all : (record :: rest).filter (fun other => decide (record.offset ≤ other.offset)) =
      record :: rest := by
    rw [filter_eq_self]
    intro other member
    rcases mem_cons.mp member with rfl | later
    · simp
    · exact decide_eq_true ((pairwise_cons.mp ordered).1 other later).le
  rw [bytesFrom, all]

/-- The size limit keeps a record exactly when the records from it on fit. -/
theorem mem_trim_size (ordered : Ordered records) (maxBytes : ℕ) :
    record ∈ trim (fun retained _ => decide (maxBytes < retained)) records ↔
      record ∈ records ∧ bytesFrom record.offset records ≤ maxBytes := by
  induction records with
  | nil => simp [trim]
  | cons head rest ih =>
    obtain ⟨below, restOrdered⟩ := pairwise_cons.mp ordered
    have skips : ∀ later ∈ rest,
        bytesFrom later.offset (head :: rest) = bytesFrom later.offset rest := by
      intro later member
      have low : ∀ earlier ∈ [head], earlier.offset < later.offset := by
        simpa using below later member
      exact bytesFrom_append low rest
    simp only [trim]
    split
    · rename_i tooLarge
      rw [decide_eq_true_eq] at tooLarge
      rw [ih restOrdered]
      constructor
      · rintro ⟨member, fits⟩
        exact ⟨mem_cons_of_mem head member, (skips record member).trans_le fits⟩
      · rintro ⟨member, fits⟩
        rcases mem_cons.mp member with rfl | later
        · rw [bytesFrom_head record ordered] at fits
          omega
        · exact ⟨later, (skips record later).symm.trans_le fits⟩
    · rename_i fits
      rw [decide_eq_true_eq] at fits
      constructor
      · intro member
        have bound : bytesFrom record.offset (head :: rest) ≤ totalBytes (head :: rest) :=
          List.Sublist.sum_le_sum (filter_sublist.map _) fun _ _ => Nat.zero_le _
        exact ⟨member, by omega⟩
      · rintro ⟨member, _⟩
        exact member

variable {left : List RetentionRecord}

/-- A suffix that holds a record holds everything from it on. -/
theorem bytesFrom_suffix (ordered : Ordered records) (suffix : left <:+ records)
    (member : record ∈ left) :
    bytesFrom record.offset records = bytesFrom record.offset left := by
  obtain ⟨front, rfl⟩ := suffix
  have below := (pairwise_append.mp ordered).2.2
  exact bytesFrom_append (fun earlier among => below earlier among record member) left

/-- A suffix that holds the first record is the whole list. -/
theorem suffix_eq_of_head {first : RetentionRecord} (ordered : Ordered (first :: rest))
    (suffix : left <:+ first :: rest) (member : first ∈ left) : left = first :: rest := by
  rcases suffix_cons_iff.mp suffix with whole | later
  · exact whole
  · have beyond := (pairwise_cons.mp ordered).1 first (later.subset member)
    omega

variable (policy : RetentionPolicy) (nowMs : ℕ)

/-- The bookkeeping the age limit leaves. -/
def keptByAge (records : List RetentionRecord) :
    List RetentionRecord :=
  match policy.maxAgeMs with
  | some maxAgeMs => trim (fun _ record => decide (maxAgeMs < nowMs - record.timestampMs)) records
  | none => records

/-- The bookkeeping the size limit leaves. -/
def keptBySize (records : List RetentionRecord) : List RetentionRecord :=
  match policy.maxBytes with
  | some maxBytes => trim (fun retained _ => decide (maxBytes < retained)) records
  | none => records

/-- The bookkeeping the policy leaves. -/
def keptBy (records : List RetentionRecord) :
    List RetentionRecord :=
  keptBySize policy (keptByAge policy nowMs records)

theorem keptByAge_suffix (records : List RetentionRecord) :
    keptByAge policy nowMs records <:+ records := by
  unfold keptByAge
  split
  · exact trim_suffix _ records
  · exact suffix_rfl

theorem keptBy_suffix (records : List RetentionRecord) :
    keptBy policy nowMs records <:+ records := by
  have aged := keptByAge_suffix policy nowMs records
  unfold keptBy keptBySize
  split
  · exact (trim_suffix _ _).trans aged
  · exact aged

theorem mem_keptByAge (ordered : Ordered records) (policy : RetentionPolicy) (nowMs : ℕ) :
    record ∈ keptByAge policy nowMs records ↔ record ∈ records ∧
      ∀ maxAgeMs ∈ policy.maxAgeMs, ∃ earlier ∈ records,
        earlier.offset ≤ record.offset ∧ nowMs - earlier.timestampMs ≤ maxAgeMs := by
  unfold keptByAge
  cases policy.maxAgeMs with
  | none => simp
  | some maxAgeMs =>
    rw [mem_trim_age ordered (fun earlier => decide (maxAgeMs < nowMs - earlier.timestampMs))]
    simp

/-- A record survives both limits exactly when it survives each of them on the
whole bookkeeping. -/
theorem mem_keptBy (ordered : Ordered records) (policy : RetentionPolicy) (nowMs : ℕ) :
    record ∈ keptBy policy nowMs records ↔ record ∈ keptByAge policy nowMs records ∧
      ∀ maxBytes ∈ policy.maxBytes, bytesFrom record.offset records ≤ maxBytes := by
  have suffix := keptByAge_suffix policy nowMs records
  unfold keptBy keptBySize
  cases policy.maxBytes with
  | none => simp
  | some maxBytes =>
    rw [mem_trim_size (ordered.sublist suffix.sublist)]
    simp only [Option.mem_some_iff, forall_eq']
    refine and_congr_right (fun member => ?_)
    rw [bytesFrom_suffix ordered suffix member]

end Limits

/-! ### The plan of one log -/

variable {log : PartitionLog} {policy : RetentionPolicy} {nowMs : ℕ}

theorem enforceRetention_counts (policy : RetentionPolicy) (nowMs : ℕ)
    (counts : log.Counts records) :
    (log.enforceRetention policy nowMs).1.Counts (keptBy policy nowMs records) := by
  have aged : (match policy.maxAgeMs with
      | some maxAgeMs => removeWhile
          (fun _ record => decide (maxAgeMs < nowMs - record.timestampMs)) log.retentionRecords log
      | none => log).Counts (keptByAge policy nowMs records) := by
    unfold keptByAge
    cases policy.maxAgeMs with
    | none => exact counts
    | some maxAgeMs => exact counts.removeWhile _
  unfold enforceRetention keptBy keptBySize
  cases policy.maxBytes with
  | none => exact aged
  | some maxBytes => exact aged.removeWhile _

theorem Settled.counts (settled : log.Settled) : log.Counts (log.records.map retentionRecord) := by
  refine ⟨settled.records, ?_⟩
  rw [settled.bytes, totalBytes, map_map]
  rfl

theorem retentionRecords_ordered (log : PartitionLog) :
    Ordered (log.records.map retentionRecord) := by
  rw [Ordered, pairwise_map]
  exact log.increasing

/-- The earliest offset a suffix of the bookkeeping leaves lies at or below a
record's offset exactly when the suffix still has the record. -/
theorem earliestOffset_le_iff {left : List RetentionRecord} {record : RetentionRecord}
    (counted : log.retentionRecords = left) (ordered : Ordered records) (suffix : left <:+ records)
    (member : record ∈ records) (below : record.offset < log.nextOffset) :
    log.earliestOffset ≤ record.offset ↔ record ∈ left := by
  obtain ⟨front, rfl⟩ := suffix
  obtain ⟨_, leftOrdered, across⟩ := pairwise_append.mp ordered
  unfold earliestOffset
  rw [counted]
  cases left with
  | nil =>
    simp only [not_mem_nil, iff_false]
    omega
  | cons first rest =>
    simp only
    constructor
    · intro reaches
      rcases mem_append.mp member with early | late
      · have low := across record early first mem_cons_self
        omega
      · exact late
    · intro late
      rcases mem_cons.mp late with rfl | later
      · exact le_rfl
      · exact ((pairwise_cons.mp leftOrdered).1 record later).le

/-- A record at the offset outlives the policy: some record up to it is young
enough, and the records from it on fit. -/
structure Survives (log : PartitionLog) (policy : RetentionPolicy) (nowMs offset : ℕ) :
    Prop where
  age : ∀ maxAgeMs ∈ policy.maxAgeMs, ∃ record ∈ log.records,
    record.offset ≤ offset ∧ nowMs - record.timestampMs ≤ maxAgeMs
  size : ∀ maxBytes ∈ policy.maxBytes,
    ((log.records.filter (fun record => decide (offset ≤ record.offset))).map
      StoredEnvelope.batchBytes).sum ≤ maxBytes

variable {record : StoredEnvelope}

theorem mem_keptBy_iff_survives (member : record ∈ log.records) :
    retentionRecord record ∈ keptBy policy nowMs (log.records.map retentionRecord) ↔
      log.Survives policy nowMs record.offset := by
  have ordered := log.retentionRecords_ordered
  have listed : retentionRecord record ∈ log.records.map retentionRecord :=
    mem_map_of_mem member
  rw [mem_keptBy ordered, mem_keptByAge ordered, bytesFrom, totalBytes, filter_map,
    map_map]
  constructor
  · rintro ⟨⟨_, age⟩, size⟩
    refine ⟨?_, size⟩
    intro maxAgeMs limited
    obtain ⟨earlier, among, upTo, young⟩ := age maxAgeMs limited
    obtain ⟨stored, storedIn, rfl⟩ := mem_map.mp among
    exact ⟨stored, storedIn, upTo, young⟩
  · intro survives
    refine ⟨⟨listed, ?_⟩, survives.size⟩
    intro maxAgeMs limited
    obtain ⟨stored, storedIn, upTo, young⟩ := survives.age maxAgeMs limited
    exact ⟨retentionRecord stored, mem_map_of_mem storedIn, upTo, young⟩

/-- When the earliest offset did not move, nothing was forgotten. -/
theorem keptBy_of_unmoved (settled : log.Settled)
    (below : ∀ record ∈ log.records, record.offset < log.nextOffset)
    (unmoved : (log.enforceRetention policy nowMs).2 = none) :
    keptBy policy nowMs (log.records.map retentionRecord) = log.records.map retentionRecord := by
  have planned := enforceRetention_counts policy nowMs settled.counts
  have same : (log.enforceRetention policy nowMs).1.earliestOffset = log.earliestOffset := by
    rw [enforceRetention_change] at unmoved
    by_contra moved
    rw [if_pos moved] at unmoved
    cases unmoved
  have suffix := keptBy_suffix policy nowMs (log.records.map retentionRecord)
  cases shape : log.records with
  | nil => simpa [shape] using suffix
  | cons first rest =>
    have member : first ∈ log.records := by simp [shape]
    have reaches : log.earliestOffset ≤ first.offset := by
      simp [earliestOffset, settled.records, shape, retentionRecord]
    have kept := (earliestOffset_le_iff planned.records log.retentionRecords_ordered suffix
      (mem_map_of_mem member) (by
        rw [(log.enforceRetention_forgets policy nowMs).nextOffset]
        exact below first member)).mp (same ▸ reaches)
    have ordered := log.retentionRecords_ordered
    rw [shape] at kept suffix ordered
    exact suffix_eq_of_head ordered suffix kept

/-- The planned change spares a record exactly when the record outlives the policy. -/
theorem enforceRetention_spares_iff (settled : log.Settled)
    (below : ∀ record ∈ log.records, record.offset < log.nextOffset)
    (member : record ∈ log.records) :
    (∀ earliest ∈ (log.enforceRetention policy nowMs).2, earliest ≤ record.offset) ↔
      log.Survives policy nowMs record.offset := by
  have planned := enforceRetention_counts policy nowMs settled.counts
  rw [← mem_keptBy_iff_survives member]
  cases change : (log.enforceRetention policy nowMs).2 with
  | none =>
    rw [keptBy_of_unmoved settled below change]
    simpa using mem_map_of_mem member
  | some earliest =>
    have moved : (log.enforceRetention policy nowMs).1.earliestOffset = earliest := by
      rw [enforceRetention_change] at change
      split at change
      · exact Option.some.inj change
      · cases change
    rw [← earliestOffset_le_iff planned.records log.retentionRecords_ordered
      (keptBy_suffix policy nowMs _) (mem_map_of_mem member) (by
        rw [(log.enforceRetention_forgets policy nowMs).nextOffset]
        exact below record member), moved]
    simp [retentionRecord]

/-- A log whose earliest offset did not move is still settled. -/
theorem Settled.unmoved (settled : log.Settled)
    (below : ∀ record ∈ log.records, record.offset < log.nextOffset)
    (unmoved : (log.enforceRetention policy nowMs).2 = none) :
    (log.enforceRetention policy nowMs).1.Settled := by
  have planned := enforceRetention_counts policy nowMs settled.counts
  rw [keptBy_of_unmoved settled below unmoved] at planned
  have records := (log.enforceRetention_forgets policy nowMs).records
  refine ⟨by rw [planned.records, records], ?_⟩
  rw [planned.bytes, records, ← settled.bytes, settled.counts.bytes]

end Morrow.PartitionLog
