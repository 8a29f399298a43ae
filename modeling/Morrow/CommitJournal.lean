import Morrow.ReplicaRuns

/-!
# Trust in the commit journal

Opening a store replays the commit journal. For every partition the first record
with the latest epoch and, within it, the highest watermark wins. The replay also
notices a record that repeats the current winner's epoch and watermark with
another checksum or replica set. The flag it sets is then assigned again from a
comparison of the winning commits with the stored records, so a journal that
contradicts itself is refused only when a winner happens to contradict the log as
well. A journal without such a pair whose winners match the log is never refused.
-/

namespace Morrow.ReplicaDataStore

open OrderedMap List

/-- Two journal records commit the same partition, epoch and watermark to
different bytes or different replica sets. -/
def Contradicts (first second : PartitionCommitRecord) : Prop :=
  first.ref = second.ref ∧ first.leaderEpoch = second.leaderEpoch ∧
    first.highWatermark = second.highWatermark ∧
    (first.checksum ≠ second.checksum ∨ first.replicaSetGeneration ≠ second.replicaSetGeneration)

variable (history : List PartitionCommitRecord)

/-- The journal contradicts itself. -/
def Conflicting : Prop :=
  ∃ first ∈ history, ∃ second ∈ history, Contradicts first second

/-- A record wins its partition: it goes beyond all records of the partition
before it, and none after it goes beyond it. -/
def Wins (record : PartitionCommitRecord) : Prop :=
  ∃ earlier later, history = earlier ++ record :: later ∧
    (∀ other ∈ earlier, other.ref = record.ref → supersedes record.metadata other.metadata = true) ∧
    ∀ other ∈ later, other.ref = record.ref → supersedes other.metadata record.metadata = false

theorem supersedes_trans {first second third : PartitionCommitMetadata}
    (later : supersedes third second = true) (earlier : supersedes first second = false) :
    supersedes third first = true := by
  simp only [supersedes, decide_eq_true_eq, decide_eq_false_iff_not, not_or, not_and, not_lt] at *
  omega

theorem key_injective {left right : PartitionRef} (same : left.key = right.key) :
    left = right := partitionKey_injective left right same

/-! ### Replay of the journal -/

/-- The commits after a journal. -/
def replayedCommits : PartitionCommits :=
  (history.foldl replayCommit (∅, false)).1

/-- One record changes its own partition, and only when it wins there so far. -/
theorem replayCommit_get? (state : PartitionCommits × Bool) (record : PartitionCommitRecord)
    (key : String) :
    (replayCommit state record).1.get? key =
      if key = record.ref.key ∧
          ∀ current ∈ state.1.get? key, supersedes record.metadata current = true
      then some record.metadata else state.1.get? key := by
  unfold replayCommit
  simp only
  by_cases same : key = record.ref.key
  · subst same
    cases found : state.1.get? record.ref.key with
    | none => simp
    | some current =>
      by_cases beyond : supersedes record.metadata current = true
      · simp [beyond]
      · simp [beyond, found]
  · split
    · split
      · simp [get?_insert, same]
      · simp [same]
    · simp [get?_insert, same]

variable (history : List PartitionCommitRecord)

theorem replayedCommits_append (record : PartitionCommitRecord) (key : String) :
    (replayedCommits (history ++ [record])).get? key =
      if key = record.ref.key ∧
          ∀ current ∈ (replayedCommits history).get? key, supersedes record.metadata current = true
      then some record.metadata else (replayedCommits history).get? key := by
  rw [replayedCommits, foldl_append]
  exact replayCommit_get? _ record key

/-- No record of a partition goes beyond the partition's current commit. -/
theorem replayedCommits_bound (record : PartitionCommitRecord) (member : record ∈ history) :
    ∃ current, (replayedCommits history).get? record.ref.key = some current ∧
      supersedes record.metadata current = false := by
  induction history using List.reverseRecOn with
  | nil => cases member
  | append_singleton history last ih =>
    rw [replayedCommits_append]
    rcases mem_append.mp member with earlier | isLast
    · obtain ⟨current, found, bound⟩ := ih earlier
      split
      · rename_i winning
        refine ⟨last.metadata, rfl, ?_⟩
        have beyond := winning.2 current found
        simp only [supersedes, decide_eq_true_eq, decide_eq_false_iff_not] at *
        omega
      · exact ⟨current, found, bound⟩
    · obtain rfl := mem_singleton.mp isLast
      split
      · exact ⟨record.metadata, rfl, by simp [supersedes]⟩
      · rename_i losing
        have beaten : ∃ current, (replayedCommits history).get? record.ref.key = some current ∧
            ¬ supersedes record.metadata current = true := by
          by_contra none
          push Not at none
          exact losing ⟨rfl, none⟩
        obtain ⟨current, found, bound⟩ := beaten
        exact ⟨current, found, by simpa using bound⟩

/-- Every current commit comes from the record that wins its partition. -/
theorem replayedCommits_wins (key : String) (commit : PartitionCommitMetadata)
    (found : (replayedCommits history).get? key = some commit) :
    ∃ record, Wins history record ∧ record.ref.key = key ∧ record.metadata = commit := by
  induction history using List.reverseRecOn generalizing commit with
  | nil => simp [replayedCommits] at found
  | append_singleton history last ih =>
    rw [replayedCommits_append] at found
    split at found
    · rename_i winning
      obtain rfl := Option.some.inj found
      refine ⟨last, ⟨history, [], rfl, ?_, by simp⟩, winning.1.symm, rfl⟩
      intro other member sameRef
      obtain ⟨current, currentAt, bound⟩ := replayedCommits_bound history other member
      rw [sameRef, ← winning.1] at currentAt
      exact supersedes_trans (winning.2 current currentAt) bound
    · rename_i losing
      obtain ⟨record, ⟨earlier, later, rfl, before, after⟩, atKey, rfl⟩ :=
        ih commit found
      refine ⟨record, ⟨earlier, later ++ [last], by simp, before, ?_⟩, atKey, rfl⟩
      intro other member sameRef
      rcases mem_append.mp member with among | isLast
      · exact after other among sameRef
      · obtain rfl := mem_singleton.mp isLast
        by_contra beyond
        refine losing ⟨by rw [← atKey, sameRef], ?_⟩
        intro current currentAt
        rw [found] at currentAt
        obtain rfl := Option.some.inj currentAt
        simpa using beyond

/-- The record that wins its partition is the partition's current commit. -/
theorem Wins.replayed {history : List PartitionCommitRecord} {record : PartitionCommitRecord}
    (wins : Wins history record) :
    (replayedCommits history).get? record.ref.key = some record.metadata := by
  obtain ⟨earlier, later, shape, before, after⟩ := wins
  induction later using List.reverseRecOn generalizing history with
  | nil =>
    subst shape
    rw [replayedCommits_append, if_pos]
    refine ⟨rfl, ?_⟩
    intro current currentAt
    obtain ⟨other, ⟨front, rest, split, _, _⟩, sameKey, rfl⟩ :=
      replayedCommits_wins earlier _ current currentAt
    exact before other (by simp [split]) (key_injective sameKey)
  | append_singleton later last ih =>
    subst shape
    have kept := ih rfl (fun other member => after other (mem_append_left _ member))
    rw [show earlier ++ record :: (later ++ [last]) =
        (earlier ++ record :: later) ++ [last] by simp,
      replayedCommits_append, if_neg, kept]
    rintro ⟨sameKey, beyond⟩
    have notBeyond := after last (by simp) (key_injective sameKey.symm)
    rw [beyond _ kept] at notBeyond
    cases notBeyond

/-! ### What opening decides -/

/-- The checksum of the record stored at an offset of a partition's log. -/
def logChecksum (logs : OrderedMap PartitionRef PartitionLog) (ref : PartitionRef)
    (offset : ℕ) : Option ℕ :=
  (logs.get? ref).bind (fun log => (log.readOffset offset).map StoredEnvelope.checksum)

variable {logs : OrderedMap PartitionRef PartitionLog}

/-- A fresh store finds exactly the stored records behind its index. -/
theorem open_storedChecksum (owned : Owned logs) (history : List PartitionCommitRecord) (bytes : ℕ)
    (ref : PartitionRef) (offset : ℕ) :
    (openForPartitions logs history bytes).storedChecksum ref offset =
      logChecksum logs ref offset := by
  have indexed := open_index owned history bytes ref
  have loads : ∀ position, (openForPartitions logs history bytes).logs.loadEnvelope ref position =
      (logs.get? ref).bind (fun log => log.readOffset position) := by
    intro position
    rw [PartitionLogSet.loadEnvelope_eq, open_find]
  unfold storedChecksum logChecksum
  cases read : (logs.get? ref).bind (fun log => log.readOffset offset) with
  | none =>
    have absent : ((openForPartitions logs history bytes).index ref).get? offset = none := by
      apply Option.eq_none_iff_forall_ne_some.mpr
      intro entry listed
      rw [← mem_entries, indexed, mem_map] at listed
      obtain ⟨record, stored, same⟩ := listed
      have loaded := loadEnvelope_eq_some.mpr ⟨stored, (Prod.mk.inj same).1⟩
      rw [loads, read] at loaded
      cases loaded
    rw [absent]
    cases served : logs.get? ref with
    | none => rfl
    | some log =>
      rw [served, Option.bind_some] at read
      simp [read]
  | some record =>
    have loaded := (loads offset).trans read
    obtain ⟨stored, atOffset⟩ := loadEnvelope_eq_some.mp loaded
    have listed := indexed.get? stored
    rw [atOffset] at listed
    rw [listed]
    cases served : logs.get? ref with
    | none => rw [served] at read; cases read
    | some log =>
      rw [served, Option.bind_some] at read
      simp [MessageEnvelope.intoResidentMetadata, atOffset, loads, served, read]

/-- A winning record contradicts the record stored at its watermark. -/
def WinnerMismatch (logs : OrderedMap PartitionRef PartitionLog)
    (history : List PartitionCommitRecord) : Prop :=
  ∃ record, Wins history record ∧ ∃ checksum,
    logChecksum logs record.ref record.highWatermark = some checksum ∧ checksum ≠ record.checksum

/-- Opening marks the store exactly when a winning record contradicts the log. -/
theorem open_unsafe_iff (owned : Owned logs) (history : List PartitionCommitRecord) (bytes : ℕ) :
    (openForPartitions logs history bytes).unsafeCommits = true ↔ WinnerMismatch logs history := by
  have stored := open_storedChecksum owned history bytes
  have unfolded : (openForPartitions logs history bytes).unsafeCommits =
      (openForPartitions logs history bytes).commitMismatch := rfl
  have commits : (openForPartitions logs history bytes).commits = replayedCommits history := rfl
  simp only [unfolded, commitMismatch, commits, stored, any_eq_true]
  constructor
  · rintro ⟨⟨key, commit⟩, member, mismatch⟩
    obtain ⟨record, wins, rfl, rfl⟩ :=
      replayedCommits_wins history key commit (mem_entries.mp member)
    simp only [PartitionRef.key, parsePartitionKey_partitionKey] at mismatch
    refine ⟨record, wins, ?_⟩
    cases found : logChecksum logs record.ref record.highWatermark with
    | none =>
      rw [show record.metadata.highWatermark = record.highWatermark from rfl, found] at mismatch
      cases mismatch
    | some checksum =>
      rw [show record.metadata.highWatermark = record.highWatermark from rfl, found] at mismatch
      exact ⟨checksum, rfl, of_decide_eq_true mismatch⟩
  · rintro ⟨record, wins, checksum, found, mismatch⟩
    refine ⟨(record.ref.key, record.metadata), mem_entries.mpr wins.replayed, ?_⟩
    simp only [PartitionRef.key, parsePartitionKey_partitionKey]
    rw [show record.metadata.highWatermark = record.highWatermark from rfl, found]
    exact decide_eq_true mismatch

/-- A store refuses every metadata exactly when it is marked. -/
theorem hasCommittedPrefix_false_iff (store : ReplicaDataStore) :
    (∀ metadata, store.hasCommittedPrefix metadata = false) ↔ store.unsafeCommits = true := by
  constructor
  · intro refused
    simpa [hasCommittedPrefix] using refused ∅
  · intro marked metadata
    simp [hasCommittedPrefix, marked]

/-- A journal that contradicts itself is never trusted, and a journal that does
not, with winners that match the log, is. -/
structure JournalTrust (logs : OrderedMap PartitionRef PartitionLog)
    (history : List PartitionCommitRecord) (bytes : ℕ) : Prop where
  refused : Conflicting history →
    ∀ metadata, (openForPartitions logs history bytes).hasCommittedPrefix metadata = false
  accepted : ¬ Conflicting history →
    (∀ record, Wins history record → ∀ checksum,
      logChecksum logs record.ref record.highWatermark = some checksum →
        checksum = record.checksum) →
    (openForPartitions logs history bytes).unsafeCommits = false

/-- The journal is treated as it should be exactly when it does not contradict
itself or a winning record contradicts the log as well. -/
theorem journalTrust_iff {logs : OrderedMap PartitionRef PartitionLog} (owned : Owned logs)
    (history : List PartitionCommitRecord) (bytes : ℕ) :
    JournalTrust logs history bytes ↔ (¬ Conflicting history ∨ WinnerMismatch logs history) := by
  have marked := open_unsafe_iff owned history bytes
  constructor
  · intro trust
    by_cases conflicting : Conflicting history
    · right
      exact marked.mp ((hasCommittedPrefix_false_iff _).mp (trust.refused conflicting))
    · exact .inl conflicting
  · intro condition
    refine ⟨?_, ?_⟩
    · intro conflicting
      rcases condition with consistent | mismatch
      · exact absurd conflicting consistent
      · exact (hasCommittedPrefix_false_iff _).mpr (marked.mpr mismatch)
    · intro _ winnersMatch
      rw [Bool.eq_false_iff, ne_eq, marked]
      rintro ⟨record, wins, checksum, found, mismatch⟩
      exact mismatch (winnersMatch record wins checksum found)

/-! ### A journal with two commits of one record -/

open Sample (record ref singleRecordLog singleRecordLog_kept)

theorem singleRecordLogs_owned : Owned (Sample.logs singleRecordLog) := by
  intro ref log found
  obtain ⟨rfl, rfl⟩ := Sample.logs_get? found
  exact singleRecordLog_kept.owned

/-- A commit of the record at offset zero to some bytes. -/
def commitOf (checksum : ℕ) : PartitionCommitRecord := ⟨ref, 1, 1, 1, 0, checksum⟩

theorem commitOf_conflicting {first second : ℕ} (differ : first ≠ second) :
    Conflicting [commitOf first, commitOf second] :=
  ⟨_, mem_cons_self, _, mem_cons_of_mem _ mem_cons_self, rfl, rfl, rfl, .inl differ⟩

/-- The record is committed again in a later epoch: the journal is consistent, and trusted
as it should be. -/
theorem journalTrust_again :
    let again := { commitOf (record 0 7).checksum with leaderEpoch := 2 }
    Owned (Sample.logs singleRecordLog) ∧
      JournalTrust (Sample.logs singleRecordLog) [commitOf (record 0 7).checksum, again] 64 := by
  intro again
  refine ⟨singleRecordLogs_owned, (journalTrust_iff singleRecordLogs_owned _ 64).mpr (.inl ?_)⟩
  unfold Conflicting Contradicts
  decide +kernel

/-- Two commits of the same record to different bytes are accepted when the first
one matches the log. -/
theorem conflicting_journal_trusted :
    Conflicting [commitOf (record 0 7).checksum, commitOf 0] ∧
      (openForPartitions (Sample.logs singleRecordLog)
        [commitOf (record 0 7).checksum, commitOf 0] 64).hasCommittedPrefix
          ((∅ : PartitionCommits).insert ref.key
            (commitOf (record 0 7).checksum).metadata) = true ∧
      ¬ JournalTrust (Sample.logs singleRecordLog)
        [commitOf (record 0 7).checksum, commitOf 0] 64 := by
  have differ : (record 0 7).checksum ≠ 0 := by decide +kernel
  have conflicting := commitOf_conflicting differ
  have trusted : (openForPartitions (Sample.logs singleRecordLog)
      [commitOf (record 0 7).checksum, commitOf 0] 64).hasCommittedPrefix
        ((∅ : PartitionCommits).insert ref.key
          (commitOf (record 0 7).checksum).metadata) = true := by decide +kernel
  refine ⟨conflicting, trusted, fun trust => ?_⟩
  rw [trust.refused conflicting] at trusted
  cases trusted

end Morrow.ReplicaDataStore
