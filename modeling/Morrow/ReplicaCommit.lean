import Morrow.ReplicaRuns

/-!
# The partition-local commit protocol

A commit names the last record it covers. Against the partition's current commit
it must not go back in epoch or generation, nor, within an epoch, in watermark,
and the records in between must be stored. Two inputs break the protocol. A
request of a later epoch whose watermark does not lie beyond the current one makes
the interval query cross its bounds and stops the thread. And when the journal is
due for a checkpoint and rewriting it fails, the call returns an error after the
new metadata was installed. On every other input of every reachable store the
call returns, moves forward or changes nothing, and covers only stored records.
-/

namespace Morrow.ReplicaDataStore

open OrderedMap Option

variable {store : ReplicaDataStore} {ref : PartitionRef}

/-! ### What leaves the commits alone -/

theorem rewriteKept_commits (store : ReplicaDataStore) (ref : PartitionRef) (keep : ℕ → Bool)
    (unavailable : String) (floor : Option ℕ) :
    (store.rewriteKept ref keep unavailable floor).1.commits = store.commits := by
  unfold rewriteKept
  simp only
  split
  · rfl
  · split <;> rfl

theorem appendInner_commits (store : ReplicaDataStore) (request : DataAppendRequest)
    (flush : Bool) : (store.appendInner request flush).1.commits = store.commits := by
  apply appendInner_keeps (fun next => next.commits = store.commits) request flush rfl
  · unfold truncateSuffix
    split
    · exact rewriteKept_commits _ _ _ _ _
    · rfl
  · intro middle next same stored
    rcases storeRecord_cases stored with rfl | ⟨logs, _, _, rfl⟩ <;> exact same

theorem appendBatch_commits (store : ReplicaDataStore) (limits : BatchLimits)
    (requests : List DataAppendRequest) :
    (store.appendBatch limits requests).1.commits = store.commits :=
  appendBatch_keeps (fun next => next.commits = store.commits) limits requests
    (fun request _ middle same => (appendInner_commits middle request false).trans same) rfl

theorem enforceRetention_commits (store : ReplicaDataStore) (streams : List StreamDefinition)
    (nowMs : ℕ) : (store.enforceRetention streams nowMs).1.commits = store.commits :=
  applyRetentions_keeps (fun next => next.commits = store.commits) _
    (fun middle _ same => (rewriteKept_commits middle _ _ _ _).trans same) rfl

/-! ### The checks of a commit -/

/-- The named record is stored with the requested checksum. -/
def RecordMatches (store : ReplicaDataStore) (request : DataCommitRequest) : Prop :=
  store.storedChecksum request.ref request.highWatermark = some request.checksum

variable (request : DataCommitRequest)

theorem checkCommitRecord_ok :
    store.checkCommitRecord request = .ok () ↔ store.RecordMatches request := by
  unfold checkCommitRecord RecordMatches storedChecksum
  cases listed : (store.index request.ref).get? request.highWatermark with
  | none => simp
  | some record =>
    cases loaded : store.logs.loadEnvelope request.ref record.offset with
    | none => simp [loaded]
    | some envelope => simp [loaded]

theorem checkCommitRecord_not_panicked :
    store.checkCommitRecord request ≠ .error .panicked := by
  unfold checkCommitRecord
  split
  · simp
  · split
    · simp
    · unfold ensure
      split <;> simp

variable {request : DataCommitRequest}

/-- A matching record is stored, so its offset is a machine word. -/
theorem Coherent.recordMatches_word (coherent : store.Coherent)
    (isStored : store.RecordMatches request) :
    (store.index request.ref).contains request.highWatermark = true ∧
      request.highWatermark < u64Max := by
  obtain ⟨entry, listed, rest⟩ := bind_eq_some_iff.mp isStored
  refine ⟨contains_iff.mpr ⟨entry, listed⟩, ?_⟩
  obtain ⟨_, record, member, atOffset⟩ := coherent.index_get? listed
  unfold contents at member
  cases found : store.logs.find request.ref with
  | none => simp [found] at member
  | some log =>
    rw [found] at member
    rw [← atOffset]
    exact (coherent.kept request.ref log found).bounded record member

/-- Every offset after `low` up to `high` is indexed. -/
def Covers (store : ReplicaDataStore) (ref : PartitionRef) (low high : ℕ) : Prop :=
  ∀ offset, low < offset → offset ≤ high → (store.index ref).contains offset = true

variable {current : PartitionCommitMetadata}

/-- The interval check stops the thread below the next offset; otherwise it
accepts exactly the covered intervals. -/
theorem checkContiguous_cases
    (listed : (store.index request.ref).contains request.highWatermark = true)
    (requestWord : request.highWatermark ≤ u64Max) (currentWord : current.highWatermark ≤ u64Max) :
    (request.highWatermark < saturatingSucc current.highWatermark ∧
        store.checkContiguous request current = .error .panicked) ∨
      (saturatingSucc current.highWatermark ≤ request.highWatermark ∧
        ((store.Covers request.ref current.highWatermark request.highWatermark ∧
            store.checkContiguous request current = .ok ()) ∨
          (¬ store.Covers request.ref current.highWatermark request.highWatermark ∧
            ∃ message, store.checkContiguous request current = .error (.error message)))) := by
  unfold checkContiguous
  by_cases single : request.highWatermark = saturatingSucc current.highWatermark
  · refine .inr ⟨single.ge, .inl ⟨?_, if_pos single⟩⟩
    intro offset above upTo
    have bound := saturatingSucc_le current.highWatermark
    obtain rfl : offset = request.highWatermark := by omega
    exact listed
  · rw [if_neg single]
    by_cases crossed : request.highWatermark < saturatingSucc current.highWatermark
    · exact .inl ⟨crossed, by simp [countRange, if_pos crossed]⟩
    · have beyond : current.highWatermark < u64Max := by
        by_contra full
        have atMost : saturatingSucc current.highWatermark = u64Max := if_neg full
        omega
      have succ := saturatingSucc_of_lt beyond
      obtain ⟨count, high⟩ : ∃ count, request.highWatermark = current.highWatermark + count :=
        ⟨request.highWatermark - current.highWatermark, by omega⟩
      have full := range_full (store.index request.ref) current.highWatermark count
      refine .inr ⟨not_lt.mp crossed, ?_⟩
      rw [succ] at crossed ⊢
      simp only [countRange, if_neg crossed]
      rw [show request.highWatermark - current.highWatermark = count by omega, high]
      by_cases covered : store.Covers request.ref current.highWatermark
          (current.highWatermark + count)
      · exact .inl ⟨covered, ensure_of (full.mpr covered)⟩
      · exact .inr ⟨covered, _, ensure_of_not (fun counted => covered (full.mp counted))⟩

/-- A request goes on from the current commit: not back in generation, forward in
the watermark of one epoch or into a later epoch, over stored records only. -/
def Advances (store : ReplicaDataStore) (request : DataCommitRequest)
    (current : PartitionCommitMetadata) : Prop :=
  current.replicaSetGeneration ≤ request.replicaSetGeneration ∧
    (current.leaderEpoch < request.leaderEpoch ∨
      (current.leaderEpoch = request.leaderEpoch ∧ current.highWatermark < request.highWatermark)) ∧
    saturatingSucc current.highWatermark ≤ request.highWatermark ∧
    store.Covers request.ref current.highWatermark request.highWatermark

/-- A request of a later epoch does not lie beyond the current watermark. -/
def Rewinds (request : DataCommitRequest) (current : PartitionCommitMetadata) : Prop :=
  current.replicaSetGeneration ≤ request.replicaSetGeneration ∧
    current.leaderEpoch < request.leaderEpoch ∧
    request.highWatermark < saturatingSucc current.highWatermark

/-- A request repeats the current commit's epoch and watermark. -/
def Repeats (request : DataCommitRequest) (current : PartitionCommitMetadata) : Prop :=
  current.replicaSetGeneration ≤ request.replicaSetGeneration ∧
    current.leaderEpoch = request.leaderEpoch ∧ current.highWatermark = request.highWatermark

/-- The comparison with the current commit stops the thread, reports a repeated
commit, accepts an advance, or refuses with a message. -/
theorem checkCurrent_cases
    (listed : (store.index request.ref).contains request.highWatermark = true)
    (requestWord : request.highWatermark < u64Max) (currentWord : current.highWatermark ≤ u64Max) :
    (Rewinds request current ∧ store.checkCurrent request current = .error .panicked) ∨
      (Repeats request current ∧ store.checkCurrent request current = .ok true) ∨
      (store.Advances request current ∧ store.checkCurrent request current = .ok false) ∨
      (¬ Rewinds request current ∧ ¬ store.Advances request current ∧
        ∃ message, store.checkCurrent request current = .error (.error message)) := by
  unfold checkCurrent Rewinds Repeats Advances
  by_cases epoch : current.leaderEpoch ≤ request.leaderEpoch
  swap
  · exact .inr (.inr (.inr ⟨by omega, by omega, _, by rw [ensure_of_not epoch]; rfl⟩))
  by_cases generation : current.replicaSetGeneration ≤ request.replicaSetGeneration
  swap
  · exact .inr (.inr (.inr ⟨by omega, by omega, _, by
      rw [ensure_of epoch, ensure_of_not generation]; rfl⟩))
  simp only [ensure_of epoch, ensure_of generation]
  have interval := checkContiguous_cases listed requestWord.le currentWord
  by_cases sameEpoch : request.leaderEpoch = current.leaderEpoch
  · simp only [if_pos sameEpoch]
    by_cases forward : current.highWatermark ≤ request.highWatermark
    swap
    · exact .inr (.inr (.inr ⟨by omega, by omega, _, by rw [ensure_of_not forward]; rfl⟩))
    simp only [ensure_of forward]
    by_cases sameWatermark : request.highWatermark = current.highWatermark
    · simp only [if_pos sameWatermark]
      by_cases sameBytes : request.checksum = current.checksum
      · exact .inr (.inl ⟨⟨generation, sameEpoch.symm, sameWatermark.symm⟩, by
          rw [ensure_of sameBytes]; rfl⟩)
      · exact .inr (.inr (.inr ⟨by omega, by omega, _, by rw [ensure_of_not sameBytes]; rfl⟩))
    · simp only [if_neg sameWatermark]
      have succ : saturatingSucc current.highWatermark = current.highWatermark + 1 :=
        saturatingSucc_of_lt (by omega)
      rcases interval with ⟨crossed, _⟩ | ⟨beyond, ⟨covered, accepted⟩ | ⟨gap, message, refused⟩⟩
      · omega
      · exact .inr (.inr (.inl ⟨⟨generation, .inr ⟨sameEpoch.symm, by omega⟩, beyond,
          covered⟩, by rw [accepted]; rfl⟩))
      · exact .inr (.inr (.inr ⟨by omega, fun advances => gap advances.2.2.2, message, by
          rw [refused]; rfl⟩))
  · simp only [if_neg sameEpoch]
    have later : current.leaderEpoch < request.leaderEpoch := by omega
    rcases interval with
      ⟨crossed, stopped⟩ | ⟨beyond, ⟨covered, accepted⟩ | ⟨gap, message, refused⟩⟩
    · exact .inl ⟨⟨generation, later, crossed⟩, by rw [stopped]; rfl⟩
    · exact .inr (.inr (.inl ⟨⟨generation, .inl later, beyond, covered⟩, by
        rw [accepted]; rfl⟩))
    · exact .inr (.inr (.inr ⟨by omega, fun advances => gap advances.2.2.2, message, by
        rw [refused]; rfl⟩))

/-! ### Commits of a reachable store -/

/-- Reading the metadata after a commit: nothing, or the request's metadata under
its partition. -/
theorem installCommit_commits (store : ReplicaDataStore) (request : DataCommitRequest)
    (io : CommitIo) :
    (store.installCommit request io).1.commits = store.commits ∨
      (store.installCommit request io).1.commits =
        store.commits.insert request.ref.key request.metadata := by
  unfold installCommit
  split
  · exact .inl rfl
  · right
    simp only
    split
    · split <;> rfl
    · rfl

/-- The watermarks of a store are machine words. -/
def Words (store : ReplicaDataStore) : Prop :=
  ∀ key commit, store.commits.get? key = some commit → commit.highWatermark ≤ u64Max

theorem words_insert {commits : PartitionCommits} (key : String)
    (metadata : PartitionCommitMetadata)
    (words : ∀ key commit, commits.get? key = some commit → commit.highWatermark ≤ u64Max)
    (word : metadata.highWatermark ≤ u64Max) :
    ∀ tested commit, (commits.insert key metadata).get? tested = some commit →
      commit.highWatermark ≤ u64Max := by
  intro tested commit found
  rcases get?_insert_eq_some.mp found with ⟨-, rfl⟩ | ⟨-, old⟩
  · exact word
  · exact words tested commit old

theorem replayCommits_words {history : List PartitionCommitRecord}
    (words : ∀ record ∈ history, record.highWatermark ≤ u64Max) :
    ∀ key commit, (history.foldl replayCommit (∅, false)).1.get? key = some commit →
      commit.highWatermark ≤ u64Max := by
  have run : ∀ (records : List PartitionCommitRecord) (state : PartitionCommits × Bool),
      (∀ record ∈ records, record.highWatermark ≤ u64Max) →
      (∀ key commit, state.1.get? key = some commit → commit.highWatermark ≤ u64Max) →
      ∀ key commit, (records.foldl replayCommit state).1.get? key = some commit →
        commit.highWatermark ≤ u64Max := by
    intro records
    induction records with
    | nil => exact fun state _ bounded => bounded
    | cons record records ih =>
      intro state recordWords bounded
      rw [List.forall_mem_cons] at recordWords
      apply ih _ recordWords.2
      have own := words_insert record.ref.key record.metadata bounded recordWords.1
      unfold replayCommit
      simp only
      split
      · split
        · exact own
        · exact bounded
      · exact own
  exact run history (∅, false) words (by simp)

/-- A refused or stopped commit leaves the store as it was, unless it got as far
as the journal. -/
theorem commit_cases (coherent : store.Coherent) (words : store.Words)
    (request : DataCommitRequest) (io : CommitIo) :
    (store.RecordMatches request ∧
        (∃ current, store.commits.get? request.ref.key = some current ∧ Rewinds request current) ∧
        store.commit request io = (store, .error .panicked)) ∨
      ((store.RecordMatches request → ∃ current,
          store.commits.get? request.ref.key = some current ∧ ¬ Rewinds request current ∧
            ¬ store.Advances request current) ∧
        ∃ message, store.commit request io = (store, .error (.error message))) ∨
      (∃ current, store.commits.get? request.ref.key = some current ∧ Repeats request current ∧
        store.commit request io = (store, .ok ⟨request.highWatermark, true⟩)) ∨
      (store.RecordMatches request ∧
        (∀ current, store.commits.get? request.ref.key = some current →
          store.Advances request current) ∧
        store.commit request io = store.installCommit request io) := by
  unfold commit
  by_cases isStored : store.RecordMatches request
  swap
  · right; left
    have refused : ∃ message, store.checkCommitRecord request = .error (.error message) := by
      cases outcome : store.checkCommitRecord request with
      | ok done => exact absurd (checkCommitRecord_ok request |>.mp outcome) isStored
      | error failure =>
        cases failure with
        | error message => exact ⟨message, rfl⟩
        | panicked => exact absurd outcome (checkCommitRecord_not_panicked request)
    obtain ⟨message, refused⟩ := refused
    exact ⟨fun matched => absurd matched isStored, message, by simp only [refused, error_bind]⟩
  obtain ⟨listed, requestWord⟩ := coherent.recordMatches_word isStored
  have accepted := (checkCommitRecord_ok request).mpr isStored
  cases committed : store.commits.get? request.ref.key with
  | none =>
    right; right; right
    refine ⟨isStored, by simp, ?_⟩
    simp only [accepted]
    rfl
  | some current =>
    have currentWord := words _ current committed
    rcases checkCurrent_cases listed requestWord currentWord with
      ⟨rewinds, outcome⟩ | ⟨repeats, outcome⟩ | ⟨advances, outcome⟩ |
        ⟨notRewinds, notAdvances, message, outcome⟩
    · exact .inl ⟨isStored, ⟨current, rfl, rewinds⟩, by simp only [accepted, ok_bind, outcome]⟩
    · exact .inr (.inr (.inl ⟨current, rfl, repeats, by
        simp only [accepted, ok_bind, outcome]⟩))
    · refine .inr (.inr (.inr ⟨isStored, ?_, by simp only [accepted, ok_bind, outcome]⟩))
      rintro other ⟨⟩
      exact advances
    · exact .inr (.inl ⟨fun _ => ⟨current, rfl, notRewinds, notAdvances⟩, message, by
        simp only [accepted, ok_bind, outcome]⟩)

theorem Words.commit (words : store.Words) (coherent : store.Coherent)
    (request : DataCommitRequest) (io : CommitIo) : (store.commit request io).1.Words := by
  rcases commit_cases coherent words request io with
    ⟨_, _, result⟩ | ⟨_, _, result⟩ | ⟨_, _, _, result⟩ | ⟨isStored, _, result⟩ <;> rw [result]
  · exact words
  · exact words
  · exact words
  · unfold Words
    rcases store.installCommit_commits request io with same | inserted
    · rw [same]
      exact words
    · rw [inserted]
      exact words_insert _ _ words (coherent.recordMatches_word isStored).2.le

theorem Reachable.words (reached : Reachable store) : store.Words := by
  induction reached with
  | opened bytes _ _ words => exact replayCommits_words words
  | @step earlier call wellFormed before ih =>
    unfold Words at *
    cases call with
    | append request =>
      simp only [after, appendInner_commits]
      exact ih
    | appendBatch limits requests =>
      simp only [after, appendBatch_commits]
      exact ih
    | commit request io =>
      exact Words.commit ih before.coherent request io
    | enforceRetention streams nowMs =>
      simp only [after, enforceRetention_commits]
      exact ih
    | activatePartition ref reserved opened =>
      simp only [after]
      split <;> exact ih

/-! ### The protocol -/

/-- A commit returns. After a success the partition is committed, not below its
earlier watermark, epoch and generation, and every offset in between is stored;
after an error the commits are what they were. -/
structure CommitProtocol (store : ReplicaDataStore) (request : DataCommitRequest)
    (io : CommitIo) : Prop where
  returns : (store.commit request io).2 ≠ .error .panicked
  monotone : ∀ response, (store.commit request io).2 = .ok response →
    ∃ new, (store.commit request io).1.commits.get? request.ref.key = some new ∧
      ∀ old, store.commits.get? request.ref.key = some old →
        old.highWatermark ≤ new.highWatermark ∧ old.leaderEpoch ≤ new.leaderEpoch ∧
          old.replicaSetGeneration ≤ new.replicaSetGeneration ∧
          ∀ offset, old.highWatermark < offset → offset ≤ new.highWatermark →
            ∃ record ∈ (store.commit request io).1.contents request.ref, record.offset = offset
  unchanged : ∀ message, (store.commit request io).2 = .error (.error message) →
    (store.commit request io).1.commits = store.commits

/-- The request is accepted, makes the journal due for a checkpoint, and the
checkpoint cannot be written. -/
def CheckpointFails (store : ReplicaDataStore) (request : DataCommitRequest)
    (io : CommitIo) : Prop :=
  store.RecordMatches request ∧
    (∀ current, store.commits.get? request.ref.key = some current →
      store.Advances request current) ∧
    (∃ bytes, io.appendJournal = .ok bytes ∧
      (commitCheckpointRecords ≤ saturatingSucc store.commitRecords ∨
        commitCheckpointBytes ≤ saturatingAdd store.commitBytes bytes)) ∧
    ∃ message, io.rewriteJournal = .error message

/-- The metadata of an accepted request differs from the metadata it replaces. -/
theorem accepted_changes
    (advances : ∀ current, store.commits.get? request.ref.key = some current →
      store.Advances request current) :
    store.commits.insert request.ref.key request.metadata ≠ store.commits := by
  intro same
  have current : store.commits.get? request.ref.key = some request.metadata := by
    rw [← same, get?_insert_self]
  rcases (advances _ current).2.1 with later | ⟨_, above⟩
  · exact lt_irrefl _ later
  · exact lt_irrefl _ above

theorem Coherent.covered (coherent : store.Coherent) {low high : ℕ}
    (covers : store.Covers ref low high) {offset : ℕ} (above : low < offset)
    (upTo : offset ≤ high) : ∃ record ∈ store.contents ref, record.offset = offset := by
  obtain ⟨entry, listed⟩ := contains_iff.mp (covers offset above upTo)
  exact (coherent.index_get? listed).2

/-- An accepted request installs its metadata and succeeds, unless the journal
fails. -/
theorem installCommit_cases (store : ReplicaDataStore) (request : DataCommitRequest)
    (io : CommitIo) :
    (∃ message, io.appendJournal = .error message ∧
        store.installCommit request io = (store, .error (.error message))) ∨
      (∃ bytes, io.appendJournal = .ok bytes ∧
        (commitCheckpointRecords ≤ saturatingSucc store.commitRecords ∨
          commitCheckpointBytes ≤ saturatingAdd store.commitBytes bytes) ∧
        ∃ message, io.rewriteJournal = .error message ∧
          (store.installCommit request io).2 = .error (.error message) ∧
          (store.installCommit request io).1.commits =
            store.commits.insert request.ref.key request.metadata) ∨
      (¬ ((∃ bytes, io.appendJournal = .ok bytes ∧
          (commitCheckpointRecords ≤ saturatingSucc store.commitRecords ∨
            commitCheckpointBytes ≤ saturatingAdd store.commitBytes bytes)) ∧
          ∃ message, io.rewriteJournal = .error message) ∧
        (store.installCommit request io).2 = .ok ⟨request.highWatermark, true⟩ ∧
        (store.installCommit request io).1.commits =
          store.commits.insert request.ref.key request.metadata) := by
  cases appended : io.appendJournal with
  | error message => exact .inl ⟨message, rfl, by simp only [installCommit, appended]⟩
  | ok bytes =>
    right
    by_cases due : commitCheckpointRecords ≤ saturatingSucc store.commitRecords ∨
        commitCheckpointBytes ≤ saturatingAdd store.commitBytes bytes
    · cases rewritten : io.rewriteJournal with
      | error message =>
        refine .inl ⟨bytes, rfl, due, message, rfl, ?_, ?_⟩ <;>
          simp only [installCommit, appended, if_pos due, rewritten]
      | ok length =>
        refine .inr ⟨by simp, ?_, ?_⟩ <;>
          simp only [installCommit, appended, if_pos due, rewritten]
    · refine .inr ⟨?_, ?_, ?_⟩
      · rintro ⟨⟨_, same, isDue⟩, _⟩
        obtain rfl := Except.ok.inj same
        exact due isDue
      · simp only [installCommit, appended, if_neg due]
      · simp only [installCommit, appended, if_neg due]

/-- An error that leaves the store alone is within the protocol. -/
theorem CommitProtocol.of_refused {io : CommitIo} {message : String}
    (result : store.commit request io = (store, .error (.error message))) :
    store.CommitProtocol request io := by
  constructor <;> rw [result] <;> simp

/-- The commit protocol holds of a request to a reachable store exactly when the
request does not rewind the watermark in a later epoch and does not run into a
checkpoint that cannot be written. -/
theorem commitProtocol_iff (reached : Reachable store) (request : DataCommitRequest)
    (io : CommitIo) :
    store.CommitProtocol request io ↔
      ¬ (store.RecordMatches request ∧ ∃ current,
          store.commits.get? request.ref.key = some current ∧ Rewinds request current) ∧
        ¬ store.CheckpointFails request io := by
  have coherent := reached.coherent
  rcases commit_cases coherent reached.words request io with
    ⟨isStored, rewinds, result⟩ | ⟨refuses, message, result⟩ |
      ⟨current, committed, repeats, result⟩ | ⟨isStored, advances, result⟩
  · refine iff_of_false (fun protocol => ?_) fun sound => sound.1 ⟨isStored, rewinds⟩
    exact absurd (by rw [result]) protocol.returns
  · refine iff_of_true (.of_refused result) ⟨?_, ?_⟩
    · rintro ⟨isStored, current, committed, rewinds⟩
      obtain ⟨other, found, notRewinds, _⟩ := refuses isStored
      rw [committed] at found
      exact notRewinds (some.inj found ▸ rewinds)
    · rintro ⟨isStored, advances, _⟩
      obtain ⟨current, committed, _, notAdvances⟩ := refuses isStored
      exact notAdvances (advances current committed)
  · obtain ⟨generation, epoch, watermark⟩ := repeats
    refine iff_of_true ⟨by rw [result]; simp, ?_, by rw [result]; simp⟩ ⟨?_, ?_⟩
    · rw [result]
      refine fun response _ => ⟨current, committed, fun old found => ?_⟩
      rw [committed] at found
      obtain rfl := some.inj found
      exact ⟨le_rfl, le_rfl, le_rfl, fun offset above upTo => absurd above (not_lt.mpr upTo)⟩
    · rintro ⟨_, other, found, _, later, _⟩
      rw [committed] at found
      obtain rfl := some.inj found
      omega
    · rintro ⟨_, advances, _⟩
      rcases (advances current committed).2.1 with later | ⟨_, above⟩ <;> omega
  · have noRewind : ¬ (store.RecordMatches request ∧ ∃ current,
        store.commits.get? request.ref.key = some current ∧ Rewinds request current) := by
      rintro ⟨_, current, committed, _, _, crossed⟩
      have beyond := (advances current committed).2.2.1
      omega
    rcases store.installCommit_cases request io with
      ⟨message, failed, installed⟩ | ⟨bytes, appended, due, message, failed, outcome, commits⟩ |
        ⟨noCheckpointFailure, outcome, commits⟩
    · refine iff_of_true (.of_refused (result.trans installed)) ⟨noRewind, ?_⟩
      rintro ⟨_, _, ⟨bytes, appended, _⟩, _⟩
      rw [failed] at appended
      cases appended
    · refine iff_of_false (fun protocol => ?_) fun sound =>
        sound.2 ⟨isStored, advances, ⟨bytes, appended, due⟩, message, failed⟩
      have same := protocol.unchanged message (by rw [result, outcome])
      rw [result, commits] at same
      exact absurd same (accepted_changes advances)
    · refine iff_of_true ?_ ⟨noRewind, fun fails => noCheckpointFailure ⟨fails.2.2.1, fails.2.2.2⟩⟩
      have answer : (store.commit request io).2 = .ok ⟨request.highWatermark, true⟩ := by
        rw [result, outcome]
      refine ⟨by rw [answer]; simp, fun response _ => ?_, by rw [answer]; simp⟩
      refine ⟨request.metadata, by rw [result, commits, get?_insert_self], fun old committed => ?_⟩
      obtain ⟨generation, forward, beyond, covers⟩ := advances old committed
      have contentsSame : (store.commit request io).1.contents request.ref =
          store.contents request.ref := by
        rw [contents, (store.commit_records request io).1, contents]
      refine ⟨?_, ?_, generation, ?_⟩
      · have word := reached.words _ old committed
        change old.highWatermark ≤ request.highWatermark
        unfold saturatingSucc at beyond
        split at beyond <;> omega
      · change old.leaderEpoch ≤ request.leaderEpoch
        omega
      · intro offset above upTo
        rw [contentsSame]
        exact coherent.covered covers above upTo

/-! ### A partition committed at offset zero -/

/-- One stored record, committed in epoch one. -/
def committedOnce : ReplicaDataStore :=
  openForPartitions (Sample.logs Sample.singleRecordLog)
    [⟨Sample.ref, 1, 1, 1, 0, (Sample.record 0 7).checksum⟩] 0

theorem committedOnce_reachable : Reachable committedOnce :=
  Sample.opened_reachable Sample.singleRecordLog_kept (Sample.log_settled _ _ _ _) (by simp)

/-- The record at offset zero, committed again by the leader of an epoch. -/
def recommit (leaderEpoch : ℕ) : DataCommitRequest where
  leaderId := 1
  leaderEpoch := leaderEpoch
  replicaSetGeneration := 1
  ref := Sample.ref
  highWatermark := 0
  checksum := (Sample.record 0 7).checksum
  fsync := true

def journalWorks : CommitIo := ⟨.ok 100, .ok 100⟩

/-- Repeating a commit within its epoch is within the protocol. -/
theorem commitProtocol_repeated :
    Reachable committedOnce ∧ committedOnce.CommitProtocol (recommit 1) journalWorks := by
  refine ⟨committedOnce_reachable, (commitProtocol_iff committedOnce_reachable _ _).mpr ⟨?_, ?_⟩⟩
  · rintro ⟨_, current, committed, _, later, _⟩
    obtain rfl := some.inj committed
    exact absurd later (by decide)
  · rintro ⟨_, _, _, message, failed⟩
    cases failed

/-- A new leader that commits the same record again stops the replica. -/
theorem later_epoch_recommit_panics :
    Reachable committedOnce ∧
      (committedOnce.commit (recommit 2) journalWorks).2 = .error .panicked ∧
      ¬ committedOnce.CommitProtocol (recommit 2) journalWorks := by
  have stopped : (committedOnce.commit (recommit 2) journalWorks).2 = .error .panicked := by
    decide +kernel
  exact ⟨committedOnce_reachable, stopped, fun protocol => protocol.returns stopped⟩

end Morrow.ReplicaDataStore
