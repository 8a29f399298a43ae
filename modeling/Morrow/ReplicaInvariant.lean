import Morrow.ReplicaData

/-!
# What every call on a replica keeps

In a coherent store every log holds records of its own partition, every indexed
offset can be loaded, and the index of a configured partition lists exactly the
records of its log. A failed truncation of an activated partition shortens its
index and not its log, so there the index may list fewer records.

Appends keep coherence whatever their outcome. They go through two steps that
change the store, dropping a suffix and storing a record; the rule below reduces
an invariant of all appends to these two.
-/

namespace Morrow

open OrderedMap List PartitionLogSet Except

namespace PartitionLogSet

variable {set result : PartitionLogSet} {ref : PartitionRef} {envelope : StoredEnvelope}

theorem loadEnvelope_eq (set : PartitionLogSet) (ref : PartitionRef) (offset : ℕ) :
    set.loadEnvelope ref offset = (set.find ref).bind (fun log => log.readOffset offset) := by
  unfold loadEnvelope find
  cases set.logs.get? ref <;> rfl

theorem find_of_configured {log : PartitionLog} (configured : set.logs.get? ref = some log) :
    set.find ref = some log := by
  simp [find, configured]

/-- Replacing a configured log changes what is found at its own partition alone. -/
theorem find_insert_logs (set : PartitionLogSet) (ref tested : PartitionRef) (log : PartitionLog) :
    ({ set with logs := set.logs.insert ref log } : PartitionLogSet).find tested =
      if tested = ref then some log else set.find tested := by
  by_cases same : tested = ref <;> simp [find, get?_insert, same]

theorem find_insert_dynamic (set : PartitionLogSet) (ref tested : PartitionRef)
    (log : PartitionLog) (dynamic : set.logs.get? ref = none) :
    ({ set with dynamicLogs := set.dynamicLogs.insert ref log } : PartitionLogSet).find tested =
      if tested = ref then some log else set.find tested := by
  by_cases same : tested = ref
  · subst same
    simp [find, dynamic]
  · simp [find, get?_insert, same]

/-- A partition is served already, or an empty log is opened for it. -/
theorem activatePartition_cases {reserved : Bool} {opened : Outcome PartitionLog}
    (activated : set.activatePartition ref reserved opened = .ok result) :
    result = set ∨ ∃ log, opened = .ok log ∧ log.records = [] ∧ set.find ref = none ∧
      set.logs.get? ref = none ∧
      result = { set with dynamicLogs := set.dynamicLogs.insert ref log } := by
  unfold activatePartition at activated
  split at activated
  · exact .inl (ok.inj activated).symm
  · rename_i unserved
    have absent : set.find ref = none := by simpa using unserved
    obtain ⟨_, _, checked⟩ := bind_eq_ok.mp activated
    split at checked
    · cases checked
    · obtain ⟨log, isOpened, rest⟩ := bind_eq_ok.mp checked
      obtain ⟨_, empty, returned⟩ := bind_eq_ok.mp rest
      exact .inr ⟨log, isOpened, ensure_eq_ok.mp empty, absent,
        (Option.or_eq_none_iff.mp absent).1, (ok.inj returned).symm⟩

/-- An append goes to the log that serves the record's partition, and changes
what is found there alone. -/
theorem appendCommitted_cases (appended : set.appendCommitted envelope = .ok result) :
    ∃ log next, set.find envelope.ref = some log ∧ log.appendCommitted envelope = .ok next ∧
      (∀ tested, result.find tested =
        if tested = envelope.ref then some next else set.find tested) ∧
      (∀ tested, result.logs.get? tested =
        if tested = envelope.ref then (set.logs.get? tested).map (fun _ => next)
        else set.logs.get? tested) := by
  unfold appendCommitted at appended
  split at appended
  · rename_i log configured
    obtain ⟨next, stored, returned⟩ := bind_eq_ok.mp appended
    obtain rfl := ok.inj returned
    refine ⟨log, next, find_of_configured configured, stored,
      fun tested => find_insert_logs set envelope.ref tested next, ?_⟩
    intro tested
    by_cases same : tested = envelope.ref
    · simp [same, configured]
    · simp [get?_insert, same]
  · rename_i dynamic
    split at appended
    · rename_i log activated
      obtain ⟨next, stored, returned⟩ := bind_eq_ok.mp appended
      obtain rfl := ok.inj returned
      refine ⟨log, next, by simp [find, dynamic, activated], stored,
        fun tested => find_insert_dynamic set envelope.ref tested next dynamic, ?_⟩
      intro tested
      by_cases same : tested = envelope.ref <;> simp [same, dynamic]
    · cases appended

theorem appendCommitted_of_find {log next : PartitionLog}
    (found : set.find envelope.ref = some log) (stored : log.appendCommitted envelope = .ok next) :
    ∃ result, set.appendCommitted envelope = .ok result := by
  unfold find at found
  unfold appendCommitted
  cases configured : set.logs.get? envelope.ref with
  | some served =>
    rw [configured] at found
    obtain rfl := Option.some.inj found
    exact ⟨_, by simp only [stored]; rfl⟩
  | none =>
    rw [configured, Option.none_or] at found
    exact ⟨_, by simp only [found, stored]; rfl⟩

end PartitionLogSet

/-- A log stored under a partition: its own, with records of that partition, room
above every offset, and the next offset right after the last record. -/
structure PartitionLog.Kept (log : PartitionLog) (ref : PartitionRef) : Prop where
  keyed : log.ref = ref
  owned : ∀ record ∈ log.records, record.ref = ref
  bounded : ∀ record ∈ log.records, record.offset < u64Max
  tight : ∀ last ∈ log.records.getLast?, log.nextOffset = last.offset + 1

namespace ReplicaDataStore

/-- The records of the log that serves a partition. -/
def contents (store : ReplicaDataStore) (ref : PartitionRef) : List StoredEnvelope :=
  (store.logs.find ref).elim [] PartitionLog.records

/-- The index entry of a stored record. -/
def indexEntry (record : StoredEnvelope) : ℕ × MessageEnvelope :=
  (record.offset, record.intoResidentMetadata)

structure Coherent (store : ReplicaDataStore) : Prop where
  kept : ∀ ref log, store.logs.find ref = some log → log.Kept ref
  complete : ∀ ref log, store.logs.logs.get? ref = some log →
    (store.index ref).entries = log.records.map indexEntry
  sound : ∀ ref, ∀ entry ∈ (store.index ref).entries,
    entry.2.offset = entry.1 ∧ ∃ record ∈ store.contents ref, record.offset = entry.1

variable {store : ReplicaDataStore} {ref : PartitionRef}

variable {log : PartitionLog}

theorem contents_of_find (found : store.logs.find ref = some log) :
    store.contents ref = log.records := by
  simp [contents, found]

theorem contents_increasing (store : ReplicaDataStore) (ref : PartitionRef) :
    (store.contents ref).Pairwise (fun first second => first.offset < second.offset) := by
  unfold contents
  cases store.logs.find ref with
  | none => exact List.Pairwise.nil
  | some log => exact log.increasing

/-- Records of one partition with the same offset are the same record. -/
theorem contents_unique {first second : StoredEnvelope} (left : first ∈ store.contents ref)
    (right : second ∈ store.contents ref) (same : first.offset = second.offset) :
    first = second := by
  have nodup : ((store.contents ref).map (·.offset)).Nodup := by
    rw [List.Nodup, pairwise_map]
    exact (store.contents_increasing ref).imp Nat.ne_of_lt
  exact inj_on_of_nodup_map nodup left right same

variable {record : StoredEnvelope}

theorem loadEnvelope_eq_some {offset : ℕ} :
    store.logs.loadEnvelope ref offset = some record ↔
      record ∈ store.contents ref ∧ record.offset = offset := by
  rw [loadEnvelope_eq]
  unfold contents
  cases store.logs.find ref with
  | none => simp
  | some log => exact PartitionLog.readOffset_eq_some

/-- Loading stored records one after the other returns them. -/
theorem loadRecords_ok (unavailable : String) {records : List StoredEnvelope}
    (stored : ∀ record ∈ records, record ∈ store.contents ref) :
    store.loadRecords ref unavailable (records.map (·.intoResidentMetadata)) =
      .ok records := by
  induction records with
  | nil => rfl
  | cons record rest ih =>
    have loaded : store.logs.loadEnvelope ref record.offset = some record :=
      loadEnvelope_eq_some.mpr ⟨stored record mem_cons_self, rfl⟩
    have later := ih (forall_mem_cons.mp stored).2
    unfold loadRecords at later ⊢
    rw [map_cons, mapM_cons]
    simp only [MessageEnvelope.intoResidentMetadata_offset, loaded, later]
    rfl

/-- The index of a partition lists exactly the records of its log. -/
def Indexed (store : ReplicaDataStore) (ref : PartitionRef) : Prop :=
  (store.index ref).entries = (store.contents ref).map indexEntry

theorem Coherent.indexed (coherent : store.Coherent)
    (configured : store.logs.logs.get? ref = some log) : store.Indexed ref := by
  rw [Indexed, coherent.complete ref log configured,
    contents_of_find (find_of_configured configured)]

variable {next : ReplicaDataStore}

/-- Replacing the index of one partition leaves the others. -/
theorem index_of_insert {index : RecordIndex}
    (updated : next.records = store.records.insert ref index) (tested : PartitionRef) :
    next.index tested = if tested = ref then index else store.index tested := by
  by_cases same : tested = ref <;>
    simp [ReplicaDataStore.index, updated, get?_insert, same]

/-- What is indexed can be loaded. -/
theorem Coherent.index_get? (coherent : store.Coherent) {offset : ℕ} {entry : MessageEnvelope}
    (listed : (store.index ref).get? offset = some entry) :
    entry.offset = offset ∧ ∃ record ∈ store.contents ref, record.offset = offset :=
  coherent.sound ref (offset, entry) (mem_entries.mpr listed)

theorem Indexed.get? (indexed : store.Indexed ref) (stored : record ∈ store.contents ref) :
    (store.index ref).get? record.offset = some record.intoResidentMetadata := by
  rw [← mem_entries, indexed]
  exact mem_map_of_mem stored

theorem Indexed.progress (indexed : store.Indexed ref) :
    store.progress ref = (store.contents ref).getLast?.map (·.offset) := by
  rw [ReplicaDataStore.progress, OrderedMap.lastKey?, OrderedMap.keys, indexed, map_map,
    List.getLast?_map]
  rfl

/-! ### Shrinking a partition -/

/-- The records at accepted offsets. -/
def keepRecords (keep : ℕ → Bool) (records : List StoredEnvelope) : List StoredEnvelope :=
  records.filter (fun record => keep record.offset)

theorem keepIndex_index (store : ReplicaDataStore) (ref tested : PartitionRef) (keep : ℕ → Bool) :
    (store.keepIndex ref keep).index tested =
      if tested = ref then (store.index ref).retain (fun offset _ => keep offset)
      else store.index tested :=
  index_of_insert rfl tested

theorem Indexed.keepIndex (indexed : store.Indexed ref) (keep : ℕ → Bool) :
    ((store.keepIndex ref keep).index ref).entries =
      (keepRecords keep (store.contents ref)).map indexEntry := by
  have entries : (store.index ref).entries = (store.contents ref).map indexEntry := indexed
  rw [keepIndex_index]
  simp only [OrderedMap.retain, entries, filter_map]
  rfl

/-- Shrinking a configured partition rewrites its log with the accepted records;
otherwise the call fails with the index shrunk. -/
theorem rewriteKept_cases (coherent : store.Coherent) (ref : PartitionRef) (keep : ℕ → Bool)
    (unavailable : String) (floor : Option ℕ) :
    (∃ failure, store.logs.logs.get? ref = none ∧
        store.rewriteKept ref keep unavailable floor = (store.keepIndex ref keep, .error failure)) ∨
      ∃ log next, store.logs.logs.get? ref = some log ∧
        log.rewrite (keepRecords keep log.records) floor = .ok next ∧
        store.rewriteKept ref keep unavailable floor =
          ({ store.keepIndex ref keep with
              logs := { store.logs with logs := store.logs.logs.insert ref next } }, .ok ()) := by
  have sameLogs : (store.keepIndex ref keep).logs = store.logs := rfl
  cases configured : store.logs.logs.get? ref with
  | none =>
    left
    have unknown : ∀ records, store.logs.rewriteLog ref records floor =
        .error (.error "unknown stream partition") := by
      simp [rewriteLog, configured]
    simp only [rewriteKept, sameLogs, unknown]
    split
    · rename_i failure _
      exact ⟨failure, trivial, rfl⟩
    · exact ⟨_, trivial, rfl⟩
  | some log =>
    right
    have found := find_of_configured configured
    have kept := coherent.kept ref log found
    have sublist : (keepRecords keep log.records).Sublist log.records := filter_sublist
    obtain ⟨next, rewritten⟩ := log.rewrite_sublist floor sublist
      (fun record member => (kept.owned record member).trans kept.keyed.symm)
      (fun record member => kept.bounded record (sublist.subset member))
    have values : ((store.keepIndex ref keep).index ref).values =
        (keepRecords keep log.records).map (·.intoResidentMetadata) := by
      rw [OrderedMap.values, (coherent.indexed configured).keepIndex, contents_of_find found,
        map_map]
      rfl
    have loaded : (store.keepIndex ref keep).loadRecords ref unavailable
        ((keepRecords keep log.records).map (·.intoResidentMetadata)) =
        .ok (keepRecords keep log.records) := by
      apply loadRecords_ok
      intro record member
      change record ∈ store.contents ref
      rw [contents_of_find found]
      exact sublist.subset member
    refine ⟨log, next, rfl, rewritten, ?_⟩
    simp only [rewriteKept, values, loaded, sameLogs, rewriteLog, configured, rewritten]
    rfl

/-- Every kept offset lies at or above the floor of the rewrite. -/
def AboveFloor (keep : ℕ → Bool) (floor : Option ℕ) : Prop :=
  ∀ lowest ∈ floor, ∀ offset, keep offset = true → lowest ≤ offset

theorem kept_rewrite {next : PartitionLog} {keep : ℕ → Bool} {floor : Option ℕ}
    (kept : log.Kept ref) (above : AboveFloor keep floor)
    (rewritten : log.rewrite (keepRecords keep log.records) floor = .ok next) : next.Kept ref := by
  obtain ⟨records, nextOffset, sameRef, _, _⟩ := PartitionLog.rewrite_cases rewritten
  have sublist : next.records.Sublist log.records := records ▸ filter_sublist
  refine ⟨sameRef.trans kept.keyed, fun record member => kept.owned record (sublist.subset member),
    fun record member => kept.bounded record (sublist.subset member), ?_⟩
  intro last isLast
  have member : last ∈ next.records := mem_of_getLast? isLast
  have room := kept.bounded last (sublist.subset member)
  have accepted : keep last.offset = true := by
    rw [records] at member
    exact (mem_filter.mp member).2
  rw [nextOffset, PartitionLog.nextOffsetAfter, ← records, Option.mem_def.mp isLast,
    Option.elim_some, saturatingSucc_of_lt room]
  cases floor with
  | none => simp
  | some lowest =>
    have low := above lowest rfl last.offset accepted
    simp only [Option.getD_some]
    omega

/-- Shrinking a partition keeps the store coherent, whatever its outcome. -/
theorem Coherent.rewriteKept (coherent : store.Coherent) (ref : PartitionRef) {keep : ℕ → Bool}
    (unavailable : String) {floor : Option ℕ} (above : AboveFloor keep floor) :
    (store.rewriteKept ref keep unavailable floor).1.Coherent := by
  rcases rewriteKept_cases coherent ref keep unavailable floor with
    ⟨failure, unconfigured, result⟩ | ⟨log, next, configured, rewritten, result⟩
  · rw [result]
    refine ⟨coherent.kept, ?_, ?_⟩
    · intro tested log configured
      have distinct : tested ≠ ref := by
        rintro rfl
        rw [show (store.keepIndex tested keep).logs = store.logs from rfl, unconfigured]
          at configured
        cases configured
      rw [keepIndex_index, if_neg distinct]
      exact coherent.complete tested log configured
    · intro tested entry member
      rw [keepIndex_index] at member
      split at member
      · rename_i same
        subst same
        exact coherent.sound tested entry (mem_filter.mp member).1
      · exact coherent.sound tested entry member
  · rw [result]
    have found := find_of_configured configured
    have records := (PartitionLog.rewrite_cases rewritten).1
    have nextKept : next.Kept ref := kept_rewrite (coherent.kept ref log found) above rewritten
    have entries : ((store.keepIndex ref keep).index ref).entries =
      next.records.map indexEntry := by
      rw [(coherent.indexed configured).keepIndex, contents_of_find found, records]
    refine ⟨?_, ?_, ?_⟩
    · intro tested served
      rw [find_insert_logs]
      split
      · rename_i same
        rintro ⟨⟩
        exact same ▸ nextKept
      · exact coherent.kept tested served
    · intro tested served
      change (store.logs.logs.insert ref next).get? tested = some served →
        ((store.keepIndex ref keep).index tested).entries = _
      rw [get?_insert]
      split
      · rename_i same
        rintro ⟨⟩
        exact same ▸ entries
      · rename_i distinct
        rw [keepIndex_index, if_neg distinct]
        exact coherent.complete tested served
    · intro tested entry member
      change entry ∈ ((store.keepIndex ref keep).index tested).entries at member
      by_cases same : tested = ref
      · subst same
        rw [entries, mem_map] at member
        obtain ⟨record, stored, rfl⟩ := member
        refine ⟨rfl, record, ?_, rfl⟩
        simpa [contents, find_insert_logs] using stored
      · rw [keepIndex_index, if_neg same] at member
        obtain ⟨ownOffset, record, stored, sameOffset⟩ := coherent.sound tested entry member
        refine ⟨ownOffset, record, ?_, sameOffset⟩
        simpa [contents, find_insert_logs, same] using stored

/-! ### Storing a record -/

variable {request : DataAppendRequest}

/-- A record is found where it is, or appended to its log and indexed. -/
theorem storeRecord_cases (stored : store.storeRecord request = .ok next) :
    next = store ∨
      ∃ logs, (store.index request.envelope.ref).get? request.envelope.offset = none ∧
        store.logs.appendCommitted request.envelope = .ok logs ∧
        next = { store with
          logs
          records := store.records.insert request.envelope.ref
            ((store.index request.envelope.ref).insert request.envelope.offset
              request.envelope.intoResidentMetadata) } := by
  unfold storeRecord at stored
  simp only at stored
  split at stored
  · split at stored
    · cases stored
    · obtain ⟨done, same, returned⟩ := bind_eq_ok.mp stored
      exact .inl (ok.inj returned).symm
  · rename_i absent
    obtain ⟨logs, appended, returned⟩ := bind_eq_ok.mp stored
    exact .inr ⟨logs, absent, appended, (ok.inj returned).symm⟩

variable {envelope : StoredEnvelope}

/-- In a configured partition a record that is not indexed lies beyond the log. -/
theorem Indexed.appended_push (indexed : store.Indexed ref) {next : PartitionLog}
    (found : store.logs.find ref = some log) (appended : log.appendCommitted envelope = .ok next)
    (absent : (store.index ref).get? envelope.offset = none) :
    next.records = log.records ++ [envelope] := by
  rcases PartitionLog.appendCommitted_cases appended with ⟨_, _, sameChecksum⟩ | ⟨here, room, rfl⟩
  · obtain ⟨record, read, _⟩ := Option.map_eq_some_iff.mp sameChecksum
    obtain ⟨member, atOffset⟩ := PartitionLog.readOffset_eq_some.mp read
    rw [← contents_of_find found] at member
    have listed := indexed.get? member
    rw [atOffset, absent] at listed
    cases listed
  · rfl

theorem kept_append {next : PartitionLog} (kept : log.Kept ref) (owned : envelope.ref = ref)
    (appended : log.appendCommitted envelope = .ok next) :
    next.Kept ref := by
  rcases PartitionLog.appendCommitted_cases appended with ⟨_, rfl, _⟩ | ⟨here, room, rfl⟩
  · exact kept
  · refine ⟨kept.keyed, ?_, ?_, ?_⟩
    · exact forall_mem_concat.mpr ⟨kept.owned, owned⟩
    · exact forall_mem_concat.mpr ⟨kept.bounded, here ▸ room⟩
    · intro last isLast
      change last ∈ (log.records ++ [envelope]).getLast? at isLast
      rw [List.getLast?_concat, Option.mem_some] at isLast
      rw [← isLast, here]
      rfl

/-- An append leaves every stored record where it is and stores its own offset. -/
theorem appendCommitted_records {next : PartitionLog}
    (appended : log.appendCommitted envelope = .ok next) :
    (∀ record ∈ log.records, record ∈ next.records) ∧
      ∃ record ∈ next.records, record.offset = envelope.offset := by
  rcases PartitionLog.appendCommitted_cases appended with ⟨_, rfl, same⟩ | ⟨here, room, rfl⟩
  · obtain ⟨record, read, _⟩ := Option.map_eq_some_iff.mp same
    obtain ⟨member, atOffset⟩ := PartitionLog.readOffset_eq_some.mp read
    exact ⟨fun _ member => member, record, member, atOffset⟩
  · exact ⟨fun record member => mem_append_left _ member,
      envelope, mem_append_right _ mem_cons_self, rfl⟩

/-- Storing a record keeps the store coherent. -/
theorem Coherent.storeRecord (coherent : store.Coherent)
    (stored : store.storeRecord request = .ok next) : next.Coherent := by
  rcases storeRecord_cases stored with rfl | ⟨logs, absent, appended, result⟩
  · exact coherent
  have sameLogs : next.logs = logs := by rw [result]
  have indexes : ∀ tested, next.index tested = if tested = request.envelope.ref then
      (store.index request.envelope.ref).insert request.envelope.offset
        request.envelope.intoResidentMetadata
      else store.index tested := fun tested => index_of_insert (by rw [result]) tested
  obtain ⟨log, extended, found, pushed, finds, configured⟩ :=
    appendCommitted_cases appended
  refine ⟨?_, ?_, ?_⟩
  · intro tested served
    rw [sameLogs, finds]
    split
    · rename_i same
      rintro ⟨⟩
      exact same ▸ kept_append (coherent.kept _ log found) rfl pushed
    · exact coherent.kept tested served
  · intro tested served servedAt
    rw [sameLogs, configured] at servedAt
    rw [indexes]
    split at servedAt
    · rename_i same
      rw [if_pos same]
      obtain ⟨old, oldAt, rfl⟩ := Option.map_eq_some_iff.mp servedAt
      rw [same] at oldAt
      obtain rfl : log = old := by
        rw [find_of_configured oldAt] at found
        exact (Option.some.inj found).symm
      have indexed := coherent.indexed oldAt
      have entries := coherent.complete _ log oldAt
      have grown := indexed.appended_push found pushed absent
      have above : ∀ entry ∈ (store.index request.envelope.ref).entries,
          entry.1 < request.envelope.offset := by
        intro entry member
        rw [entries, mem_map] at member
        obtain ⟨record, earlier, rfl⟩ := member
        have ordered := extended.increasing
        rw [grown, pairwise_append] at ordered
        exact ordered.2.2 record earlier _ mem_cons_self
      rw [entries_insert_above _ above, entries, grown, map_append]
      rfl
    · rename_i distinct
      rw [if_neg distinct]
      exact coherent.complete tested served servedAt
  · intro tested entry member
    rw [indexes] at member
    obtain ⟨kept, here⟩ := appendCommitted_records pushed
    unfold contents
    rw [sameLogs, finds]
    split at member
    · rename_i same
      rw [if_pos same]
      obtain ⟨key, value⟩ := entry
      rw [mem_entries] at member
      rcases get?_insert_eq_some.mp member with ⟨rfl, rfl⟩ | ⟨-, old⟩
      · exact ⟨rfl, here⟩
      · obtain ⟨ownOffset, record, earlier, sameOffset⟩ := coherent.index_get? old
        rw [contents_of_find found] at earlier
        exact ⟨ownOffset, record, kept record earlier, sameOffset⟩
    · rename_i distinct
      rw [if_neg distinct]
      exact coherent.sound tested entry member

/-! ### Whole appends -/

variable (holds : ReplicaDataStore → Prop)

/-- A property kept by dropping a suffix and by storing a record is kept by an
append, whatever its outcome. -/
theorem appendInner_keeps (request : DataAppendRequest) (flush : Bool) (start : holds store)
    (truncates : holds (store.truncateSuffix request).1)
    (stores : ∀ middle next, holds middle → middle.storeRecord request = .ok next → holds next) :
    holds (store.appendInner request flush).1 := by
  unfold appendInner
  simp only
  split
  · exact start
  · rename_i mustTruncate _
    have middle : holds
        (if mustTruncate then store.truncateSuffix request else (store, .ok ())).1 := by
      cases mustTruncate
      · exact start
      · exact truncates
    split <;> rename_i shape <;> rw [shape] at middle
    · exact middle
    · split
      · exact middle
      · rename_i next stored
        exact stores _ next middle stored

/-- A property kept by every append of a batch is kept by the batch. -/
theorem appendAll_keeps (requests : List DataAppendRequest)
    (each : ∀ request ∈ requests, ∀ store : ReplicaDataStore, holds store →
      holds (store.appendInner request false).1) (start : holds store) :
    holds (store.appendAll requests).1 := by
  induction requests generalizing store with
  | nil => exact start
  | cons request requests ih =>
    rw [forall_mem_cons] at each
    have first := each.1 store start
    simp only [appendAll]
    split <;> rename_i shape <;> rw [shape] at first
    · exact first
    · have last := ih each.2 first
      split <;> rename_i ending <;> rw [ending] at last <;> exact last

theorem appendBatch_keeps (limits : BatchLimits) (requests : List DataAppendRequest)
    (each : ∀ request ∈ requests, ∀ store : ReplicaDataStore, holds store →
      holds (store.appendInner request false).1) (start : holds store) :
    holds (store.appendBatch limits requests).1 := by
  have all := appendAll_keeps holds requests each start
  unfold appendBatch
  simp only
  split
  · exact start
  · split <;> rename_i shape <;> rw [shape] at all <;> exact all

theorem applyRetentions_keeps (changes : List RetentionChange)
    (each : ∀ store change, holds store → holds (store.applyRetention change).1)
    (start : holds store) : holds (store.applyRetentions changes).1 := by
  induction changes generalizing store with
  | nil => exact start
  | cons change changes ih =>
    have first := each store change start
    simp only [applyRetentions]
    split <;> rename_i shape <;> rw [shape] at first
    · exact first
    · exact ih first

theorem Coherent.truncateSuffix (coherent : store.Coherent) (request : DataAppendRequest) :
    (store.truncateSuffix request).1.Coherent := by
  unfold ReplicaDataStore.truncateSuffix
  split
  · exact coherent.rewriteKept _ _ (by rintro _ ⟨⟩)
  · exact coherent

theorem Coherent.appendInner (coherent : store.Coherent) (request : DataAppendRequest)
    (flush : Bool) : (store.appendInner request flush).1.Coherent :=
  appendInner_keeps Coherent request flush coherent (coherent.truncateSuffix request)
    (fun _ _ middle stored => middle.storeRecord stored)

theorem Coherent.appendBatch (coherent : store.Coherent) (limits : BatchLimits)
    (requests : List DataAppendRequest) : (store.appendBatch limits requests).1.Coherent :=
  appendBatch_keeps Coherent limits requests
    (fun request _ _ start => start.appendInner request false) coherent

/-- A commit leaves the records alone. -/
theorem commit_records (store : ReplicaDataStore) (request : DataCommitRequest) (io : CommitIo) :
    (store.commit request io).1.logs = store.logs ∧
      (store.commit request io).1.records = store.records := by
  unfold commit installCommit
  simp only
  split
  · exact ⟨rfl, rfl⟩
  · exact ⟨rfl, rfl⟩
  · split
    · exact ⟨rfl, rfl⟩
    · split
      · split <;> exact ⟨rfl, rfl⟩
      · exact ⟨rfl, rfl⟩

theorem Coherent.of_records (coherent : store.Coherent) (sameLogs : next.logs = store.logs)
    (sameRecords : next.records = store.records) :
    next.Coherent := by
  have sameIndex : ∀ ref, next.index ref = store.index ref := by
    simp [ReplicaDataStore.index, sameRecords]
  have sameContents : ∀ ref, next.contents ref = store.contents ref := by
    simp [contents, sameLogs]
  refine ⟨?_, ?_, ?_⟩
  · rw [sameLogs]
    exact coherent.kept
  · intro ref log
    rw [sameLogs, sameIndex]
    exact coherent.complete ref log
  · intro ref entry
    rw [sameIndex, sameContents]
    exact coherent.sound ref entry

theorem Coherent.commit (coherent : store.Coherent) (request : DataCommitRequest)
    (io : CommitIo) : (store.commit request io).1.Coherent :=
  coherent.of_records (store.commit_records request io).1 (store.commit_records request io).2

end ReplicaDataStore

end Morrow
