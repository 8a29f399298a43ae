import Morrow.Transactions

/-!
# What the journal of transactions says

Each operation changes the state in memory and writes deltas. Applying these deltas
to the state before gives the state after, so the files always stand for the state
in memory.
-/

namespace Morrow

open OrderedMap List

namespace TransactionDelta

/-- The change a delta makes to a transaction that exists. -/
def edit : TransactionDelta → Option (String × (TransactionRecord → TransactionRecord))
  | .begin _ => none
  | .producerEpoch _ _ => none
  | .write id item => some (id, fun record => { record with writes := record.writes ++ [item] })
  | .offset id item => some (id, fun record => { record with offsets := record.offsets ++ [item] })
  | .view id item => some (id, fun record => { record with views := record.views ++ [item] })
  | .status id given => some (id, fun record => { record with status := given })

variable {delta : TransactionDelta} {id : String} {change : TransactionRecord → TransactionRecord}

theorem edit_id (edits : delta.edit = some (id, change)) (record : TransactionRecord) :
    (change record).id = record.id := by
  cases delta <;> cases edits <;> rfl

theorem applyDelta_edit (edits : delta.edit = some (id, change)) (state : TransactionState) :
    state.applyDelta delta = state.update id change := by
  cases delta <;> cases edits <;> rfl

end TransactionDelta

namespace TransactionState

variable (state : TransactionState)

theorem applyDeltas_append (first second : List TransactionDelta) :
    state.applyDeltas (first ++ second) =
      state.applyDeltas first >>= fun applied => applied.applyDeltas second := by
  induction first generalizing state with
  | nil => rfl
  | cons delta first ih =>
    simp only [cons_append, applyDeltas]
    cases state.applyDelta delta with
    | error failure => rfl
    | ok applied => exact ih applied

theorem applyDeltas_singleton (delta : TransactionDelta) :
    state.applyDeltas [delta] = state.applyDelta delta := by
  simp only [applyDeltas]
  cases state.applyDelta delta <;> rfl

/-- Every transaction stands under its own identity. -/
def Keyed : Prop :=
  ∀ id record, state.transactions.get? id = some record → record.id = id

variable {state : TransactionState} {record : TransactionRecord}

theorem update_ok {id : String} (found : state.transactions.get? id = some record)
    (change : TransactionRecord → TransactionRecord) :
    state.update id change =
      .ok { state with transactions := state.transactions.insert id (change record) } := by
  have known : state.transactions.contains id = true := by
    rw [OrderedMap.contains_iff]
    exact ⟨record, found⟩
  rw [update, if_pos known, OrderedMap.modify, found]

/-! ### Deltas of statuses -/

/-- Write a status into a transaction. -/
def withStatus (status : TransactionStatus) (record : TransactionRecord) : TransactionRecord :=
  { record with status := status }

/-- Deltas of statuses change the transactions they name. -/
theorem applyDeltas_status (statusOf : TransactionRecord → TransactionStatus)
    (records : List TransactionRecord) (state : TransactionState)
    (known : ∀ record ∈ records, state.transactions.contains record.id = true) :
    state.applyDeltas (records.map fun record => .status record.id (statusOf record)) =
      .ok { state with
        transactions := records.foldl (fun map record =>
          map.modify record.id (withStatus (statusOf record))) state.transactions } := by
  induction records generalizing state with
  | nil => rfl
  | cons record records ih =>
    have here := known record mem_cons_self
    simp only [map_cons, applyDeltas, applyDelta, update, if_pos here, ok_bind,
      foldl_cons]
    apply ih
    intro other member
    have before := known other (mem_cons_of_mem _ member)
    rw [OrderedMap.contains, get?_modify]
    split
    · rw [Option.isSome_map]
      exact before
    · exact before

theorem Keyed.map_id_values (keyed : state.Keyed) :
    state.transactions.values.map (·.id) = state.transactions.keys := by
  rw [OrderedMap.values, map_map]
  apply map_congr_left
  intro entry listed
  exact keyed _ _ (mem_entries.mp listed)

theorem Keyed.mem_values (keyed : state.Keyed) :
    record ∈ state.transactions.values ↔ state.transactions.get? record.id = some record := by
  rw [OrderedMap.mem_values]
  constructor
  · rintro ⟨id, found⟩
    rwa [keyed id record found]
  · exact fun found => ⟨_, found⟩

/-- A change of statuses is what the deltas of the changed transactions say, and more
deltas that repeat a status do no harm. -/
theorem Keyed.applyDeltas_mapRecords (keyed : state.Keyed)
    (change : TransactionRecord → TransactionRecord)
    (onlyStatus : ∀ record, change record = withStatus (change record).status record)
    (named : TransactionRecord → Bool)
    (others : ∀ record, named record = false → change record = record) :
    state.applyDeltas ((state.transactions.values.filter named).map fun record =>
      .status record.id (change record).status) = .ok (state.mapRecords change) := by
  have listed : ∀ record ∈ state.transactions.values.filter named,
      state.transactions.get? record.id = some record :=
    fun record member => keyed.mem_values.mp (List.mem_of_mem_filter member)
  rw [applyDeltas_status (fun record => (change record).status)]
  · congr 1
    congr 1
    apply ext_get?
    intro id
    rw [get?_mapValues]
    cases found : state.transactions.get? id with
    | none =>
      rw [get?_foldl_modify_of_not, found, Option.map_none]
      intro record member same
      rw [← same, listed record member] at found
      cases found
    | some record =>
      obtain rfl := keyed id record found
      cases test : named record with
      | true =>
        have member : record ∈ state.transactions.values.filter named :=
          List.mem_filter.mpr ⟨keyed.mem_values.mpr found, test⟩
        have distinct : ((state.transactions.values.filter named).map (·.id)).Nodup := by
          apply List.Nodup.sublist (List.filter_sublist.map _)
          rw [keyed.map_id_values]
          exact state.transactions.keys_increasing.imp (·.ne)
        have changed := get?_foldl_modify (fun record : TransactionRecord => record.id)
          (fun record => withStatus (change record).status) distinct member state.transactions
        rw [changed, found, Option.map_some, Option.map_some, ← onlyStatus]
      | false =>
        rw [get?_foldl_modify_of_not, found, Option.map_some, others record test]
        intro other member same
        have stored := listed other member
        rw [same, found] at stored
        obtain rfl := Option.some.inj stored
        rw [List.mem_filter, test] at member
        exact absurd member.2 (by simp)
  · intro record member
    rw [OrderedMap.contains_iff]
    exact ⟨record, listed record member⟩

/-! ### Forgetting -/

theorem get?_foldl_erase (ids : List String) (map : OrderedMap String TransactionRecord)
    (id : String) :
    (ids.foldl (fun map id => map.erase id) map).get? id =
      if id ∈ ids then none else map.get? id := by
  induction ids generalizing map with
  | nil => simp
  | cons first ids ih =>
    rw [foldl_cons, ih, get?_erase]
    by_cases later : id ∈ ids
    · simp [later]
    · by_cases same : id = first
      · simp [same]
      · simp [later, same]

/-- What is left was there before. -/
theorem evict_found {limits : TransactionLimits} {id : String}
    (found : (state.evict limits).transactions.get? id = some record) :
    state.transactions.get? id = some record := by
  simp only [evict, get?_foldl_erase] at found
  split at found
  · cases found
  · exact found

end TransactionState

/-- The files stood for the state in memory when the checkpoint began. -/
structure CheckpointStart.Sound (start : CheckpointStart) : Prop where
  recovered : TransactionCoordinator.recovered start.snapshot start.journal = .ok start.state
  keyed : start.state.Keyed

namespace TransactionCoordinator

open TransactionRecord (endWhen Fenced Expired)
open TransactionDelta (edit_id applyDelta_edit)

/-- Transactions begin as open ones. -/
def BeginOpened (deltas : List TransactionDelta) : Prop :=
  ∀ record, .begin record ∈ deltas → record.status = .opened

/-- The files stand for the state in memory, and did at every checkpoint. -/
structure Durable (coordinator : TransactionCoordinator) : Prop where
  recovered : recovered coordinator.snapshot coordinator.journal = .ok coordinator.state
  entries : coordinator.journalEntries = coordinator.journal.length
  keyed : coordinator.state.Keyed
  starts : ∀ start ∈ coordinator.checkpoints, start.Sound
  begins : BeginOpened coordinator.journal

theorem durable_new (limits : TransactionLimits) : (new limits).Durable where
  recovered := rfl
  entries := rfl
  keyed := fun _ _ found => by cases found
  starts := fun _ member => absurd member not_mem_nil
  begins := fun _ member => absurd member not_mem_nil

variable {coordinator : TransactionCoordinator}

theorem Durable.checkpoint (durable : coordinator.Durable) :
    coordinator.checkpoint.Durable where
  recovered := rfl
  entries := rfl
  keyed := fun id record found => durable.keyed id record (TransactionState.evict_found found)
  starts := by
    exact forall_mem_concat.mpr ⟨durable.starts, durable.recovered, durable.keyed⟩
  begins := fun _ member => absurd member not_mem_nil

variable {deltas : List TransactionDelta}

/-- A change of the state together with deltas that say the same. -/
theorem Durable.appendDeltas (durable : coordinator.Durable) {state : TransactionState}
    (applied : coordinator.state.applyDeltas deltas = .ok state) (keyed : state.Keyed)
    (begins : BeginOpened deltas) :
    ({ coordinator with state := state }.appendDeltas deltas).Durable := by
  unfold TransactionCoordinator.appendDeltas
  split
  · rename_i none
    subst none
    obtain rfl := Except.ok.inj applied
    exact durable
  · have written : ({ coordinator with state := state }.writeDeltas deltas).Durable := by
      refine ⟨?_, ?_, keyed, durable.starts, ?_⟩
      · have before := durable.recovered
        unfold TransactionCoordinator.recovered at before ⊢
        simp only [writeDeltas, TransactionState.applyDeltas_append, before, ok_bind]
        exact applied
      · simp only [writeDeltas, length_append, durable.entries]
      · intro record member
        exact (mem_append.mp member).elim (durable.begins record) (begins record)
    simp only
    split
    · exact written.checkpoint
    · exact written

/-- What is left after deltas were written was in the state. -/
theorem appendDeltas_found {id : String} {record : TransactionRecord}
    (found : (coordinator.appendDeltas deltas).state.transactions.get? id = some record) :
    coordinator.state.transactions.get? id = some record := by
  unfold appendDeltas at found
  split at found
  · exact found
  · simp only at found
    split at found
    · exact TransactionState.evict_found found
    · exact found

/-! ### The operations -/

section Operations

variable {coordinator : TransactionCoordinator}

variable {state : TransactionState} {id : String} {record : TransactionRecord}

theorem Keyed.insert (keyed : state.Keyed) (own : record.id = id) :
    { state with transactions := state.transactions.insert id record }.Keyed := by
  intro tested held found
  rcases get?_insert_eq_some.mp found with ⟨rfl, rfl⟩ | ⟨-, old⟩
  · exact own
  · exact keyed tested held old

variable {change : TransactionRecord → TransactionRecord}

theorem Keyed.mapRecords (keyed : state.Keyed)
    (same : ∀ record, (change record).id = record.id) : (state.mapRecords change).Keyed := by
  intro id record found
  simp only [TransactionState.mapRecords, get?_mapValues] at found
  obtain ⟨before, held, rfl⟩ := Option.map_eq_some_iff.mp found
  rw [same]
  exact keyed id before held

variable {delta : TransactionDelta}

/-- A transaction is replaced by what its delta makes of it. -/
theorem Durable.replace (durable : coordinator.Durable)
    (applied : coordinator.state.applyDelta delta =
      .ok { coordinator.state with
        transactions := coordinator.state.transactions.insert id record }) (own : record.id = id)
    (begins : BeginOpened [delta]) :
    (coordinator.replace id record delta).Durable := by
  apply durable.appendDeltas
  · rw [TransactionState.applyDeltas_singleton]
    exact applied
  · exact Keyed.insert durable.keyed own
  · exact begins

theorem Durable.start (durable : coordinator.Durable) (opened : record.status = .opened) :
    (coordinator.start record).Durable := by
  apply durable.appendDeltas
  · rfl
  · exact Keyed.insert durable.keyed rfl
  · intro begun begins
    obtain rfl : begun = record := by simpa using begins
    exact opened

section Ending

variable (ends : TransactionRecord → Prop) [DecidablePred ends] (status : TransactionStatus)

variable {record : TransactionRecord}

theorem endWhen_of (test : ends record) :
    record.endWhen ends status = { record with status := status } := if_pos test

theorem endWhen_of_not (test : ¬ ends record) : record.endWhen ends status = record := if_neg test

variable (record : TransactionRecord)

theorem endWhen_id : (record.endWhen ends status).id = record.id := by
  unfold TransactionRecord.endWhen
  split <;> rfl

theorem endWhen_onlyStatus :
    record.endWhen ends status =
      TransactionState.withStatus (record.endWhen ends status).status record := by
  unfold TransactionRecord.endWhen
  split <;> rfl

end Ending

theorem Durable.fence (durable : coordinator.Durable) (producer : String) (epoch : ℕ) :
    (coordinator.fence producer epoch).Durable := by
  have statuses := durable.keyed.applyDeltas_mapRecords
    (endWhen (Fenced producer) (.aborted "producer epoch fenced"))
    (endWhen_onlyStatus _ _) (fun record => record.Fenced producer)
    (fun record test => endWhen_of_not _ _ (by simpa using test))
  have named : ((coordinator.state.transactions.values.filter fun record =>
      decide (record.Fenced producer)).map fun record => TransactionDelta.status record.id
        (record.endWhen (Fenced producer) (.aborted "producer epoch fenced")).status) =
      (coordinator.state.transactions.values.filter fun record =>
        decide (record.Fenced producer)).map fun record =>
          TransactionDelta.status record.id (.aborted "producer epoch fenced") := by
    apply map_congr_left
    intro record member
    have test : record.Fenced producer := by simpa using of_mem_filter member
    rw [endWhen_of _ _ test]
  rw [named] at statuses
  apply durable.appendDeltas
  · rw [TransactionState.applyDeltas_append, statuses]
    rfl
  · exact Keyed.mapRecords durable.keyed (endWhen_id _ _)
  · exact fun record begins => by simp at begins

/-- The aborted transactions after the change, as transactions before it. -/
theorem Durable.recover (durable : coordinator.Durable) (nowMs : ℕ) :
    (coordinator.recover nowMs).1.Durable := by
  have statuses := durable.keyed.applyDeltas_mapRecords
    (endWhen (Expired nowMs) (.aborted "transaction timeout during recovery"))
    (endWhen_onlyStatus _ _)
    (fun record => (record.endWhen (Expired nowMs)
      (.aborted "transaction timeout during recovery")).status.isAborted)
    (by
      intro record kept
      by_cases test : record.Expired nowMs
      · rw [endWhen_of _ _ test] at kept
        cases kept
      · exact endWhen_of_not _ _ test)
  apply durable.appendDeltas
  · convert statuses using 2
    simp only [TransactionState.mapRecords, values, mapValues, filter_map, map_map]
    apply map_congr_left
    intro record _
    simp only [Function.comp_apply, endWhen_id]
  · exact Keyed.mapRecords durable.keyed (endWhen_id _ _)
  · exact fun record begins => by simp at begins

/-! ### What the operations can do -/

/-- The transaction an operation was checked for. -/
theorem live_checked {nowMs : ℕ} {status : TransactionStatus} {message : String}
    {operation : TransactionRecord → Outcome TransactionRecord} {changed : TransactionRecord}
    (checked : (do
      let record ← coordinator.live id nowMs
      ensure (record.status = status) message
      operation record) = .ok changed) :
    ∃ record, coordinator.state.transactions.get? id = some record ∧ record.status = status ∧
      operation record = .ok changed := by
  obtain ⟨stored, alive, rest⟩ := bind_eq_ok.mp checked
  obtain ⟨_, held, done⟩ := bind_eq_ok.mp rest
  unfold live at alive
  split at alive
  · cases alive
  · rename_i kept found
    obtain ⟨_, _, same⟩ := bind_eq_ok.mp alive
    obtain rfl := Except.ok.inj same
    exact ⟨kept, found, ensure_eq_ok.mp held, done⟩

/-- The delta that an operation on one transaction writes. -/
def Operation.delta? : Operation → Option TransactionDelta
  | .append id write _ => some (.write id write)
  | .commitOffset id offset _ => some (.offset id offset)
  | .mutateView id mutation _ => some (.view id mutation)
  | .prepare id _ => some (.status id .prepared)
  | .commit id _ => some (.status id .committed)
  | .abort id reason => some (.status id (.aborted reason))
  | _ => none

/-- The transaction passes the checks of the operation. -/
def Operation.Admits (limits : TransactionLimits) (record : TransactionRecord) : Operation → Prop
  | .append _ write _ => record.status = .opened ∧ record.messages < limits.maxMessages ∧
    saturatingAdd record.totalBytes write.bytes.length ≤ limits.maxBytes ∧
    record.partitionCount write.stream write.partition ≤ limits.maxPartitions
  | .commitOffset _ offset _ => record.status = .opened ∧ record.messages < limits.maxMessages ∧
    record.partitionCount offset.stream offset.partition ≤ limits.maxPartitions
  | .mutateView _ mutation _ => record.status = .opened ∧ record.messages < limits.maxMessages ∧
    saturatingAdd record.totalBytes ((mutation.value.map length).getD 0) ≤ limits.maxBytes
  | .prepare _ _ => record.status = .opened
  | .commit _ _ => record.status = .prepared
  | _ => record.status.Live

def Operation.answer (record : TransactionRecord) : Operation → Answer
  | .commit _ _ => .batch record.committedBatch
  | _ => .done

variable {operation : Operation}

theorem Operation.Admits.live {limits : TransactionLimits}
    (admits : operation.Admits limits record) : record.status.Live := by
  cases operation <;> simp_all [Operation.Admits, TransactionStatus.Live]

theorem Operation.edit_of_delta?
    (writes : operation.delta? = some delta) : ∃ id change, delta.edit = some (id, change) := by
  cases operation <;> cases writes <;> exact ⟨_, _, rfl⟩

/-- An operation on one transaction fails, or the transaction is changed as its delta says. -/
theorem perform_edits
    (writes : operation.delta? = some delta)
    (edits : delta.edit = some (id, change)) :
    (∃ failure, coordinator.perform operation = (coordinator, .error failure)) ∨
      ∃ record, coordinator.state.transactions.get? id = some record ∧
        operation.Admits coordinator.limits record ∧ coordinator.perform operation =
          (coordinator.replace id (change record) delta, .ok (operation.answer record)) := by
  cases operation <;> cases writes <;> cases edits
  case abort reason =>
    simp only [perform, abort]
    split
    · exact .inl ⟨_, rfl⟩
    · rename_i record found
      split
      · rename_i alive
        exact .inr ⟨record, found, alive, rfl⟩
      · exact .inl ⟨_, rfl⟩
  all_goals
    simp only [perform, append, commitOffset, mutateView, prepare, commit, withOpen]
    split
    · exact .inl ⟨_, rfl⟩
    · rename_i checked
      obtain ⟨record, found, held, done⟩ := live_checked checked
      simp only [bind_eq_ok, ensure_eq_ok, exists_const, pure, Except.pure, Except.ok.injEq] at done
      grind [Operation.Admits, Operation.answer, setStatus]

/-- Nothing happens; or a producer may be fenced, and then a transaction may begin. -/
theorem begin_cases (coordinator : TransactionCoordinator) (id tenant producer : String)
    (producerEpoch nowMs : ℕ) :
    (coordinator.begin id tenant producer producerEpoch nowMs).1 = coordinator ∨
      coordinator.state.transactions.get? id = none ∧
        ∃ fenced, (fenced = coordinator ∨ fenced = coordinator.fence producer producerEpoch) ∧
          ((coordinator.begin id tenant producer producerEpoch nowMs).1 = fenced ∨
            ∃ deadlineMs, (coordinator.begin id tenant producer producerEpoch nowMs).1 =
              fenced.start ⟨id, tenant, producer, producerEpoch, nowMs, deadlineMs, .opened, [],
                [], []⟩) := by
  unfold begin
  split
  · exact .inl rfl
  · split
    · exact .inl rfl
    · rename_i absent
      simp only
      split
      · exact .inl rfl
      · generalize which : (if (coordinator.state.producerEpochs.get? producer).getD 0 <
          producerEpoch then coordinator.fence producer producerEpoch else coordinator) = fenced
        refine .inr ⟨absent, fenced, ?_, ?_⟩
        · rw [← which]
          split
          · exact .inr rfl
          · exact .inl rfl
        · split
          · exact .inr ⟨_, rfl⟩
          · exact .inl rfl

/-- Every operation keeps the files and the memory together. -/
theorem Durable.perform (durable : coordinator.Durable) (operation : Operation) :
    (coordinator.perform operation).1.Durable := by
  cases writes : operation.delta? with
  | some delta =>
    obtain ⟨id, change, edits⟩ := Operation.edit_of_delta? writes
    rcases perform_edits writes edits with ⟨failure, same⟩ | ⟨record, found, -, done⟩
    · rw [same]
      exact durable
    · rw [done]
      apply durable.replace
      · rw [applyDelta_edit edits, TransactionState.update_ok found]
      · exact (edit_id edits record).trans (durable.keyed id record found)
      · intro begun member
        cases mem_singleton.mp member
        cases edits
  | none =>
    cases operation with
    | begin id tenant producer producerEpoch nowMs =>
      simp only [TransactionCoordinator.perform]
      rcases begin_cases coordinator id tenant producer producerEpoch nowMs with
        same | ⟨-, fenced, which, begun⟩
      · rw [same]
        exact durable
      · have fencedDurable : fenced.Durable := by
          rcases which with rfl | rfl
          · exact durable
          · exact durable.fence producer producerEpoch
        rcases begun with same | ⟨deadlineMs, started⟩
        · rw [same]
          exact fencedDurable
        · rw [started]
          exact fencedDurable.start rfl
    | recover nowMs => exact durable.recover nowMs
    | checkpoint => exact durable.checkpoint
    | _ => cases writes

theorem Durable.performAll (durable : coordinator.Durable) (operations : List Operation) :
    (coordinator.performAll operations).Durable := by
  induction operations generalizing coordinator with
  | nil => exact durable
  | cons operation operations ih =>
    exact ih (durable.perform operation)

/-- Opening the files again gives the coordinator as it was. -/
theorem Durable.reopen (durable : coordinator.Durable) : coordinator.reopen = .ok coordinator := by
  unfold TransactionCoordinator.reopen
  rw [durable.recovered, ← durable.entries]
  rfl

end Operations

end TransactionCoordinator

end Morrow
