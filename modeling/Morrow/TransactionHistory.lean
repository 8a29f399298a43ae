import Morrow.TransactionJournal

/-!
# The life of a transaction

Where the transactions of a coordinator come from, whatever was done before. A
transaction that is stored was begun at some moment at which its identity was free,
and it holds what the operations since then put into it. If it is committed, one of
these was the commit that answered with its batch. A transaction that ended stays as
it is until a checkpoint forgets it; its identity is free from then on.
-/

namespace Morrow

open List OrderedMap Option

namespace TransactionCoordinator

open TransactionRecord (endWhen Fenced Expired)

variable (id : String)

/-- Begin a transaction under this identity. -/
def Operation.Begins : Operation → Prop
  | .begin begun _ _ _ _ => begun = id
  | _ => False

/-- What an operation with its answer adds to the contents of a transaction. -/
def Operation.collect (answer : Outcome Answer) (batch : CommittedBatch) :
    Operation → CommittedBatch
  | .append target write _ =>
    if target = id ∧ answer = .ok .done then { batch with writes := batch.writes ++ [write] }
    else batch
  | .commitOffset target offset _ =>
    if target = id ∧ answer = .ok .done then { batch with offsets := batch.offsets ++ [offset] }
    else batch
  | .mutateView target mutation _ =>
    if target = id ∧ answer = .ok .done then { batch with views := batch.views ++ [mutation] }
    else batch
  | _ => batch

/-- The contents that successful operations put into a transaction, in order. -/
def collected (id : String) : TransactionCoordinator → List Operation → CommittedBatch →
    CommittedBatch
  | _, [], batch => batch
  | coordinator, operation :: operations, batch =>
    let (next, answer) := coordinator.perform operation
    collected id next operations (operation.collect id answer batch)

/-- Among the operations there is a commit of the transaction that answered with this
batch. -/
def Commits (coordinator : TransactionCoordinator) (operations : List Operation)
    (batch : CommittedBatch) : Prop :=
  ∃ before nowMs after, operations = before ++ .commit id nowMs :: after ∧
    ((coordinator.performAll before).commit id nowMs).2 = .ok (.batch batch)

/-! ### One operation -/

/-- What an operation may make of a stored transaction. -/
structure Progress (id : String) (operation : Operation) (answer : Outcome Answer)
    (before after : TransactionRecord) : Prop where
  contents : after.committedBatch = operation.collect id answer before.committedBatch
  ended : ¬ before.status.Live → after = before
  committed : after.status = .committed → before.status = .committed ∨
    ∃ nowMs, operation = .commit id nowMs ∧ answer = .ok (.batch after.committedBatch)

/-- A stored transaction after an operation: it was stored before, or the operation
began it. -/
def Arises (operation : Operation) (answer : Outcome Answer)
    (coordinator : TransactionCoordinator) (after : TransactionRecord) : Prop :=
  (∃ before, coordinator.state.transactions.get? id = some before ∧
      Progress id operation answer before after) ∨
    coordinator.state.transactions.get? id = none ∧ operation.Begins id ∧
      after.committedBatch = ⟨id, [], [], []⟩ ∧ after.status = .opened

section Step

variable {coordinator : TransactionCoordinator} {id : String} {operation : Operation}
  {answer : Outcome Answer} {after : TransactionRecord}

/-- The operation left the transaction alone. -/
theorem Arises.same (found : coordinator.state.transactions.get? id = some after)
    (idle : operation.collect id answer after.committedBatch = after.committedBatch) :
    Arises id operation answer coordinator after :=
  .inl ⟨after, found, idle.symm, fun _ => rfl, .inl⟩

variable {target : String} {record : TransactionRecord} {delta : TransactionDelta}

/-- The operation replaced one transaction. -/
theorem Arises.replace
    (found : (coordinator.replace target record delta).state.transactions.get? id = some after)
    (here : target = id → Arises id operation answer coordinator record)
    (elsewhere : target ≠ id →
      operation.collect id answer after.committedBatch = after.committedBatch) :
    Arises id operation answer coordinator after := by
  have stored := appendDeltas_found found
  rcases get?_insert_eq_some.mp stored with ⟨same, rfl⟩ | ⟨other, stored⟩
  · exact here same.symm
  · exact Arises.same stored (elsewhere (Ne.symm other))

variable {change : TransactionRecord → TransactionRecord}

/-- The operation changed one transaction as its delta says. -/
theorem perform_edits_arises
    (writes : operation.delta? = some delta) (edits : delta.edit = some (target, change))
    (found : (coordinator.perform operation).1.state.transactions.get? id = some after) :
    Arises id operation (coordinator.perform operation).2 coordinator after := by
  rcases perform_edits writes edits with ⟨failure, same⟩ | ⟨record, stored, admits, done⟩
  · rw [same] at found ⊢
    apply Arises.same found
    cases operation <;> cases writes <;> simp [Operation.collect]
  · rw [done] at found ⊢
    apply Arises.replace found
    · rintro rfl
      refine .inl ⟨record, stored, ?_, fun dead => absurd admits.live dead, ?_⟩
      · cases operation <;> cases writes <;> cases edits <;>
          simp [Operation.collect, Operation.answer, TransactionRecord.committedBatch]
      · cases operation <;> cases writes <;> cases edits <;>
          simp_all [Operation.answer, TransactionRecord.committedBatch]
    · intro other
      cases operation <;> cases writes <;> cases edits <;> simp [Operation.collect, other]

/-- The operation ended transactions. -/
theorem Arises.endWhen {ends : TransactionRecord → Prop} [DecidablePred ends] {reason : String}
    {before : TransactionRecord}
    (stored : coordinator.state.transactions.get? id = some before)
    (alive : ends before → before.status.Live)
    (idle : ∀ batch, operation.collect id answer batch = batch) :
    Arises id operation answer coordinator (before.endWhen ends (.aborted reason)) := by
  by_cases test : ends before
  · rw [endWhen_of _ _ test]
    exact .inl ⟨before, stored, (idle _).symm, fun dead => absurd (alive test) dead,
      fun committed => by cases committed⟩
  · rw [endWhen_of_not _ _ test]
    exact Arises.same stored (idle _)

variable {producer : String}

/-- Ending transactions creates none. -/
theorem mapRecords_found {state : TransactionState}
    (found : (state.mapRecords change).transactions.get? id = some after) :
    ∃ before, state.transactions.get? id = some before ∧ change before = after := by
  simp only [TransactionState.mapRecords, get?_mapValues] at found
  exact map_eq_some_iff.mp found

theorem begin_arises {begun tenant : String} {producerEpoch nowMs : ℕ}
    (found : (coordinator.begin begun tenant producer producerEpoch nowMs).1.state.transactions.get?
      id = some after) :
    Arises id (.begin begun tenant producer producerEpoch nowMs) answer coordinator after := by
  rcases begin_cases coordinator begun tenant producer producerEpoch nowMs with
    same | ⟨absent, fenced, which, result⟩
  · rw [same] at found
    exact Arises.same found rfl
  · have earlier : fenced.state.transactions.get? id = some after →
        Arises id (.begin begun tenant producer producerEpoch nowMs) answer coordinator after := by
      intro kept
      rcases which with rfl | rfl
      · exact Arises.same kept rfl
      · obtain ⟨before, stored, rfl⟩ := mapRecords_found (appendDeltas_found kept)
        exact Arises.endWhen stored (·.2) (fun _ => rfl)
    rcases result with same | ⟨deadlineMs, started⟩
    · rw [same] at found
      exact earlier found
    · rw [started] at found
      have stored := appendDeltas_found found
      rcases get?_insert_eq_some.mp stored with ⟨rfl, rfl⟩ | ⟨-, stored⟩
      · exact .inr ⟨absent, rfl, rfl, rfl⟩
      · exact earlier stored

/-- Where a stored transaction comes from, for every operation. -/
theorem perform_arises
    (found : (coordinator.perform operation).1.state.transactions.get? id = some after) :
    Arises id operation (coordinator.perform operation).2 coordinator after := by
  cases writes : operation.delta? with
  | some delta =>
    obtain ⟨target, change, edits⟩ := Operation.edit_of_delta? writes
    exact perform_edits_arises writes edits found
  | none =>
    cases operation with
    | begin begun tenant producer producerEpoch nowMs => exact begin_arises found
    | recover nowMs =>
      obtain ⟨before, stored, rfl⟩ := mapRecords_found (appendDeltas_found found)
      exact Arises.endWhen stored (·.1) (fun _ => rfl)
    | checkpoint => exact Arises.same (TransactionState.evict_found found) rfl
    | _ => cases writes

/-! ### What a checkpoint forgets -/

/-- One of the checkpoints taken between two states held the transaction and evicted it. -/
def Forgets (id : String) (record : TransactionRecord) (before after : TransactionCoordinator) :
    Prop :=
  ∃ taken, after.checkpoints = before.checkpoints ++ taken ∧ ∃ start ∈ taken,
    start.state.transactions.get? id = some record ∧
      (start.state.evict before.limits).transactions.get? id = none

/-- A stored transaction is carried over as it is, unless a checkpoint forgets it. -/
structure Carries (id : String) (record : TransactionRecord)
    (before after : TransactionCoordinator) : Prop where
  limits : after.limits = before.limits
  checkpoints : before.checkpoints <+: after.checkpoints
  kept : before.state.transactions.get? id = some record →
    after.state.transactions.get? id = some record ∨ Forgets id record before after

variable {middle : TransactionCoordinator}

theorem Carries.refl : Carries id record coordinator coordinator :=
  ⟨rfl, prefix_rfl, .inl⟩

theorem Carries.trans {last : TransactionCoordinator} (first : Carries id record coordinator middle)
    (second : Carries id record middle last) : Carries id record coordinator last := by
  obtain ⟨taken, more⟩ := first.checkpoints
  refine ⟨second.limits.trans first.limits, first.checkpoints.trans second.checkpoints, ?_⟩
  intro found
  rcases first.kept found with kept | ⟨early, earlier, start, member, held, lost⟩
  · refine (second.kept kept).imp_right ?_
    rintro ⟨later, shape, start, member, held, lost⟩
    rw [first.limits] at lost
    exact ⟨taken ++ later, by rw [shape, ← more, append_assoc], start,
      mem_append_right _ member, held, lost⟩
  · obtain ⟨later, shape⟩ := second.checkpoints
    exact .inr ⟨early ++ later, by rw [← shape, earlier, append_assoc], start,
      mem_append_left _ member, held, lost⟩

theorem carries_checkpoint : Carries id record coordinator coordinator.checkpoint := by
  refine ⟨rfl, prefix_append _ _, fun found => ?_⟩
  cases after : (coordinator.state.evict coordinator.limits).transactions.get? id with
  | none => exact .inr ⟨_, rfl, _, mem_cons_self, found, after⟩
  | some kept =>
    rw [TransactionState.evict_found after] at found
    exact .inl (after.trans found)

/-- Deltas are written for a state that still has the transaction. -/
theorem carries_appendDeltas {state : TransactionState} (deltas : List TransactionDelta)
    (same : coordinator.state.transactions.get? id = some record →
      state.transactions.get? id = some record) :
    Carries id record coordinator ({ coordinator with state := state }.appendDeltas deltas) := by
  have changed : Carries id record coordinator { coordinator with state := state } :=
    ⟨rfl, prefix_rfl, fun found => .inl (same found)⟩
  refine changed.trans ?_
  unfold appendDeltas
  split
  · exact Carries.refl
  · have written : Carries id record { coordinator with state := state }
        ({ coordinator with state := state }.writeDeltas deltas) :=
      ⟨rfl, prefix_rfl, .inl⟩
    simp only
    split
    · exact written.trans carries_checkpoint
    · exact written

/-- Ending other transactions leaves one that has ended. -/
theorem mapRecords_ended {ends : TransactionRecord → Prop} [DecidablePred ends]
    {status : TransactionStatus} (alive : ends record → record.status.Live)
    (ended : ¬ record.status.Live)
    (found : coordinator.state.transactions.get? id = some record) :
    (coordinator.state.mapRecords (endWhen ends status)).transactions.get? id = some record := by
  simp only [TransactionState.mapRecords, get?_mapValues, found, map_some,
    endWhen_of_not _ _ (fun test => ended (alive test))]

/-- An operation loses a transaction that has ended only by a checkpoint. -/
theorem perform_carries (ended : ¬ record.status.Live) :
    Carries id record coordinator (coordinator.perform operation).1 := by
  cases writes : operation.delta? with
  | some delta =>
    obtain ⟨target, change, edits⟩ := Operation.edit_of_delta? writes
    obtain same | ⟨live, stored, admits, done⟩ :
        (∃ failure, coordinator.perform operation = (coordinator, .error failure)) ∨ _ :=
      perform_edits writes edits
    · obtain ⟨failure, same⟩ := same
      rw [same]
      exact Carries.refl
    · rw [done]
      change Carries id record coordinator (coordinator.replace target (change live) delta)
      refine carries_appendDeltas _ fun found => ?_
      rw [get?_insert_of_ne _ _ ?_, found]
      rintro rfl
      rw [stored] at found
      exact ended (some.inj found ▸ admits.live)
  | none =>
    cases operation with
    | begin begun tenant producer producerEpoch nowMs =>
      rcases begin_cases coordinator begun tenant producer producerEpoch nowMs with
        same | ⟨absent, fenced, which, result⟩
      · rw [perform, same]
        exact Carries.refl
      · have first : Carries id record coordinator fenced := by
          rcases which with rfl | rfl
          · exact Carries.refl
          · exact carries_appendDeltas _ (mapRecords_ended (·.2) ended)
        rcases result with same | ⟨deadlineMs, started⟩
        · rwa [perform, same]
        · rw [perform, started]
          refine first.trans (carries_appendDeltas _ fun found => ?_)
          rw [get?_insert_of_ne _ _ ?_, found]
          rintro rfl
          rcases which with rfl | rfl
          · rw [absent] at found
            cases found
          · obtain ⟨before, stored, -⟩ := mapRecords_found (appendDeltas_found found)
            rw [absent] at stored
            cases stored
    | recover nowMs => exact carries_appendDeltas _ (mapRecords_ended (·.1) ended)
    | checkpoint => exact carries_checkpoint
    | _ => cases writes

end Step

/-! ### Whole histories -/

section History

variable {limits : TransactionLimits}

variable (coordinator : TransactionCoordinator)

theorem performAll_append (first second : List Operation) :
    coordinator.performAll (first ++ second) = (coordinator.performAll first).performAll second :=
  foldl_append

theorem collected_concat (id : String) (coordinator : TransactionCoordinator)
    (operations : List Operation) (operation : Operation) (batch : CommittedBatch) :
    collected id coordinator (operations ++ [operation]) batch =
      operation.collect id ((coordinator.performAll operations).perform operation).2
        (collected id coordinator operations batch) := by
  induction operations generalizing coordinator batch with
  | nil => rfl
  | cons first operations ih => exact ih _ _

variable {id : String} {operations : List Operation}

theorem Commits.concat {coordinator : TransactionCoordinator} {batch : CommittedBatch}
    (commits : Commits id coordinator operations batch) (operation : Operation) :
    Commits id coordinator (operations ++ [operation]) batch := by
  obtain ⟨before, nowMs, after, rfl, answered⟩ := commits
  exact ⟨before, nowMs, after ++ [operation], by simp, answered⟩

/-- The operations since a transaction was begun under a free identity say what it
holds, and contain the commit if it is committed. -/
structure Origin (limits : TransactionLimits) (id : String) (operations : List Operation)
    (batch : CommittedBatch) (committed : Prop) (earlier : List Operation) (opening : Operation)
    (later : List Operation) : Prop where
  history : operations = earlier ++ opening :: later
  begins : opening.Begins id
  absent : ((new limits).performAll earlier).state.transactions.get? id = none
  contents : batch =
    collected id ((new limits).performAll (earlier ++ [opening])) later ⟨id, [], [], []⟩
  commits : committed → Commits id ((new limits).performAll (earlier ++ [opening])) later batch

theorem Origin.state {batch : CommittedBatch} {committed : Prop} {earlier : List Operation}
    {opening : Operation} {later : List Operation}
    (origin : Origin limits id operations batch committed earlier opening later) :
    ((new limits).performAll (earlier ++ [opening])).performAll later =
      (new limits).performAll operations := by
  rw [← performAll_append, origin.history, append_assoc]
  rfl

variable {record : TransactionRecord}

/-- Every stored transaction has an origin. -/
theorem stored_origin (operations : List Operation)
    (found : ((new limits).performAll operations).state.transactions.get? id = some record) :
    ∃ earlier opening later, Origin limits id operations record.committedBatch
      (record.status = .committed) earlier opening later := by
  induction operations using reverseRecOn generalizing record with
  | nil => cases found
  | append_singleton operations operation ih =>
    rw [performAll_append] at found
    rcases perform_arises found with
      ⟨before, stored, progress⟩ | ⟨absent, begins, contents, status⟩
    · obtain ⟨earlier, opening, later, origin⟩ := ih stored
      have state := origin.state
      refine ⟨earlier, opening, later ++ [operation], ?_, origin.begins, origin.absent, ?_, ?_⟩
      · rw [origin.history, append_assoc, cons_append]
      · rw [collected_concat, state, ← origin.contents]
        exact progress.contents
      · intro committed
        -- A committed transaction was committed before, and is the same, or this is the commit.
        rcases progress.committed committed with already | ⟨nowMs, rfl, answered⟩
        · have dead : ¬ before.status.Live := by simp [already, TransactionStatus.Live]
          rw [progress.ended dead]
          exact (origin.commits already).concat operation
        · refine ⟨later, nowMs, [], rfl, ?_⟩
          rw [state]
          exact answered
    · refine ⟨operations, operation, [], rfl, begins, absent, contents, ?_⟩
      intro committed
      rw [status] at committed
      cases committed

/-- A transaction that ended is the same later, unless a checkpoint of one of the
operations in between forgot it, which frees its identity. -/
theorem ended_kept (later : List Operation) (ended : ¬ record.status.Live)
    (found : coordinator.state.transactions.get? id = some record) :
    (coordinator.performAll later).state.transactions.get? id = some record ∨
      ∃ between operation rest, later = between ++ operation :: rest ∧
        (coordinator.performAll (between ++ [operation])).state.transactions.get? id = none ∧
        Forgets id record (coordinator.performAll between)
          (coordinator.performAll (between ++ [operation])) := by
  induction later generalizing coordinator with
  | nil => exact .inl found
  | cons operation later ih =>
    cases next : (coordinator.perform operation).1.state.transactions.get? id with
    | none =>
      have forgotten := ((perform_carries ended).kept found).resolve_left (by
        rw [next]
        rintro ⟨⟩)
      exact .inr ⟨[], operation, later, rfl, next, forgotten⟩
    | some after =>
      have same : after = record := by
        rcases perform_arises next with ⟨before, stored, progress⟩ | ⟨absent, -⟩
        · rw [found] at stored
          obtain rfl := some.inj stored
          exact progress.ended ended
        · rw [found] at absent
          cases absent
      rw [same] at next
      rcases ih _ next with kept | ⟨between, forgetting, rest, rfl, lost⟩
      · exact .inl kept
      · exact .inr ⟨operation :: between, forgetting, rest, rfl, lost⟩

end History

/-! ### The coordinator as a whole -/

/-- A history of a coordinator: the files open again as the coordinator that was
closed; what is visible was begun, filled in order and committed; and what ended
stays, unless the checkpoint of a later operation evicted it. -/
structure AtomicHistory (limits : TransactionLimits) (operations : List Operation) : Prop where
  reopens : ((new limits).performAll operations).reopen = .ok ((new limits).performAll operations)
  visible : ∀ id batch,
    ((new limits).performAll operations).state.visibleBatch id = some batch →
      ∃ earlier opening later, Origin limits id operations batch True earlier opening later
  ended : ∀ earlier later, operations = earlier ++ later → ∀ id record,
    ((new limits).performAll earlier).state.transactions.get? id = some record →
      ¬ record.status.Live →
        ((new limits).performAll operations).state.transactions.get? id = some record ∨
          ∃ between operation rest, later = between ++ operation :: rest ∧
            ((new limits).performAll (earlier ++ between ++
              [operation])).state.transactions.get? id = none ∧
            Forgets id record ((new limits).performAll (earlier ++ between))
              ((new limits).performAll (earlier ++ between ++ [operation]))

/-- Every history is atomic: it survives closing and reopening at any point, shows
nothing but committed batches, and keeps what has ended until a checkpoint evicts it. -/
theorem atomicHistory (limits : TransactionLimits) (operations : List Operation) :
    AtomicHistory limits operations where
  reopens := ((durable_new limits).performAll operations).reopen
  visible := by
    intro id batch visible
    obtain ⟨record, found, shown⟩ := bind_eq_some_iff.mp visible
    split at shown
    · rename_i committed
      obtain rfl := some.inj shown
      obtain ⟨earlier, opening, later, origin⟩ := stored_origin operations found
      exact ⟨earlier, opening, later, origin.history, origin.begins, origin.absent,
        origin.contents, fun _ => origin.commits committed⟩
    · cases shown
  ended := by
    rintro earlier later rfl id record found dead
    simp only [append_assoc, performAll_append _ earlier]
    exact ended_kept _ later dead found

/-- Sixty-five transactions that began and were aborted, one after the other. -/
def manyAborted : List Operation :=
  (range 65).flatMap fun index =>
    let id := String.singleton (Char.ofNat (48 + index))
    [.begin id "tenant" "producer" 0 0, .abort id "reason"]

set_option maxRecDepth 100000 in
/-- The recovery writes their statuses again, which fills the journal; the checkpoint
forgets the first of them, and its identity begins anew. -/
theorem ended_transaction_begins_anew :
    let limits : TransactionLimits := ⟨10, 1000, 10, 1000, 1⟩
    let before := (new limits).performAll manyAborted
    let after := before.performAll [.recover 0, .begin "0" "tenant" "producer" 0 0]
    (before.state.transactions.get? "0").map (·.status) = some (.aborted "reason") ∧
      (after.state.transactions.get? "0").map (·.status) = some .opened := by
  decide +kernel

end TransactionCoordinator

end Morrow
