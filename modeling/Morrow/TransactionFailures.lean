import Morrow.TransactionJournal

/-!
# Operations on a disk that fails

An operation changes the transactions in memory and then writes its delta. When the write
or the sync fails, the operation answers with the error, and the change stays: a commit
whose delta never reached the journal shows its batch, until a restart takes it back.
-/

namespace Morrow.TransactionCoordinator

open OrderedMap

variable (coordinator : TransactionCoordinator) (operation : Operation)
  (written : List TransactionDelta)

/-- An operation whose journal write fails. The memory is changed as on a working disk; the
checks do not read the journal, and without earlier entries no checkpoint is due. `written`
is what the journal took before the failure. -/
def performFailing
    (failure : String) :
    TransactionCoordinator × Outcome Answer :=
  match { coordinator with journalEntries := 0 }.perform operation with
  | (_, .error refused) => (coordinator, .error refused)
  | (changed, .ok _) => ({ coordinator.writeDeltas written with state := changed.state },
      .error (.error failure))

/-- The operation gets as far as its journal write. -/
def Writes : Prop :=
  ∃ answer, ({ coordinator with journalEntries := 0 }.perform operation).2 = .ok answer

/-- The failed operation answers with an error and leaves transactions and epochs. -/
def FailsCleanly
    (failure : String) : Prop :=
  (coordinator.performFailing operation written failure).2 = .error (.error failure) ∧
    (coordinator.performFailing operation written failure).1.state = coordinator.state

/-- An append, a preparation, a commit and an abort change the transaction. -/
theorem edit_changes {operation : Operation} {delta : TransactionDelta} {id : String}
    {change : TransactionRecord → TransactionRecord} {limits : TransactionLimits}
    {record : TransactionRecord} (writes : operation.delta? = some delta)
    (edits : delta.edit = some (id, change)) (admits : operation.Admits limits record) :
    change record ≠ record := by
  intro same
  have contents := congrArg (fun record => (record.status, record.messages)) same
  cases operation <;> cases writes <;> cases edits <;>
    simp_all [Operation.Admits, TransactionRecord.messages]
  rw [← contents] at admits
  exact admits

/-- No operation that gets as far as its journal write fails cleanly. -/
theorem failed_write_changes_memory (coordinator : TransactionCoordinator)
    (operation : Operation) (one : operation.delta?.isSome)
    (attempted : coordinator.Writes operation) (written : List TransactionDelta)
    (failure : String) : ¬ coordinator.FailsCleanly operation written failure := by
  rintro ⟨-, unchanged⟩
  obtain ⟨delta, writes⟩ := Option.isSome_iff_exists.mp one
  obtain ⟨id, change, edits⟩ := Operation.edit_of_delta? writes
  obtain ⟨answer, answered⟩ := attempted
  rcases perform_edits writes edits with ⟨failure, refused⟩ | ⟨record, found, admits, done⟩
  · rw [refused] at answered
    cases answered
  · rw [performFailing, done] at unchanged
    have stored : some (change record) = some record := by
      rw [← found, ← unchanged]
      exact (get?_insert_self _ _ _).symm
    exact edit_changes writes edits admits (Option.some.inj stored)

/-- A transaction with one write that is prepared. -/
def preparedOnce : TransactionCoordinator :=
  (new ⟨10, 1000, 10, 1000, 1⟩).performAll [.begin "t" "tenant" "producer" 0 0,
    .append "t" ⟨"orders", 0, 0, [7]⟩ 0, .prepare "t" 0]

theorem failed_commit_changes_memory : preparedOnce.Writes (.commit "t" 0) ∧
    ¬ preparedOnce.FailsCleanly (.commit "t" 0) [] "disk full" := by
  have attempted : preparedOnce.Writes (.commit "t" 0) :=
    ⟨.batch ⟨"t", [⟨"orders", 0, 0, [7]⟩], [], []⟩, by decide +kernel⟩
  exact ⟨attempted, failed_write_changes_memory _ _ rfl attempted [] _⟩

/-- A commit whose delta is not written is answered with an error and shows its batch; after
a restart the batch is gone. -/
theorem failed_commit_visible :
    let failed := preparedOnce.performFailing (.commit "t" 0) [] "disk full"
    failed.2 = .error (.error "disk full") ∧ (failed.1.state.visibleBatch "t").isSome ∧
      failed.1.state ≠ preparedOnce.state ∧
      failed.1.reopen.map (·.state.visibleBatch "t") = .ok none := by
  decide +kernel

end Morrow.TransactionCoordinator
