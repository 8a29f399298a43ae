import Morrow.LeaseSchedule

/-!
# Acknowledging a delivery

An acknowledgement names a lease. If it is the one the consumer holds, the consumer's
cursor is moved, the acknowledgement is journaled, and then the cursor.
-/

namespace Morrow

namespace DurableBrokerState

variable (consumerId : String)

/-- Move the cursor of the message's partition. The consumer is taken out of the
table for the duration of the call, and is put back only if its cursor moved. -/
def moveCursor (message : PublishRecord) :
    Procedure DurableBrokerState (Option ConsumerCursorDeltaRecord) := fun state =>
  match state.consumers.get? consumerId with
  | none => (state, .error .panicked)
  | some consumer =>
    match consumer.cursors.acknowledge message consumer.record.filterSubject state.messages with
    | .error message =>
      ({ state with consumers := state.consumers.erase consumerId }, .error (.error message))
    | .ok cursors =>
      let key := partitionKey (message.stream.getD "") (message.partition.getD 0)
      let moved := { consumer with cursors := cursors }
      ({ state with consumers := state.consumers.insert consumerId moved },
        .ok ((cursors.partitions.get? key).map fun cursor =>
          ⟨consumerId, cursors.ackWindow, cursor⟩))

/-- The consumer no longer holds the lease. -/
def giveBack (seq : ℕ) (noted : Bool) (consumer : Consumer) : Consumer :=
  { consumer with
    inFlight := consumer.inFlight.erase seq
    pending := consumer.pending.erase seq
    pendingAttempts := consumer.pendingAttempts.erase seq
    acked := if noted then insert seq consumer.acked else consumer.acked }

/-- The cursor that moves, if the message has a place in a partition. -/
def acknowledgeMessage (message : Option PublishRecord) :
    Procedure DurableBrokerState (Option ConsumerCursorDeltaRecord) :=
  match message with
  | some message => if message.offset.isSome then moveCursor consumerId message else pure none
  | none => pure none

def journalDelta (delta : Option ConsumerCursorDeltaRecord) : Procedure DurableBrokerState Unit :=
  match delta with
  | some delta => append (.consumerCursorDelta delta)
  | none => pure ()

def ackInner (seq deliveryId : ℕ) : Procedure DurableBrokerState Bool := do
  let lease ← .read (·.lease? consumerId seq)
  if lease.any (·.deliveryId = deliveryId) then
    let message ← .read (·.messages.get? seq)
    let delta ← acknowledgeMessage consumerId message
    append (.ack ⟨seq, consumerId, deliveryId⟩)
    .change (modifyConsumer consumerId (giveBack seq (delta.isNone && message.isSome)))
    .change fun state => { state with ackedCleanup := insert seq state.ackedCleanup }
    journalDelta delta
    .change (markConsumerReady consumerId)
    .change cleanupAckedMessages
    flushDue
    pure true
  else
    flushDue
    pure false

/-! ### Acknowledgements that the cursor rejects -/

/-- The consumer holds the lease on a message of a partition. -/
structure Held (state : DurableBrokerState) (consumerId : String) (seq deliveryId : ℕ)
    (consumer : Consumer) (message : PublishRecord) (offset : ℕ) : Prop where
  known : state.consumers.get? consumerId = some consumer
  lease : (consumer.inFlight.get? seq).any (·.deliveryId = deliveryId) = true
  stored : state.messages.get? seq = some message
  placed : message.offset = some offset

variable (state : DurableBrokerState)

/-- The consumer has a cursor in the partition that has gone past the message or has room
for its offset. -/
def Takes (consumer : Consumer) (message : PublishRecord)
    (offset : ℕ) : Prop :=
  ∃ cursor, consumer.cursors.cursorFor message = some cursor ∧
    (offset < cursor.committedOffset ∨ ConsumerCursorSet.Allows consumer.cursors.ackWindow
      (consumer.cursors.nextOffset consumer.record.filterSubject state.messages
        (partitionKey (message.stream.getD "") (message.partition.getD 0))) cursor offset)

/-- If the cursor rejects the acknowledgement, the consumers and the log stay as they are. -/
def RejectionHarmless (consumerId : String)
    (seq deliveryId : ℕ) : Prop :=
  ∀ consumer message offset reason, state.Held consumerId seq deliveryId consumer message offset →
    consumer.cursors.acknowledge message consumer.record.filterSubject state.messages =
      .error reason →
    let after := (ackInner consumerId seq deliveryId state).1
    after.consumers = state.consumers ∧ after.wal = state.wal

variable {state : DurableBrokerState} {consumerId : String} {seq deliveryId : ℕ}
  {consumer : Consumer} {message : PublishRecord} {offset : ℕ}

theorem acknowledge_error (placed : message.offset = some offset) :
    (∃ reason, consumer.cursors.acknowledge message consumer.record.filterSubject state.messages =
      .error reason) ↔ ¬ state.Takes consumer message offset := by
  unfold ConsumerCursorSet.acknowledge Takes
  rw [placed]
  cases found : consumer.cursors.cursorFor message with
  | none => simp
  | some cursor =>
    simp only [Option.some.injEq, exists_eq_left']
    split
    · simp [*]
    · split <;> simp [*]

/-- The consumer is not put back. -/
theorem ackInner_rejected {reason : String}
    (held : state.Held consumerId seq deliveryId consumer message offset)
    (rejected : consumer.cursors.acknowledge message consumer.record.filterSubject state.messages =
      .error reason) :
    (ackInner consumerId seq deliveryId state).1.consumers = state.consumers.erase consumerId := by
  have lease : (state.lease? consumerId seq).any (·.deliveryId = deliveryId) = true := by
    rw [lease?, held.known]
    exact held.lease
  have moved : acknowledgeMessage consumerId (state.messages.get? seq) state =
      ({ state with consumers := state.consumers.erase consumerId }, .error (.error reason)) := by
    have placed : message.offset.isSome = true := by rw [held.placed, Option.isSome_some]
    simp only [acknowledgeMessage, held.stored, if_pos placed, moveCursor, held.known, rejected]
  rw [ackInner, Procedure.read_bind, if_pos lease, Procedure.read_bind,
    Procedure.bind_of_error moved]

/-- A rejected acknowledgement always costs the consumer its place in the table. -/
theorem rejectionHarmless_iff (state : DurableBrokerState) (consumerId : String)
    (seq deliveryId : ℕ) :
    state.RejectionHarmless consumerId seq deliveryId ↔
      ∀ consumer message offset, state.Held consumerId seq deliveryId consumer message offset →
        state.Takes consumer message offset := by
  constructor
  · intro harmless consumer message offset held
    by_contra refused
    obtain ⟨reason, rejected⟩ := (acknowledge_error held.placed).mpr refused
    have kept := (harmless consumer message offset reason held rejected).1
    rw [ackInner_rejected held rejected] at kept
    have gone : (state.consumers.erase consumerId).get? consumerId = none := by
      rw [OrderedMap.get?_erase, if_pos rfl]
    rw [kept, held.known] at gone
    cases gone
  · intro takes consumer message offset reason held rejected
    exact absurd (takes consumer message offset held)
      ((acknowledge_error held.placed).mp ⟨reason, rejected⟩)

/-- A consumer that has acknowledged the second of three messages out of order and has no
room for another one, and holds the other two. -/
def windowFull : DurableBrokerState :=
  let message := ConsumerCursorSet.sampleMessage
  let lease (id : ℕ) : InFlight := ⟨id, 0, 1, false⟩
  let consumer : Consumer :=
    { record := ⟨"c", "orders/*", none, 30000, 1, .earliest, .default⟩
      cursors := ⟨.ofList [("orders:0", ⟨"orders", 0, 0, some 2, {1}, 0⟩)], 1, ∅⟩
      members := ∅, pending := ∅, pendingAttempts := ∅, preparing := ∅
      inFlight := .ofList [(0, lease 7), (2, lease 9)]
      acked := ∅, delivered := 3 }
  { empty with
    consumers := .ofList [("c", consumer)]
    messages := .ofList [(0, message 0), (1, message 1), (2, message 2)] }

/-- Its third message is not acknowledged, and then the first cannot be either. -/
theorem rejected_ack_loses_consumer : ¬ windowFull.RejectionHarmless "c" 2 9 ∧
    (windowFull.lease? "c" 0).any (·.deliveryId = 7) = true ∧
    (ackInner "c" 0 7 (ackInner "c" 2 9 windowFull).1).2 = .ok false := by
  refine ⟨fun harmless => ?_, by decide +kernel, by decide +kernel⟩
  have kept := (harmless _ _ _ "consumer acknowledgement window exceeded"
    ⟨rfl, by decide +kernel, rfl, rfl⟩ (by decide +kernel)).1
  revert kept
  decide +kernel

end DurableBrokerState

end Morrow
