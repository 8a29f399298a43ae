import Morrow.LeaseSchedule

/-!
# Consumers and dead letters

Creating, changing and removing consumers, taking over the consumers of the cluster,
and purging or replaying dead letters.
-/

namespace Morrow

/-- A consumer that has not been delivered anything. -/
def Consumer.fresh (record : ConsumerRecord) (cursors : ConsumerCursorSet) : Consumer :=
  ⟨record, cursors, ∅, ∅, ∅, ∅, ∅, ∅, 0⟩

namespace DurableBrokerState

variable (record : ConsumerRecord) (selected : List StreamDefinition)

/-- Create a consumer or change its record. A changed filter makes its frontiers
unknown. The streams found for the filter are an input. -/
def upsertConsumer
    (state : DurableBrokerState) : DurableBrokerState :=
  let initial := ConsumerCursorSet.new record.startPosition record.maxInFlight selected
    state.messages
  let consumer := match state.consumers.get? record.consumerId with
    | none => Consumer.fresh record initial
    | some existing =>
      { existing with
        record := record
        cursors := if existing.record.filterSubject ≠ record.filterSubject then
            { existing.cursors with frontiers := ∅ }
          else existing.cursors }
  { state with
    consumers := state.consumers.insert record.consumerId consumer
    readyConsumers := insert record.consumerId state.readyConsumers }

/-- Create a consumer that fetches. -/
def createPullConsumer :
    Procedure DurableBrokerState Unit := do
  let exists? ← .read (·.consumers.contains record.consumerId)
  let cursors ← .read fun state => ConsumerCursorSet.new record.startPosition record.maxInFlight
    selected state.messages
  .await (ensure (cursors.partitions.entries ≠ []) "consumer filter has no durable stream binding")
  .await (ensure (!exists?) "consumer already exists")
  append (.consumerUpsert record)
  append (.consumerCursor ⟨record.consumerId, cursors⟩)
  .change fun state => { state with
    consumers := state.consumers.insert record.consumerId (.fresh record cursors) }
  .change (markConsumerReady record.consumerId)
  flushDue

def deletePullConsumer (consumerId : String) : Procedure DurableBrokerState Unit := do
  let exists? ← .read (·.consumers.contains consumerId)
  .await (ensure exists? "unknown consumer")
  append (.consumerDelete consumerId)
  .change fun state => { state with
    consumers := state.consumers.erase consumerId
    readyConsumers := state.readyConsumers.erase consumerId }
  flushDue

/-- A consumer the cluster knows, with what this broker knows about it. -/
def syncConsumer (existing : Option Consumer) (record : ConsumerRecord)
    (cursors : ConsumerCursorSet) : Consumer :=
  match existing with
  | some consumer => { consumer with record := record }
  | none => .fresh record cursors

/-- Take over the cluster's messages and consumers. The messages are given as they are
after retention and compaction, with their payloads left out. -/
def syncDurableState (messages : OrderedMap ℕ PublishRecord)
    (consumers : OrderedMap String (ConsumerRecord × ConsumerCursorSet))
    (state : DurableBrokerState) : DurableBrokerState :=
  let next := consumers.mapValues fun consumerId durable =>
    syncConsumer (state.consumers.get? consumerId) durable.1 durable.2
  let places := messages.values.filterMap fun record => do
    some (position (← record.stream) (← record.partition) (← record.offset), record.seq)
  let synced := { state with
    messages := messages
    partitionSequences := .ofList places
    consumers := next
    readyConsumers := next.keys.toFinset }
  { synced with leaseDeadlines := .ofList synced.liveDeadlines }

def purgeDeadLetter (id : ℕ) : Procedure DurableBrokerState Bool := do
  let known ← .read (·.deadLetters.contains id)
  if known then
    append (.deadLetterPurge id)
    .change fun state => { state with deadLetters := state.deadLetters.erase id }
    pure true
  else pure false

/-- Make the message of a dead letter pending again. -/
def replayDeadLetter (id : ℕ) : Procedure DurableBrokerState Bool := do
  let letter ← .read (·.deadLetters.get? id)
  match letter with
  | none => pure false
  | some letter => do
    let possible ← .read fun state =>
      state.messages.contains letter.sourceSeq && state.consumers.contains letter.consumerId
    if possible then
      append (.deadLetterPurge id)
      .change fun state => { state with deadLetters := state.deadLetters.erase id }
      .change (modifyConsumer letter.consumerId fun consumer =>
        { consumer with
          acked := consumer.acked.erase letter.sourceSeq
          pending := insert letter.sourceSeq consumer.pending
          pendingAttempts := consumer.pendingAttempts.insert letter.sourceSeq 1 })
      .change (markConsumerReady letter.consumerId)
      pure true
    else pure false

end DurableBrokerState

end Morrow
