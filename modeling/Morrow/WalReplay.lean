import Morrow.Subject
import Morrow.WalRecord

/-!
# Replaying the write-ahead log

A replay applies the records of the log, oldest first, to an initially empty state.
Afterwards the deliveries that were in flight are made pending again, and messages
that every interested consumer has acknowledged are forgotten.

Decoding comes before any change to the state, so a record that cannot be decoded
leaves the state as it was.
-/

namespace Morrow

open List ByteCodec

/-- What a replay finds out about a consumer. -/
structure ReplayedConsumer where
  record : ConsumerRecord
  cursors : Option ConsumerCursorSet
  pending : Finset ℕ
  pendingAttempts : OrderedMap ℕ ℕ
  inFlight : OrderedMap ℕ DeliveryAttemptRecord
  acked : Finset ℕ
deriving DecidableEq

structure ReplayState where
  maxSeq : ℕ
  maxDeliveryId : ℕ
  messages : OrderedMap ℕ PublishRecord
  partitionAppends : OrderedMap ℕ PartitionAppendRecord
  consumers : OrderedMap String ReplayedConsumer
  deadLetters : OrderedMap ℕ DeadLetterRecord
  producerSequences : OrderedMap (String ×ₗ ℕ ×ₗ ℕ) ProducerSequenceRecord
  groups : OrderedMap String GroupRecord
deriving DecidableEq

namespace ReplayedConsumer

/-- A consumer that has just been created. -/
def fresh (record : ConsumerRecord) : ReplayedConsumer := ⟨record, none, ∅, ∅, ∅, ∅⟩

/-- A message becomes pending for a consumer without cursors whose filter it
matches, unless it has been acknowledged. -/
def enqueue (seq : ℕ) (subject : String) (consumer : ReplayedConsumer) : ReplayedConsumer :=
  if consumer.cursors.isNone ∧ Subject.subjectMatches consumer.record.filterSubject subject ∧
      seq ∉ consumer.acked then
    { consumer with pending := insert seq consumer.pending }
  else consumer

def attempt (attempt : DeliveryAttemptRecord) (consumer : ReplayedConsumer) : ReplayedConsumer :=
  if attempt.seq ∉ consumer.acked then
    { consumer with
      pending := consumer.pending.erase attempt.seq
      inFlight := consumer.inFlight.insert attempt.seq attempt }
  else consumer

def ack (seq : ℕ) (consumer : ReplayedConsumer) : ReplayedConsumer :=
  { consumer with
    acked := insert seq consumer.acked
    pending := consumer.pending.erase seq
    inFlight := consumer.inFlight.erase seq }

/-- A full cursor set replaces what was known. -/
def setCursors (cursors : ConsumerCursorSet) (consumer : ReplayedConsumer) : ReplayedConsumer :=
  { consumer with cursors := some cursors }

/-- A delta replaces one partition's cursor and keeps the frontiers. -/
def applyDelta (delta : ConsumerCursorDeltaRecord) (consumer : ReplayedConsumer) :
    ReplayedConsumer :=
  let cursors := consumer.cursors.getD ConsumerCursorSet.default
  consumer.setCursors
    { cursors with
      ackWindow := delta.ackWindow
      partitions := cursors.partitions.insert
        (partitionKey delta.cursor.stream delta.cursor.partition) delta.cursor }

end ReplayedConsumer

namespace ReplayState

def empty : ReplayState := ⟨0, 0, ∅, ∅, ∅, ∅, ∅, ∅⟩

/-- Make a message pending where it is wanted. -/
def enqueue (seq : ℕ) (subject : String) (state : ReplayState) : ReplayState :=
  { state with
    maxSeq := max state.maxSeq seq
    consumers := state.consumers.mapValues (fun _ => ReplayedConsumer.enqueue seq subject) }

variable (state : ReplayState)

/-- Apply one decoded record. -/
def apply : WalRecord → ReplayState
  | .publish record =>
    let state := state.enqueue record.seq record.subject
    { state with messages := state.messages.insert record.seq record }
  | .consumerUpsert record =>
    let consumer := match state.consumers.get? record.consumerId with
      | some consumer => { consumer with record := record }
      | none => ReplayedConsumer.fresh record
    { state with consumers := state.consumers.insert record.consumerId consumer }
  | .deliveryAttempt attempt =>
    { state with
      maxDeliveryId := max state.maxDeliveryId attempt.deliveryId
      consumers := state.consumers.modify attempt.consumerId (·.attempt attempt) }
  | .ack ack =>
    { state with
      maxDeliveryId := max state.maxDeliveryId ack.deliveryId
      consumers := state.consumers.modify ack.consumerId (·.ack ack.seq) }
  | .partitionAppend record =>
    let state := state.enqueue record.seq record.subject
    { state with partitionAppends := state.partitionAppends.insert record.seq record }
  | .consumerCursor record =>
    { state with
      consumers := state.consumers.modify record.consumerId (·.setCursors record.cursors) }
  | .consumerCursorDelta record =>
    { state with consumers := state.consumers.modify record.consumerId (·.applyDelta record) }
  | .consumerDelete consumerId => { state with consumers := state.consumers.erase consumerId }
  | .deadLetter record => { state with deadLetters := state.deadLetters.insert record.id record }
  | .deadLetterPurge id => { state with deadLetters := state.deadLetters.erase id }
  | .producerSequence record =>
    { state with
      producerSequences := state.producerSequences.insert
        (toLex (record.producerId, toLex (record.epoch, record.sequence))) record }
  | .groupState group record => { state with groups := state.groups.insert group record }

/-- Apply the records of a log in order. -/
def applyAll (records : List WalRecord) : ReplayState :=
  records.foldl apply state

/-- One delivery that was in flight becomes the next attempt. -/
def expire (consumer : ReplayedConsumer)
    (entry : ℕ × DeliveryAttemptRecord) : ReplayedConsumer :=
  let known := state.messages.contains entry.1 || state.partitionAppends.contains entry.1
  { consumer with
    inFlight := consumer.inFlight.erase entry.1
    pendingAttempts :=
      consumer.pendingAttempts.insert entry.1 (min (entry.2.attempt + 1) u32Max)
    pending := if consumer.cursors.isNone ∧ entry.1 ∉ consumer.acked ∧ known then
        insert entry.1 consumer.pending
      else consumer.pending }

/-- No delivery survives a restart in flight. -/
def expireInFlight : ReplayState :=
  { state with
    consumers := state.consumers.mapValues
      (fun _ consumer => consumer.inFlight.entries.foldl state.expire consumer) }

end ReplayState

/-- The consumer has been offered the message. -/
def ReplayedConsumer.interested (seq : ℕ) (consumer : ReplayedConsumer) : Bool :=
  seq ∈ consumer.pending || consumer.inFlight.contains seq || seq ∈ consumer.acked

/-- Forget messages outside streams that someone wanted and everyone who did has
acknowledged. -/
def cleanupAckedMessages (messages : OrderedMap ℕ PublishRecord)
    (consumers : OrderedMap String ReplayedConsumer) : OrderedMap ℕ PublishRecord :=
  messages.retain fun seq message =>
    let interested := consumers.values.filter (·.interested seq)
    !(message.stream.isNone && !interested.isEmpty &&
      interested.all (fun consumer => seq ∈ consumer.acked))

/-- What opening the log hands to the broker. -/
structure Replay where
  messages : OrderedMap ℕ PublishRecord
  partitionAppends : OrderedMap ℕ PartitionAppendRecord
  consumers : OrderedMap String ReplayedConsumer
  deadLetters : OrderedMap ℕ DeadLetterRecord
  producerSequences : OrderedMap (String ×ₗ ℕ ×ₗ ℕ) ProducerSequenceRecord
  groups : OrderedMap String GroupRecord
  nextSeq : ℕ
  nextDeliveryId : ℕ
  truncations : ℕ
deriving DecidableEq

/-- The state handed over after the last record; the counters go on behind the
largest numbers seen, and the thread stops if there is no next number. -/
def ReplayState.finish (state : ReplayState) (truncations : ℕ) : Outcome Replay :=
  let expired := state.expireInFlight
  if state.maxSeq < u64Max ∧ state.maxDeliveryId < u64Max then
    .ok {
      messages := cleanupAckedMessages expired.messages expired.consumers
      partitionAppends := expired.partitionAppends
      consumers := expired.consumers
      deadLetters := expired.deadLetters
      producerSequences := expired.producerSequences
      groups := expired.groups
      nextSeq := state.maxSeq + 1
      nextDeliveryId := state.maxDeliveryId + 1
      truncations := truncations }
  else .error .panicked

/-! ### Counters -/

namespace ReplayState

/-- There is a next sequence number and a next delivery id. -/
def Counted (state : ReplayState) : Prop :=
  state.maxSeq < u64Max ∧ state.maxDeliveryId < u64Max

theorem counted_empty : empty.Counted := ⟨by decide, by decide⟩

variable {state : ReplayState}

/-- A record moves the counters no further than the numbers it carries. -/
theorem Counted.apply (counted : state.Counted) {record : WalRecord}
    (bounded : ∀ counter ∈ record.counters, counter < u64Max) : (state.apply record).Counted := by
  obtain ⟨seqs, deliveries⟩ := counted
  cases record with
  | publish record => exact ⟨max_lt seqs (bounded _ mem_cons_self), deliveries⟩
  | deliveryAttempt attempt => exact ⟨seqs, max_lt deliveries (bounded _ mem_cons_self)⟩
  | ack ack => exact ⟨seqs, max_lt deliveries (bounded _ mem_cons_self)⟩
  | partitionAppend record => exact ⟨max_lt seqs (bounded _ mem_cons_self), deliveries⟩
  | _ => exact ⟨seqs, deliveries⟩

theorem Counted.applyAll (counted : state.Counted) {records : List WalRecord}
    (bounded : ∀ record ∈ records, ∀ counter ∈ record.counters, counter < u64Max) :
    (state.applyAll records).Counted := by
  induction records generalizing state with
  | nil => exact counted
  | cons record records ih =>
    apply ih (counted.apply (bounded record mem_cons_self))
    exact (forall_mem_cons.mp bounded).2

theorem finish_counted (counted : state.Counted) (truncations : ℕ) :
    ∃ replay, state.finish truncations = .ok replay :=
  ⟨_, if_pos counted⟩

/-- What is handed over names the partition appends the records named, and the
truncations that were counted. -/
theorem finish_fields {truncations : ℕ} {replay : Replay}
    (finished : state.finish truncations = .ok replay) :
    replay.partitionAppends = state.partitionAppends ∧ replay.truncations = truncations := by
  simp only [finish] at finished
  split at finished
  · injection finished with same
    rw [← same]
    exact ⟨rfl, rfl⟩
  · cases finished

end ReplayState

end Morrow
