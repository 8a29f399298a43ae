import Morrow.Consumer
import Morrow.PriorityQueue
import Morrow.Procedure

/-!
# The state of a durable broker

What a broker keeps in memory about messages and their delivery, behind one lock: its
consumers, the messages and their places, the deadlines of leases and of scheduled
messages, the dead letters, and the write-ahead log it appends to. The disk decides
which appends succeed; what it will decide is part of the log here. Whatever is not
foreseen succeeds.
-/

namespace Morrow

open Subject

/-! ### Deadlines -/

/-- When a lease has to be looked at. -/
structure LeaseDeadline where
  deadlineMs : ℕ
  consumerId : String
  seq : ℕ
  deliveryId : ℕ
deriving DecidableEq

namespace LeaseDeadline

/-- Deadlines are compared field by field. -/
def rank (deadline : LeaseDeadline) : ℕ ×ₗ String ×ₗ ℕ ×ₗ ℕ :=
  toLex (deadline.deadlineMs,
    toLex (deadline.consumerId, toLex (deadline.seq, deadline.deliveryId)))

theorem rank_injective : Function.Injective rank := by
  rintro ⟨leftMs, leftId, leftSeq, leftDelivery⟩ ⟨rightMs, rightId, rightSeq, rightDelivery⟩ same
  obtain ⟨rfl, rest⟩ := Prod.mk.inj (toLex.injective same)
  obtain ⟨rfl, rest⟩ := Prod.mk.inj (toLex.injective rest)
  obtain ⟨rfl, rfl⟩ := Prod.mk.inj (toLex.injective rest)
  rfl

instance : LinearOrder LeaseDeadline := LinearOrder.lift' rank rank_injective

theorem deadlineMs_le {left right : LeaseDeadline} (ordered : left ≤ right) :
    left.deadlineMs ≤ right.deadlineMs := by
  have ranks : left.rank ≤ right.rank := ordered
  rcases Prod.Lex.le_iff.mp ranks with below | ⟨same, -⟩
  · exact le_of_lt below
  · exact le_of_eq same

end LeaseDeadline

/-- When a message may be delivered at the earliest. -/
structure ScheduledDelivery where
  scheduledAtMs : ℕ
  seq : ℕ
deriving DecidableEq

namespace ScheduledDelivery

def rank (entry : ScheduledDelivery) : ℕ ×ₗ ℕ := toLex (entry.scheduledAtMs, entry.seq)

theorem rank_injective : Function.Injective rank := by
  rintro ⟨leftMs, leftSeq⟩ ⟨rightMs, rightSeq⟩ same
  obtain ⟨rfl, rfl⟩ := Prod.mk.inj (toLex.injective same)
  rfl

instance : LinearOrder ScheduledDelivery := LinearOrder.lift' rank rank_injective

end ScheduledDelivery

/-- `str::parse::<u64>`: decimal digits, after at most one plus sign. -/
def parseU64 (text : String) : Option ℕ :=
  let digits := match text.toList with
    | '+' :: rest => rest
    | chars => chars
  if digits ≠ [] ∧ digits.all Char.isDigit then
    let value := digits.foldl (fun value digit => 10 * value + (digit.toNat - '0'.toNat)) 0
    if value ≤ u64Max then some value else none
  else none

/-- The time a message is scheduled for. Header names are compared without case. -/
def scheduledAtMs (record : PublishRecord) : Option ℕ :=
  (record.headers.find? (fun header => header.name.toLower == "morrow-scheduled-at")).bind
    fun header => parseU64 header.value

/-- The message is scheduled for later. -/
def PublishRecord.notYet (record : PublishRecord) (now : ℕ) : Bool :=
  (scheduledAtMs record).any (now < ·)

/-! ### The broker -/

/-- The log as the broker sees it: what was appended, the next delivery id, and
whether the coming writes succeed. -/
structure BrokerWal where
  journal : List WalRecord
  nextDeliveryId : ℕ
  outcomes : List Bool

structure DurableBrokerState where
  consumers : OrderedMap String Consumer
  messages : OrderedMap ℕ PublishRecord
  partitionSequences : OrderedMap Position ℕ
  readyConsumers : Finset String
  leaseDeadlines : PriorityQueue LeaseDeadline
  scheduledDeliveries : PriorityQueue ScheduledDelivery
  deadLetters : OrderedMap ℕ DeadLetterRecord
  ackedCleanup : Finset ℕ
  wal : BrokerWal

namespace DurableBrokerState

/-- A broker without messages and consumers. -/
def empty : DurableBrokerState := ⟨∅, ∅, ∅, ∅, ∅, ∅, ∅, ∅, ⟨[], 1, []⟩⟩

def modifyConsumer (consumerId : String) (update : Consumer → Consumer)
    (state : DurableBrokerState) : DurableBrokerState :=
  { state with consumers := state.consumers.modify consumerId update }

variable (state : DurableBrokerState)

/-- The lease a consumer holds on a message. -/
def lease? (consumerId : String) (seq : ℕ) : Option InFlight :=
  (state.consumers.get? consumerId).bind (·.inFlight.get? seq)

/-! ### Appending to the log -/

/-- The disk takes the next write, or refuses it. -/
def write (update : BrokerWal → BrokerWal) : Procedure DurableBrokerState Unit := fun state =>
  let wal := { state.wal with outcomes := state.wal.outcomes.tail }
  if state.wal.outcomes.head?.getD true then ({ state with wal := update wal }, .ok ())
  else ({ state with wal := wal }, .error (.error "appending WAL record"))

/-- A write changes nothing but the log. -/
theorem keeps_write {holds : DurableBrokerState → Prop}
    (ignores : ∀ state wal, holds state → holds { state with wal := wal })
    (update : BrokerWal → BrokerWal) : (write update).Keeps holds := by
  intro state held
  simp only [write]
  split <;> exact ignores state _ held

def append (record : WalRecord) : Procedure DurableBrokerState Unit :=
  write fun wal => { wal with journal := wal.journal ++ [record] }

/-- The delivery id is used up even if the write fails. -/
def appendDeliveryAttempt (seq : ℕ) (consumerId : String) (deadlineMs attempt : ℕ) :
    Procedure DurableBrokerState DeliveryAttemptRecord := do
  let deliveryId ← .read (·.wal.nextDeliveryId)
  .change fun state =>
    { state with wal := { state.wal with nextDeliveryId := state.wal.nextDeliveryId + 1 } }
  let record : DeliveryAttemptRecord :=
    ⟨seq, consumerId, deliveryId, deadlineMs, attempt, false⟩
  append (.deliveryAttempt record)
  pure record

/-- A delivery of a batch, with the cursors as they are after it. -/
structure DeliveryBatchEntry where
  seq : ℕ
  consumerId : String
  deadlineMs : ℕ
  attempt : ℕ
  cursors : ConsumerCursorSet

/-- Every delivery is followed by its cursors. The first write that fails ends the batch. -/
def appendDeliveryBatch :
    List DeliveryBatchEntry → Procedure DurableBrokerState (List DeliveryAttemptRecord)
  | [] => pure []
  | entry :: entries => do
    let lease ← appendDeliveryAttempt entry.seq entry.consumerId entry.deadlineMs entry.attempt
    append (.consumerCursor ⟨entry.consumerId, entry.cursors⟩)
    let leases ← appendDeliveryBatch entries
    pure (lease :: leases)

/-- Write out what is due; nothing but the disk's answer matters here. -/
def flushDue : Procedure DurableBrokerState Unit := write id

/-! ### Messages -/

/-- The consumers whose filter matches a subject. -/
def interested (subject : String) : Finset String :=
  ((state.consumers.entries.filter fun entry =>
    subjectMatches entry.2.record.filterSubject subject).map Prod.fst).toFinset

def markSubjectReady (subject : String) (state : DurableBrokerState) : DurableBrokerState :=
  { state with readyConsumers := state.readyConsumers ∪ state.interested subject }

def markConsumerReady (consumerId : String) (state : DurableBrokerState) : DurableBrokerState :=
  if state.consumers.contains consumerId then
    { state with readyConsumers := insert consumerId state.readyConsumers }
  else state

/-- A cursor looks at the subject itself, so all consumers are shown the record. -/
def observePublishedRecord (record : PublishRecord) (state : DurableBrokerState) :
    DurableBrokerState :=
  { state with
    scheduledDeliveries := match scheduledAtMs record with
      | some scheduled => state.scheduledDeliveries.push ⟨scheduled, record.seq⟩
      | none => state.scheduledDeliveries
    consumers := state.consumers.mapValues fun _ consumer =>
      { consumer with
        cursors := consumer.cursors.observePublishedRecord consumer.record.filterSubject record } }

/-- A stored record becomes visible. -/
def showRecord (record : PublishRecord) (state : DurableBrokerState) : DurableBrokerState :=
  let placed := match record.stream, record.partition, record.offset with
    | some stream, some partition, some offset =>
      state.partitionSequences.insert (position stream partition offset) record.seq
    | _, _, _ => state.partitionSequences
  let known := { state with
    partitionSequences := placed
    messages := state.messages.insert record.seq record.intoResidentMetadata }
  (known.observePublishedRecord record).markSubjectReady record.subject

/-- Messages outside streams are forgotten once every consumer that was offered them
has acknowledged them. -/
def cleanupAckedMessages : DurableBrokerState :=
  let removable := state.ackedCleanup.filter fun seq =>
    (state.messages.get? seq).all (·.stream.isNone) ∧
      (let offered := state.consumers.values.filter fun consumer =>
        seq ∈ consumer.pending ∨ consumer.inFlight.contains seq ∨ seq ∈ consumer.acked
      offered ≠ [] ∧ ∀ consumer ∈ offered, seq ∈ consumer.acked)
  { state with
    ackedCleanup := ∅
    messages := state.messages.retain fun seq _ => seq ∉ removable }

end DurableBrokerState

end Morrow
