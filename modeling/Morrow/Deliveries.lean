import Morrow.LeaseSchedule

/-!
# Delivering messages

A message is pushed to a connection that has room for it, or a consumer fetches it.
Both ways look for the next message in the consumer's cursors first and among its
pending messages then. A push looks, journals and leases in one go. A fetch reserves
one message after the other, reads them while the broker does other things, and turns
the reservations into leases in the end.
-/

namespace Morrow

/-- The smallest number of a set. -/
def leastOf (set : Finset ℕ) : Option ℕ :=
  if found : set.Nonempty then some (set.min' found) else none

theorem leastOf_mem {set : Finset ℕ} {least : ℕ} (found : leastOf set = some least) :
    least ∈ set := by
  unfold leastOf at found
  split at found
  · rw [← Option.some.inj found]
    exact Finset.min'_mem _ _
  · cases found

inductive MiddlewareDecision
  | proceed
  | drop
  | reject
deriving DecidableEq

/-- What the middleware makes of a message. -/
structure MiddlewareOutcome where
  decision : MiddlewareDecision
  message : PublishRecord
  emits : Bool

/-- The world around the broker's state during a delivery: the time, the partition
logs, what reading a stored message gives, and the middleware. -/
structure DeliveryWorld where
  now : ℕ
  logs : PartitionLogSet
  load : PublishRecord → Outcome PublishRecord
  middleware : PublishRecord → Outcome MiddlewareOutcome

namespace DurableBrokerState

variable (consumerId : String)

/-- Look for the next message that is not excluded. -/
def search (consumer : Consumer) (logs : PartitionLogSet)
    (excluded : ℕ → Bool) (state : DurableBrokerState) : DurableBrokerState × Option ℕ :=
  let searched := consumer.cursors.nextIndexedCandidate state.messages state.partitionSequences
    (logs.matchingOffsets consumer.record.filterSubject) excluded
  (state.modifyConsumer consumerId fun consumer => { consumer with cursors := searched.1 },
    searched.2.or (leastOf (consumer.pending.filter fun seq => excluded seq = false)))

/-! ### Push -/

structure PushDelivery where
  seq : ℕ
  connectionId : ℕ
  sid : String
  attempt : ℕ
  deadlineMs : ℕ
  message : PublishRecord

variable (consumer : Consumer) (connections : Finset ℕ)

/-- A connected member with enough credit for a payload. -/
def memberFor (payloadLength : ℕ) :
    Option (ℕ × SubscriptionMember) :=
  consumer.members.entries.find? fun entry =>
    decide (entry.1 ∈ connections) && decide (0 < entry.2.creditMessages) &&
      decide (payloadLength ≤ entry.2.creditBytes)

/-- The next message to push, and to whom. -/
def nextDeliveryFor (world : DeliveryWorld) :
    Procedure DurableBrokerState (Option PushDelivery) := do
  let found ← .read (·.consumers.get? consumerId)
  match found with
  | none => pure none
  | some consumer =>
    if consumer.record.maxInFlight ≤ consumer.inFlight.entries.length ∨
        consumer.members.entries = [] then pure none
    else do
      let seq ← .answer (search consumerId consumer world.logs consumer.inFlight.contains)
      let metadata ← .read fun state => seq.bind fun seq => state.messages.get? seq
      match seq, metadata with
      | some seq, some metadata =>
        if metadata.notYet world.now then pure none
        else do
          let message ← .await (world.load metadata)
          match memberFor consumer connections message.payload.length with
          | none => pure none
          | some (connectionId, member) =>
            pure (some ⟨seq, connectionId, member.sid,
              (consumer.pendingAttempts.get? seq).getD 1,
              saturatingAdd world.now consumer.record.ackTimeoutMs, message⟩)
      | _, _ => pure none

variable (message : PublishRecord)

/-- The part of a message that its cursor needs. -/
def cursorRecord : PublishRecord :=
  { message with subject := "", key := none, headers := [], replyTo := none, payload := [] }

/-- A message the middleware drops counts as acknowledged. -/
def acknowledgeFilteredDelivery :
    Procedure DurableBrokerState Unit := do
  let found ← .read fun state => (state.consumers.get? consumerId).map fun consumer =>
    consumer.cursors.acknowledge message consumer.record.filterSubject state.messages
  match found with
  | none => .await (.error (.error "middleware consumer disappeared"))
  | some acknowledged => do
    let cursors ← .await (reported acknowledged)
    .change (modifyConsumer consumerId fun consumer => { consumer with cursors := cursors })
    append (.consumerCursor ⟨consumerId, cursors⟩)

/-- The consumer holds a lease on a pushed message. -/
def lend (seq : ℕ) (message : PublishRecord) (delivery : DeliveryAttemptRecord)
    (consumer : Consumer) : Consumer :=
  { consumer with
    cursors := if message.offset.isSome then consumer.cursors.markDelivered message
      else consumer.cursors
    pending := consumer.pending.erase seq
    pendingAttempts := consumer.pendingAttempts.erase seq
    inFlight := consumer.inFlight.insert seq (.ofRecord delivery)
    delivered := consumer.delivered + 1 }

/-- A member has used credit for one message. It leaves after its last delivery. -/
def consumeDurableMember (connectionId payloadBytes : ℕ)
    (state : DurableBrokerState) : DurableBrokerState :=
  state.modifyConsumer consumerId fun consumer =>
    match consumer.members.get? connectionId with
    | none => consumer
    | some member =>
      let used := { member with
        creditMessages := member.creditMessages - 1
        creditBytes := member.creditBytes - payloadBytes
        remainingDeliveries := member.remainingDeliveries.map (· - 1) }
      { consumer with
        members := if used.remainingDeliveries = some 0 then consumer.members.erase connectionId
          else consumer.members.insert connectionId used }

/-- Journal the cursors of a consumer as they are now. -/
def journalCursors : Procedure DurableBrokerState Unit := do
  let known ← .read (·.consumers.get? consumerId)
  match known with
  | some consumer => append (.consumerCursor ⟨consumerId, consumer.cursors⟩)
  | none => pure ()

/-- Journal a pushed message and lease it to the consumer. -/
def leasePush (push : PushDelivery)
    (payloadBytes : ℕ) : Procedure DurableBrokerState Unit := do
  let delivery ← appendDeliveryAttempt push.seq consumerId push.deadlineMs push.attempt
  .change (modifyConsumer consumerId (lend push.seq (cursorRecord push.message) delivery))
  journalCursors consumerId
  .change (scheduleLease consumerId push.seq delivery)
  if push.connectionId ∈ connections then
    .change (consumeDurableMember consumerId push.connectionId payloadBytes)
  else pure ()

/-- One turn of the delivery loop for a consumer. The answer tells whether there was
a message. -/
def deliverNext (world : DeliveryWorld) :
    Procedure DurableBrokerState Bool := do
  let found ← nextDeliveryFor consumerId connections world
  match found with
  | none => pure false
  | some push => do
    let outcome ← .await (world.middleware push.message)
    .await (ensure (!outcome.emits) "before-deliver middleware cannot emit publications")
    match outcome.decision with
    | .reject => .await (.error (.error "before-deliver middleware rejected delivery"))
    | .drop => do
      acknowledgeFilteredDelivery consumerId (cursorRecord push.message)
      pure true
    | .proceed => do
      leasePush consumerId connections push outcome.message.payload.length
      pure true

/-! ### Reservations -/

/-- A reserved message, with the lease it is to get. -/
structure Candidate where
  seq : ℕ
  attempt : ℕ
  deadlineMs : ℕ
  message : PublishRecord

variable (partitions : Option (Finset ℕ)) (state : DurableBrokerState)

/-- The message is in a partition the fetch may read. -/
def allowed (seq : ℕ) : Bool :=
  partitions.all fun partitions =>
    ((state.messages.get? seq).bind (·.partition)).any fun partition =>
      decide (partition ∈ partitions)

/-- The first lease that is due, in a partition the fetch may read. -/
def dueLease (now : ℕ) (partitions : Option (Finset ℕ))
    (state : DurableBrokerState) : Option (ℕ × InFlight) :=
  consumer.inFlight.entries.find? fun entry =>
    decide (entry.2.deadlineMs ≤ now) && state.allowed partitions entry.1

/-- A fetch does not take up what is leased, reserved or elsewhere. -/
def unavailable
    (seq : ℕ) : Bool :=
  consumer.inFlight.contains seq || decide (seq ∈ consumer.preparing) ||
    !state.allowed partitions seq

/-- The next message to fetch, the number of the attempt and its deadline. A lease
that is due comes first. -/
def nextPullCandidate (logs : PartitionLogSet) (now : ℕ)
    (partitions : Option (Finset ℕ)) (state : DurableBrokerState) :
    DurableBrokerState × Option (ℕ × ℕ × ℕ) :=
  match state.consumers.get? consumerId with
  | none => (state, none)
  | some consumer =>
    let deadline := if now + consumer.record.ackTimeoutMs ≤ u64Max
      then some (now + consumer.record.ackTimeoutMs) else none
    match state.dueLease consumer now partitions with
    | some (seq, lease) => (state, deadline.map fun deadline =>
        (seq, nextAttempt lease.attempt, deadline))
    | none =>
      if consumer.record.maxInFlight ≤ consumer.inFlight.entries.length then (state, none)
      else
        let searched := state.search consumerId consumer logs
          (state.unavailable consumer partitions)
        (searched.1, do
          let seq ← searched.2
          if (state.messages.get? seq).any (·.notYet now) then none
          else
            let deadline ← deadline
            some (seq, (consumer.pendingAttempts.get? seq).getD 1, deadline))

def reservePullCandidate (logs : PartitionLogSet) (now : ℕ)
    (partitions : Option (Finset ℕ)) (state : DurableBrokerState) :
    DurableBrokerState × Option Candidate :=
  let next := state.nextPullCandidate consumerId logs now partitions
  match next.2 with
  | none => (next.1, none)
  | some (seq, attempt, deadline) =>
    match next.1.messages.get? seq with
    | none => (next.1, none)
    | some metadata =>
      if metadata.notYet now then (next.1, none)
      else
        (next.1.modifyConsumer consumerId fun consumer =>
            { consumer with preparing := insert seq consumer.preparing },
          some ⟨seq, attempt, deadline, metadata⟩)

def releasePullCandidate (seq : ℕ) (state : DurableBrokerState) :
    DurableBrokerState :=
  state.modifyConsumer consumerId fun consumer =>
    { consumer with preparing := consumer.preparing.erase seq }

/-- The reservation is used up, and the message marked as delivered. -/
def takeReservation (candidate : Candidate) (consumer : Consumer) : Consumer :=
  { consumer with
    preparing := consumer.preparing.erase candidate.seq
    cursors := consumer.cursors.markDelivered candidate.message }

/-- Take the reservations one by one. -/
def takeReservations (consumerId : String) : List Candidate → Consumer →
    Consumer × Outcome (List DeliveryBatchEntry)
  | [], consumer => (consumer, .ok [])
  | candidate :: candidates, consumer =>
    if candidate.seq ∈ consumer.preparing then
      let marked := takeReservation candidate consumer
      let entry : DeliveryBatchEntry :=
        ⟨candidate.seq, consumerId, candidate.deadlineMs, candidate.attempt, marked.cursors⟩
      let rest := takeReservations consumerId candidates marked
      (rest.1, rest.2.map (entry :: ·))
    else (consumer, .error (.error "pull candidate is not reserved"))

/-- The consumer holds a lease on a fetched message. -/
def lendFetched (lease : DeliveryAttemptRecord) : Consumer :=
  { consumer with
    pendingAttempts := consumer.pendingAttempts.erase lease.seq
    inFlight := consumer.inFlight.insert lease.seq (.ofRecord lease)
    delivered := consumer.delivered + 1 }

/-- Undo the reservations' effect on the cursors, and make them again. -/
def restore (before : Consumer) (prepared : List Candidate) (consumer : Consumer) : Consumer :=
  { consumer with
    cursors := before.cursors
    delivered := before.delivered
    preparing := consumer.preparing ∪ (prepared.map (·.seq)).toFinset }

/-- Journal a batch; if that fails the reservations are made again. -/
def journalBatch (before : Consumer) (prepared : List Candidate)
    (entries : List DeliveryBatchEntry) :
    Procedure DurableBrokerState (List DeliveryAttemptRecord) := fun state =>
  match appendDeliveryBatch entries state with
  | (journaled, .ok leases) => (journaled, .ok leases)
  | (journaled, .error failure) =>
    (journaled.modifyConsumer consumerId (restore before prepared), .error failure)

/-- Turn reservations into leases. -/
def commitPullDeliveries (prepared : List Candidate) :
    Procedure DurableBrokerState (List DeliveryAttemptRecord) := do
  let found ← .read (·.consumers.get? consumerId)
  match found with
  | none => .await (.error (.error "unknown consumer"))
  | some consumer => do
    let taken := takeReservations consumerId prepared consumer
    .change (modifyConsumer consumerId fun _ => taken.1)
    let entries ← .await taken.2
    let leases ← journalBatch consumerId consumer prepared entries
    .await (ensure (leases.length = prepared.length) "WAL delivery batch length mismatch")
    .change (modifyConsumer consumerId fun consumer => leases.foldl lendFetched consumer)
    .change fun state => leases.foldl (fun state lease =>
      state.scheduleLease consumerId lease.seq lease) state
    pure leases

/-! ### Changing a lease -/

/-- Move the deadline of a lease. A delivery that is refused and one that is extended
both come to this. -/
def updatePullLease (seq deliveryId deadlineMs : ℕ) :
    Procedure DurableBrokerState Unit := do
  let found ← .read fun state =>
    (state.lease? consumerId seq).filter fun lease => lease.deliveryId = deliveryId
  match found with
  | none => .await (.error (.error "stale or unknown delivery identity"))
  | some lease => do
    let record : DeliveryAttemptRecord :=
      ⟨seq, consumerId, deliveryId, deadlineMs, lease.attempt, lease.retryWaiting⟩
    append (.deliveryAttempt record)
    .change (modifyConsumer consumerId fun consumer =>
      { consumer with inFlight := consumer.inFlight.modify seq fun lease =>
          { lease with deadlineMs := deadlineMs } })
    .change (scheduleLease consumerId seq record)
    flushDue

end DurableBrokerState

end Morrow
