import Morrow.BrokerState

/-!
# Leases and their deadlines

A delivered message is leased to its consumer until a deadline. Deadlines wait in a
queue. An entry of the queue is stale if its lease is gone or has another deadline;
stale entries are dropped when they come to the front, and the queue is rebuilt when
there are too many of them. A lease that is due is given another attempt, at once or
after a delay, or ends under the consumer's terminal action.
-/

namespace Morrow

/-- The wait before an attempt. The jitter depends on the attempt only. -/
def RetryPolicy.delayMs (policy : RetryPolicy) (attempt : ℕ) : ℕ :=
  let multiplier := match policy.backoff with
    | .fixed => 1
    | .exponential => 2 ^ min (attempt - 1) 63
  let delay := min (min (policy.initialDelayMs * multiplier) u64Max) policy.maxDelayMs
  if policy.jitterPercent = 0 ∨ delay = 0 then delay
  else
    let spread := min (delay * policy.jitterPercent) u64Max / 100
    let range := saturatingAdd (min (spread * 2) u64Max) 1
    let offset : ℤ :=
      ((attempt * 1664525 % 2 ^ 64 + 1013904223) % 2 ^ 64 % range : ℕ) - (spread : ℤ)
    (min (max ((delay : ℤ) + offset) 0) policy.maxDelayMs).toNat

/-- `u32::saturating_add(1)`. -/
def nextAttempt (attempt : ℕ) : ℕ := min (attempt + 1) u32Max

/-- A delivery attempt as the consumer keeps it. -/
def InFlight.ofRecord (record : DeliveryAttemptRecord) : InFlight :=
  ⟨record.deliveryId, record.deadlineMs, record.attempt, record.retryWaiting⟩

/-- The entry of the queue for a lease. -/
def LeaseDeadline.ofLease (consumerId : String) (seq : ℕ) (lease : InFlight) : LeaseDeadline :=
  ⟨lease.deadlineMs, consumerId, seq, lease.deliveryId⟩

namespace DurableBrokerState

/-! ### The queue -/

variable (state : DurableBrokerState)

/-- The entries for all leases. -/
def liveDeadlines : List LeaseDeadline :=
  state.consumers.entries.flatMap fun entry =>
    entry.2.inFlight.entries.map fun lease => .ofLease entry.1 lease.1 lease.2

/-- The number of leases of all consumers. -/
def liveLeases : ℕ :=
  (state.consumers.values.map (·.inFlight.entries.length)).sum

def compactStaleDeadlines : DurableBrokerState :=
  let size := state.leaseDeadlines.size
  if size < 1024 ∨ size % 1024 ≠ 0 then state
  else if size ≤ 2 * state.liveLeases + 1024 then state
  else { state with leaseDeadlines := .ofList state.liveDeadlines }

def scheduleLease (consumerId : String) (seq : ℕ) (lease : DeliveryAttemptRecord)
    (state : DurableBrokerState) : DurableBrokerState :=
  let entry : LeaseDeadline := ⟨lease.deadlineMs, consumerId, seq, lease.deliveryId⟩
  { state with leaseDeadlines := state.leaseDeadlines.push entry }.compactStaleDeadlines

/-- The entry is not about a lease as it is now. -/
def stale (deadline : LeaseDeadline) : Bool :=
  !(state.lease? deadline.consumerId deadline.seq).any fun lease =>
    lease.deliveryId = deadline.deliveryId ∧ lease.deadlineMs = deadline.deadlineMs

def discardStaleDeadlines : DurableBrokerState :=
  { state with leaseDeadlines := state.leaseDeadlines.discard state.stale }

/-- The time of the next lease or scheduled message to look at. -/
def nextLeaseDeadline : DurableBrokerState × Option ℕ :=
  let discarded := state.discardStaleDeadlines
  let lease := discarded.leaseDeadlines.peek?.map (·.deadlineMs)
  let scheduled := discarded.scheduledDeliveries.peek?.map (·.scheduledAtMs)
  (discarded, match lease, scheduled with
    | some lease, some scheduled => some (min lease scheduled)
    | some lease, none => some lease
    | none, some scheduled => some scheduled
    | none, none => none)

/-! ### Expiry -/

/-- Take a lease away from its consumer. -/
def takeLease (deadline : LeaseDeadline) (state : DurableBrokerState) :
    DurableBrokerState × Option (ConsumerRecord × InFlight) :=
  match state.consumers.get? deadline.consumerId with
  | none => (state, none)
  | some consumer =>
    match consumer.inFlight.get? deadline.seq with
    | none => (state, none)
    | some lease =>
      (state.modifyConsumer deadline.consumerId fun consumer =>
        { consumer with inFlight := consumer.inFlight.erase deadline.seq },
        some (consumer.record, lease))

/-- The lease was the last attempt. -/
def exhausted (policy : RetryPolicy) (lease : InFlight) : Bool :=
  !lease.retryWaiting && decide (policy.maxAttempts ≤ lease.attempt)

variable (record : ConsumerRecord)

/-- The dead letter of a lease that was the last attempt. -/
def deadLetter (deadline : LeaseDeadline) (lease : InFlight)
    (message : PublishRecord) : DeadLetterRecord where
  id := deadline.seq
  sourceSeq := deadline.seq
  consumerId := deadline.consumerId
  sourceStream := message.stream
  sourcePartition := message.partition
  sourceOffset := message.offset
  reason := "delivery_attempts_exhausted"
  attemptCount := lease.attempt
  firstDeliveryMs := deadline.deadlineMs - record.ackTimeoutMs
  lastDeliveryMs := deadline.deadlineMs
  payload := message.payload

/-- The consumer's cursors after a message was acknowledged, if they accept it. -/
def acknowledgedCursors (consumerId : String) (message : Option PublishRecord)
    (state : DurableBrokerState) : Option ConsumerCursorSet := do
  let message ← message
  if message.offset.isSome then
    let consumer ← state.consumers.get? consumerId
    (consumer.cursors.acknowledge message consumer.record.filterSubject state.messages).toOption
  else none

/-- The consumer is done with a message. A message its cursors did not take is noted
in the set of acknowledged messages. -/
def settle (seq : ℕ) (cursors : Option ConsumerCursorSet) (consumer : Consumer) : Consumer :=
  match cursors with
  | some cursors => { consumer with cursors := cursors, pending := consumer.pending.erase seq }
  | none =>
    { consumer with acked := insert seq consumer.acked, pending := consumer.pending.erase seq }

/-- Only the dead-letter action keeps a message after its last attempt. -/
def keepDeadLetter (deadline : LeaseDeadline) (lease : InFlight)
    (message : Option PublishRecord) : Procedure DurableBrokerState Unit :=
  match record.retryPolicy.terminalAction, message with
  | .deadLetter, some message => do
    let letter := deadLetter record deadline lease message
    append (.deadLetter letter)
    .change fun state => { state with deadLetters := state.deadLetters.insert letter.id letter }
  | _, _ => pure ()

/-- Give up a message after its last attempt. -/
def finishDelivery (deadline : LeaseDeadline) (lease : InFlight) :
    Procedure DurableBrokerState Unit := do
  let message ← .read (·.messages.get? deadline.seq)
  keepDeadLetter record deadline lease message
  append (.ack ⟨deadline.seq, deadline.consumerId, lease.deliveryId⟩)
  let cursors ← .read (acknowledgedCursors deadline.consumerId message)
  .change (modifyConsumer deadline.consumerId (settle deadline.seq cursors))
  match cursors with
  | some cursors => append (.consumerCursor ⟨deadline.consumerId, cursors⟩)
  | none => pure ()

/-- The message may be delivered again. -/
def requeue (deadline : LeaseDeadline) (lease : InFlight) (state : DurableBrokerState) :
    DurableBrokerState :=
  let attempt := if lease.retryWaiting then lease.attempt else nextAttempt lease.attempt
  let requeued := state.modifyConsumer deadline.consumerId fun consumer =>
    { consumer with
      pending := insert deadline.seq consumer.pending
      pendingAttempts := consumer.pendingAttempts.insert deadline.seq attempt }
  { requeued with readyConsumers := insert deadline.consumerId requeued.readyConsumers }

/-- The wait before the next attempt. A lease that has waited does not wait again. -/
def retryDelay (lease : InFlight) : ℕ :=
  if lease.retryWaiting then 0 else record.retryPolicy.delayMs (nextAttempt lease.attempt)

/-- Lease a message to nobody until its next attempt. -/
def postpone (deadline : LeaseDeadline) (retry : DeliveryAttemptRecord) :
    Procedure DurableBrokerState Unit := do
  append (.deliveryAttempt retry)
  .change (modifyConsumer deadline.consumerId fun consumer =>
    { consumer with inFlight := consumer.inFlight.insert deadline.seq (.ofRecord retry) })
  .change (scheduleLease deadline.consumerId deadline.seq retry)

/-- Give a message another attempt, now or after the policy's delay. -/
def retryDelivery (now : ℕ) (record : ConsumerRecord) (deadline : LeaseDeadline)
    (lease : InFlight) : Procedure DurableBrokerState Unit :=
  if retryDelay record lease = 0 then .change (requeue deadline lease)
  else if u64Max < now + retryDelay record lease then
    .await (.error (.error "retry deadline overflow"))
  else
    postpone deadline ⟨deadline.seq, deadline.consumerId, lease.deliveryId,
      now + retryDelay record lease, nextAttempt lease.attempt, true⟩

def expireLease (now : ℕ) (record : ConsumerRecord) (deadline : LeaseDeadline)
    (lease : InFlight) : Procedure DurableBrokerState Unit :=
  if exhausted record.retryPolicy lease then finishDelivery record deadline lease
  else retryDelivery now record deadline lease

/-- Expire due leases, at most as many as the limit says. An entry at the front of the
queue has its lease once stale entries are gone, so the third case is never taken. -/
def expireDueLeases (now : ℕ) : ℕ → Procedure DurableBrokerState ℕ
  | 0 => pure 0
  | limit + 1 => do
    .change discardStaleDeadlines
    let next ← .read (·.leaseDeadlines.peek?)
    match next with
    | none => pure 0
    | some deadline =>
      if now < deadline.deadlineMs then pure 0
      else do
        .change fun state => { state with leaseDeadlines := state.leaseDeadlines.pop }
        let taken ← .answer (takeLease deadline)
        match taken with
        | none => expireDueLeases now limit
        | some (record, lease) => do
          expireLease now record deadline lease
          let expired ← expireDueLeases now limit
          pure (expired + 1)

end DurableBrokerState

end Morrow
