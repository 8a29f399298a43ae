import Morrow.LeaseHeap

/-!
# Checkpoints of the log

When it shuts down the broker replaces its log by records that stand for its state: those
of each consumer, then those of the messages, then what else is kept. A lease is written as
the attempt it is, and every other attempt and acknowledgement without its delivery id.
-/

namespace Morrow

open List

/-- The records that stand for a consumer. -/
def ReplayedConsumer.compact (consumer : ReplayedConsumer) : List WalRecord :=
  let id := consumer.record.consumerId
  .consumerUpsert consumer.record ::
    (consumer.cursors.toList.map fun cursors => .consumerCursor ⟨id, cursors⟩) ++
    ((consumer.acked.sort (· ≤ ·)).map fun seq => .ack ⟨seq, id, 0⟩) ++
    ((consumer.pending.sort (· ≤ ·)).map fun seq =>
      .deliveryAttempt ⟨seq, id, 0, 0, 0, false⟩) ++
    (consumer.pendingAttempts.entries.map fun entry =>
      .deliveryAttempt ⟨entry.1, id, 0, 0, entry.2 - 1, false⟩) ++
    consumer.inFlight.values.map .deliveryAttempt

/-- A stored message is only referred to. -/
def PublishRecord.compact (message : PublishRecord) : WalRecord :=
  match message.stream, message.partition, message.offset with
  | some stream, some partition, some offset =>
    .partitionAppend ⟨message.seq, stream, partition, offset, message.subject⟩
  | _, _, _ => .publish message

variable (messages : List PublishRecord) (consumers : List ReplayedConsumer)

def writeCompactState :
    List WalRecord :=
  consumers.flatMap (·.compact) ++ messages.map (·.compact)

def checkpoint
    (deadLetters : List DeadLetterRecord) (producerSequences : List ProducerSequenceRecord)
    (groups : List (String × GroupRecord)) : List WalRecord :=
  writeCompactState messages consumers ++ deadLetters.map .deadLetter ++
    producerSequences.map .producerSequence ++ groups.map fun group => .groupState group.1 group.2

/-- A consumer as the checkpoint sees it. -/
def Consumer.replayed (consumer : Consumer) : ReplayedConsumer where
  record := consumer.record
  cursors := some consumer.cursors
  pending := consumer.pending
  pendingAttempts := consumer.pendingAttempts
  inFlight := consumer.inFlight.mapValues fun seq lease =>
    ⟨seq, consumer.record.consumerId, lease.deliveryId, lease.deadlineMs, lease.attempt,
      lease.retryWaiting⟩
  acked := consumer.acked

/-! ### The numbers in a log -/

namespace WalRecord

/-- The delivery id that a replay takes note of. -/
def deliveryId : WalRecord → ℕ
  | .deliveryAttempt record => record.deliveryId
  | .ack record => record.deliveryId
  | _ => 0

/-- The sequence that a replay takes note of. -/
def sequence : WalRecord → ℕ
  | .publish record => record.seq
  | .partitionAppend record => record.seq
  | _ => 0

end WalRecord

namespace ReplayState

variable {counter : ReplayState → ℕ} {number : WalRecord → ℕ}

/-- A counter that follows the records is the greatest number among them. -/
theorem applyAll_le {state : ReplayState} {records : List WalRecord} {bound : ℕ}
    (follows : ∀ state record, counter (state.apply record) = max (counter state) (number record)) :
    counter (state.applyAll records) ≤ bound ↔
      counter state ≤ bound ∧ ∀ record ∈ records, number record ≤ bound := by
  induction records generalizing state with
  | nil => simp [applyAll]
  | cons record records ih =>
    rw [forall_mem_cons, ← and_assoc, ← max_le_iff, ← follows]
    exact ih

theorem maxDeliveryId_apply (state : ReplayState) (record : WalRecord) :
    (state.apply record).maxDeliveryId = max state.maxDeliveryId record.deliveryId := by
  cases record <;> simp [apply, enqueue, WalRecord.deliveryId]

theorem maxSeq_apply (state : ReplayState) (record : WalRecord) :
    (state.apply record).maxSeq = max state.maxSeq record.sequence := by
  cases record <;> simp [apply, enqueue, WalRecord.sequence]

end ReplayState

/-- The numbers handed out so far, the last one first. The next one is above them, and a
replay of the log finds none below them. -/
structure Numbered (counter : ReplayState → ℕ) (journal : List WalRecord) (next : ℕ)
    (issued : List ℕ) : Prop where
  falling : (next :: issued).Pairwise (· > ·)
  replayed : ∀ id ∈ issued, id ≤ counter (ReplayState.empty.applyAll journal)

namespace Numbered

variable {counter : ReplayState → ℕ} {number : WalRecord → ℕ} {journal after : List WalRecord}
  {next later : ℕ} {issued : List ℕ} {record : WalRecord}
  (follows : ∀ state record, counter (state.apply record) = max (counter state) (number record))

theorem above (numbered : Numbered counter journal next issued) :
    ∀ id ∈ issued, id < next := fun _ => rel_of_pairwise_cons numbered.falling

/-- A broker that starts goes on behind what it replays. -/
theorem restart (numbered : Numbered counter journal next issued)
    (behind : counter (ReplayState.empty.applyAll journal) < later) :
    Numbered counter journal later issued where
  falling := pairwise_cons.mpr
    ⟨fun id member => (numbered.replayed id member).trans_lt behind, numbered.falling.tail⟩
  replayed := numbered.replayed

include follows

theorem le_counter (member : record ∈ journal) :
    number record ≤ counter (ReplayState.empty.applyAll journal) :=
  ((ReplayState.applyAll_le follows).mp le_rfl).2 record member

section

variable (numbered : Numbered counter journal next issued)

include numbered

theorem grow (longer : journal <+: after)
    (counts : next ≤ later) : Numbered counter after later issued where
  falling := pairwise_cons.mpr
    ⟨fun id member => (numbered.above id member).trans_le counts, numbered.falling.tail⟩
  replayed := by
    have all := (ReplayState.applyAll_le follows).mp
      (le_refl (counter (ReplayState.empty.applyAll after)))
    intro id member
    refine (numbered.replayed id member).trans ((ReplayState.applyAll_le follows).mpr ?_)
    exact ⟨all.1, fun record kept => all.2 record (longer.subset kept)⟩

theorem issue (same : number record = next) :
    Numbered counter (journal ++ [record]) (next + 1) (next :: issued) := by
  have grown := numbered.grow follows (prefix_append journal [record]) (Nat.le_succ next)
  constructor
  · rw [pairwise_cons, forall_mem_cons]
    exact ⟨⟨Nat.lt_succ_self next, grown.above⟩, numbered.falling⟩
  · rw [forall_mem_cons]
    refine ⟨?_, grown.replayed⟩
    rw [← same]
    exact le_counter follows (mem_append_right journal mem_cons_self)

/-- A log may be replaced by one that still has the last number. -/
theorem rewrite
    (kept : next = 1 ∨ ∃ record ∈ after, number record + 1 = next) :
    Numbered counter after next issued where
  falling := numbered.falling
  replayed := by
    intro id member
    have above := numbered.above id member
    rcases kept with first | ⟨record, present, last⟩
    · omega
    · have reached := le_counter follows present
      omega

end

end Numbered

end Morrow
