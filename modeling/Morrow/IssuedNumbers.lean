import Morrow.Checkpoint
import Morrow.ExpansionRestart
import Morrow.LeaseSweep

/-!
# Sequences and delivery ids after a restart

A broker that starts goes on counting behind the greatest numbers it finds in its log and
in its partitions. As long as the log grows every number that was handed out is there. A
checkpoint leaves out the numbers of messages that are gone and of leases that have ended,
and the broker hands them out again if the last number is among them.
-/

namespace Morrow

open GuardedRuns Procedure DurableBrokerState OrderedMap List

/-- A broker with the records in its partitions, and what it has handed out, the last
first. -/
structure NumberRun where
  broker : DurableBrokerState
  nextSeq : ℕ
  logs : OrderedMap ℕ PublishRecord
  sequences : List ℕ
  deliveries : List DeliveryAttemptRecord

inductive NumberAction
  | publish (envelope : MessageEnvelope)
  | remove (resident stored : ℕ → Bool)
  | deliver (consumerId : String) (seq deadlineMs attempt : ℕ)
  | updateLease (consumerId : String) (seq deliveryId deadlineMs : ℕ)
  | acknowledge (consumerId : String) (seq deliveryId : ℕ)
  | expire (now : ℕ) (deadline : LeaseDeadline)
  | shutdown (producerSequences : List ProducerSequenceRecord)
      (groups : List (String × GroupRecord))
  | restart (consumers : OrderedMap String Consumer)

namespace NumberRun

/-- A lease that is due, taken from its consumer. -/
def expireOne (now : ℕ) (deadline : LeaseDeadline) : Procedure DurableBrokerState Unit := do
  let taken ← .answer (takeLease deadline)
  match taken with
  | none => pure ()
  | some (record, lease) => expireLease now record deadline lease

variable (streams : List ConfiguredStream)

/-- Retention and compaction remove messages from the table and records from the partitions.
The consumers that are recovered have no leases. -/
def next (run : NumberRun) : NumberAction → NumberRun
  | .publish envelope =>
    let record := residentMessage { envelope with legacySeq := run.nextSeq }
    let stored := { run with
      nextSeq := run.nextSeq + 1, logs := run.logs.insert run.nextSeq record }
    match publishRecord record run.broker with
    | (broker, .ok _) => { stored with broker := broker, sequences := run.nextSeq :: run.sequences }
    | (broker, .error _) => { stored with broker := broker }
  | .remove resident stored =>
    { run with
      broker := { run.broker with messages := run.broker.messages.retain fun seq _ => resident seq }
      logs := run.logs.retain fun seq _ => stored seq }
  | .deliver consumerId seq deadlineMs attempt =>
    match appendDeliveryAttempt seq consumerId deadlineMs attempt run.broker with
    | (broker, .ok lease) =>
      { run with
        broker := broker.modifyConsumer consumerId (lendFetched · lease)
        deliveries := lease :: run.deliveries }
    | (broker, .error _) => { run with broker := broker }
  | .updateLease consumerId seq deliveryId deadlineMs =>
    { run with broker := (updatePullLease consumerId seq deliveryId deadlineMs run.broker).1 }
  | .acknowledge consumerId seq deliveryId =>
    { run with broker := (ackInner consumerId seq deliveryId run.broker).1 }
  | .expire now deadline => { run with broker := (expireOne now deadline run.broker).1 }
  | .shutdown producerSequences groups =>
    let written := checkpoint run.broker.messages.values
      (run.broker.consumers.values.map (·.replayed)) run.broker.deadLetters.values
      producerSequences groups
    { run with broker := { run.broker with wal := { run.broker.wal with journal := written } } }
  | .restart consumers =>
    let replay := ReplayState.empty.applyAll run.broker.wal.journal
    let missing := run.logs.entries.filter fun entry => !replay.partitionAppends.contains entry.1
    { run with
      broker := { run.broker with
        consumers := consumers.mapValues fun _ consumer => { consumer with inFlight := ∅ }
        messages := recoverCompactionIndex streams run.logs
        wal := { run.broker.wal with
          journal := run.broker.wal.journal ++ missing.map (·.2.compact)
          nextDeliveryId := replay.maxDeliveryId + 1 } }
      nextSeq := run.logs.keys.foldl (fun next seq => max next (seq + 1)) (replay.maxSeq + 1) }

/-! ### Calls that hand out nothing -/

/-- The log grows, and every lease has the id that is known for it. -/
structure Drift (next : ℕ) (journal : List WalRecord) (known : String → ℕ → Option ℕ)
    (state : DurableBrokerState) : Prop where
  next : state.wal.nextDeliveryId = next
  journal : journal <+: state.wal.journal
  leases : ∀ id seq lease, state.lease? id seq = some lease → known id seq = some lease.deliveryId

namespace Drift

variable {next : ℕ} {journal : List WalRecord} {known : String → ℕ → Option ℕ}
  {state : DurableBrokerState} {id : String}

theorem keeps_append (record : WalRecord) : (append record).Keeps (Drift next journal known) := by
  intro state drift
  simp only [append, write]
  split
  · exact ⟨drift.next, drift.journal.trans (prefix_append _ _), drift.leases⟩
  · exact { drift with }

/-- A change of the consumers matters only for their leases. -/
theorem consumers (drift : Drift next journal known state) {after : DurableBrokerState}
    (wal : after.wal = state.wal)
    (leases : ∀ id seq lease, after.lease? id seq = some lease →
      (∃ earlier, state.lease? id seq = some earlier ∧ earlier.deliveryId = lease.deliveryId) ∨
        known id seq = some lease.deliveryId) : Drift next journal known after where
  next := wal ▸ drift.next
  journal := wal ▸ drift.journal
  leases := by
    intro id seq lease held
    rcases leases id seq lease held with ⟨earlier, before, same⟩ | own
    · rw [← same]
      exact drift.leases id seq earlier before
    · exact own

theorem calm : Calm (Drift next journal known) where
  append := keeps_append
  flushDue := by
    intro state drift
    simp only [flushDue, write]
    split <;> exact { drift with }
  cursors := by
    intro state id cursors drift
    refine drift.consumers rfl fun id seq lease held => ?_
    grind [lease?, modifyConsumer, get?_modify]

theorem scheduleLease (drift : Drift next journal known state) (seq : ℕ)
    (lease : DeliveryAttemptRecord) :
    Drift next journal known (state.scheduleLease id seq lease) := by
  simp only [DurableBrokerState.scheduleLease, compactStaleDeadlines]
  repeat' split
  all_goals exact { drift with }

theorem keeps_updatePullLease (seq deliveryId deadlineMs : ℕ) :
    (updatePullLease id seq deliveryId deadlineMs).Keeps (Drift next journal known) := by
  refine .bind (.read _) fun found => ?_
  split
  · exact .await _
  · refine .bind (keeps_append _) fun _ => .bind (.change fun _ drift => ?_) fun _ =>
      .bind (.change fun _ drift => drift.scheduleLease _ _) fun _ => calm.flushDue
    refine drift.consumers rfl fun id seq lease held => ?_
    obtain ⟨consumer, found, leased⟩ := (lease?_modifyConsumer _ _).mp held
    grind [lease?_eq_some, get?_modify, Option.map_eq_some_iff]

theorem keeps_moveCursor (message : PublishRecord) :
    (moveCursor id message).Keeps (Drift next journal known) := by
  intro state drift
  simp only [moveCursor]
  repeat' split
  · exact drift
  all_goals
    refine drift.consumers rfl fun id seq lease held => ?_
    grind [lease?, get?_erase, get?_insert]

theorem keeps_ackInner (seq deliveryId : ℕ) :
    (ackInner id seq deliveryId).Keeps (Drift next journal known) := by
  refine calm.ackInner keeps_moveCursor (fun state noted drift => ?_)
    (fun _ _ drift => { drift with }) (fun state drift => ?_) (fun _ drift => { drift with }) _
  · refine drift.consumers rfl fun id seq lease held => ?_
    obtain ⟨consumer, found, leased⟩ := (lease?_modifyConsumer _ _).mp held
    grind [lease?_eq_some, giveBack, get?_erase]
  · unfold markConsumerReady
    split <;> exact { drift with }

theorem keeps_finishDelivery (record : ConsumerRecord) (deadline : LeaseDeadline)
    (lease : InFlight) :
    (finishDelivery record deadline lease).Keeps (Drift next journal known) := by
  refine calm.finishDelivery (fun _ _ drift => { drift with }) (fun state cursors drift => ?_) _ _
  refine drift.consumers rfl fun id seq lease held => ?_
  grind [lease?, modifyConsumer, settle_inFlight, get?_modify]

theorem keeps_expireLease (now : ℕ) (record : ConsumerRecord) {deadline : LeaseDeadline}
    {lease : InFlight} (own : known deadline.consumerId deadline.seq = some lease.deliveryId) :
    (expireLease now record deadline lease).Keeps (Drift next journal known) := by
  unfold expireLease retryDelivery
  repeat' split
  · exact keeps_finishDelivery record deadline lease
  · refine .change fun _ drift => drift.consumers rfl fun id seq lease held => ?_
    grind [lease?, requeue, modifyConsumer, get?_modify]
  · exact .await _
  · refine .bind (keeps_append _) fun _ => .bind (.change fun _ drift => ?_) fun _ =>
      .change fun _ drift => drift.scheduleLease _ _
    refine drift.consumers rfl fun id seq lease held => ?_
    obtain ⟨consumer, found, leased⟩ := (lease?_modifyConsumer _ _).mp held
    grind [lease?_eq_some, InFlight.ofRecord, get?_insert]

theorem keeps_expireOne (now : ℕ) (deadline : LeaseDeadline) :
    (expireOne now deadline).Keeps (Drift next journal known) := by
  intro state drift
  rw [expireOne, answer_bind]
  cases held : state.lease? deadline.consumerId deadline.seq with
  | none =>
    have nothing : state.takeLease deadline = (state, none) := by
      grind [takeLease, lease?]
    rw [nothing]
    exact drift
  | some lease =>
    obtain ⟨consumer, -, -, taken⟩ := takeLease_eq held
    rw [taken]
    refine keeps_expireLease now consumer.record (drift.leases _ _ _ held) _
      (drift.consumers rfl ?_)
    intro id seq lease held
    exact .inl ⟨lease, (lease?_of_taken held).1, rfl⟩

theorem keeps_publishRecord (record : PublishRecord) :
    (publishRecord record).Keeps (Drift next journal known) := by
  refine .bind (keeps_append _) fun _ => .change fun state drift => ?_
  refine drift.consumers rfl fun id seq lease held => ?_
  grind [lease?, showRecord, observePublishedRecord, markSubjectReady, get?_mapValues]

end Drift

theorem appendDeliveryAttempt_eq (seq : ℕ) (id : String) (deadlineMs attempt : ℕ)
    (state : DurableBrokerState) :
    let record := ⟨seq, id, state.wal.nextDeliveryId, deadlineMs, attempt, false⟩
    let wal := ⟨state.wal.journal, state.wal.nextDeliveryId + 1, state.wal.outcomes.tail⟩
    appendDeliveryAttempt seq id deadlineMs attempt state =
      if state.wal.outcomes.head?.getD true then
        ({ state with wal := { wal with journal := wal.journal ++ [.deliveryAttempt record] } },
          .ok record)
      else ({ state with wal := wal }, .error (.error "appending WAL record")) := by
  rw [appendDeliveryAttempt, read_bind, change_bind, bind_apply]
  simp only [append, write]
  cases state.wal.outcomes.head?.getD true <;> rfl

/-! ### Delivery ids -/

section

variable {streams} {run start last : NumberRun} {action : NumberAction}

/-- The id of the last delivery of a message to a consumer. -/
def newestId (run : NumberRun) (id : String) (seq : ℕ) : Option ℕ :=
  (run.deliveries.find? fun delivery => delivery.consumerId = id ∧ delivery.seq = seq).map
    (·.deliveryId)

structure Identified (run : NumberRun) : Prop where
  numbered : Numbered (·.maxDeliveryId) run.broker.wal.journal run.broker.wal.nextDeliveryId
    (run.deliveries.map (·.deliveryId))
  drift : Drift run.broker.wal.nextDeliveryId run.broker.wal.journal run.newestId run.broker

theorem Identified.of_drift (identified : run.Identified) {after : NumberRun}
    (same : after.deliveries = run.deliveries)
    (drift : Drift run.broker.wal.nextDeliveryId run.broker.wal.journal run.newestId
      after.broker) : after.Identified := by
  constructor
  · rw [same]
    exact identified.numbered.grow ReplayState.maxDeliveryId_apply drift.journal drift.next.ge
  · refine ⟨rfl, prefix_refl _, ?_⟩
    unfold newestId
    rw [same]
    exact drift.leases

/-- A clean shutdown finds the last delivery id in a lease. -/
def LastIdLeased (run : NumberRun) : NumberAction → Prop
  | .shutdown _ _ => run.broker.wal.nextDeliveryId = 1 ∨ ∃ id seq lease,
      run.broker.lease? id seq = some lease ∧ lease.deliveryId + 1 = run.broker.wal.nextDeliveryId
  | _ => True

theorem Identified.next (identified : run.Identified) (leased : run.LastIdLeased action) :
    (run.next streams action).Identified := by
  cases action with
  | publish envelope =>
    have drift := Drift.keeps_publishRecord
      (residentMessage { envelope with legacySeq := run.nextSeq }) _ identified.drift
    simp only [NumberRun.next]
    split
    all_goals
      rename_i published
      rw [published] at drift
      exact identified.of_drift rfl drift
  | remove resident stored => exact identified.of_drift rfl { identified.drift with }
  | deliver id seq deadlineMs attempt =>
    have before := identified.drift.leases
    simp only [NumberRun.next, appendDeliveryAttempt_eq]
    by_cases written : run.broker.wal.outcomes.head?.getD true
    · simp only [written, if_true]
      refine ⟨identified.numbered.issue ReplayState.maxDeliveryId_apply rfl, rfl,
        prefix_refl _, fun tested other lease held => ?_⟩
      obtain ⟨consumer, found, leased⟩ := (lease?_modifyConsumer _ _).mp held
      have earlier := before tested other lease
      grind [newestId, lease?_eq_some, lendFetched, InFlight.ofRecord, get?_insert]
    · simp only [written]
      refine ⟨?_, rfl, prefix_refl _, before⟩
      exact identified.numbered.grow ReplayState.maxDeliveryId_apply (prefix_refl _) (Nat.le_succ _)
  | updateLease id seq deliveryId deadlineMs =>
    exact identified.of_drift rfl (Drift.keeps_updatePullLease _ _ _ _ identified.drift)
  | acknowledge id seq deliveryId =>
    exact identified.of_drift rfl (Drift.keeps_ackInner _ _ _ identified.drift)
  | expire now deadline =>
    exact identified.of_drift rfl (Drift.keeps_expireOne _ _ _ identified.drift)
  | shutdown producerSequences groups =>
    refine ⟨identified.numbered.rewrite ReplayState.maxDeliveryId_apply ?_,
      rfl, prefix_refl _, identified.drift.leases⟩
    refine leased.imp_right fun ⟨id, seq, lease, held, same⟩ => ?_
    obtain ⟨consumer, found, own⟩ := lease?_eq_some.mp held
    refine ⟨.deliveryAttempt ⟨seq, consumer.record.consumerId, lease.deliveryId, lease.deadlineMs,
      lease.attempt, lease.retryWaiting⟩, ?_, same⟩
    have member := mem_values.mpr ⟨id, found⟩
    have values : _ ∈ consumer.replayed.inFlight.values := mem_values.mpr
      ⟨seq, by rw [Consumer.replayed, get?_mapValues, own, Option.map_some]⟩
    simp only [NumberRun.next, checkpoint, writeCompactState, append_assoc]
    exact mem_append_left _ (mem_flatMap.mpr ⟨_, mem_map_of_mem member,
      mem_append_right _ (mem_map_of_mem values)⟩)
  | restart consumers =>
    constructor
    · have restarted := identified.numbered.restart (Nat.lt_succ_self _)
      exact restarted.grow ReplayState.maxDeliveryId_apply (prefix_append _ _) le_rfl
    · refine ⟨rfl, prefix_refl _, fun id seq lease held => ?_⟩
      obtain ⟨consumer, found, leased⟩ := lease?_eq_some.mp held
      simp only [NumberRun.next, get?_mapValues, Option.map_eq_some_iff] at found
      obtain ⟨recovered, -, rfl⟩ := found
      cases leased

/-- Nothing was handed out yet. -/
structure Started (run : NumberRun) : Prop where
  sequences : run.sequences = []
  deliveries : run.deliveries = []
  leases : ∀ id seq, run.broker.lease? id seq = none

/-- No delivery id was handed out twice, and a message is acknowledged with the id of its
last delivery only. -/
structure IdsDistinct (run : NumberRun) : Prop where
  nodup : (run.deliveries.map (·.deliveryId)).Nodup
  newest : ∀ id seq deliveryId, (ackInner id seq deliveryId run.broker).2 = .ok true →
    run.newestId id seq = some deliveryId

theorem Identified.idsDistinct (identified : run.Identified) : run.IdsDistinct := by
  constructor
  · exact identified.numbered.falling.tail.imp fun later => later.ne'
  · intro id seq deliveryId accepted
    rw [ackInner, read_bind] at accepted
    split at accepted
    · rename_i named
      simp only [Option.any_eq_true, decide_eq_true_eq] at named
      obtain ⟨lease, held, rfl⟩ := named
      exact identified.drift.leases id seq lease held
    · rw [bind_apply] at accepted
      split at accepted <;> cases accepted

/-- The property of all runs under a guard. -/
def Always (streams : List ConfiguredStream) (guard : NumberRun → NumberAction → Prop)
    (holds : NumberRun → Prop) : Prop :=
  ∀ start last, Started start → Reaches (next streams) guard start last → holds last

/-- In runs whose clean shutdowns find the last delivery id in a lease, no delivery id is
issued twice. -/
theorem ids_distinct_of_lastIdLeased (started : Started start)
    (reached : Reaches (next streams) LastIdLeased start last) : last.IdsDistinct := by
  have first : start.Identified := by
    refine ⟨⟨?_, ?_⟩, rfl, prefix_refl _, fun id seq lease held => ?_⟩
    · rw [started.deliveries]
      exact pairwise_singleton _ _
    · rw [started.deliveries]
      exact nofun
    · rw [started.leases] at held
      cases held
  exact (reached.invariant Identified (fun _ _ leased held => held.next leased) first).idsDistinct

/-- A broker with one consumer. -/
def oneReader : NumberRun where
  broker := { empty with
    consumers := OrderedMap.insert ∅ "c"
      (Consumer.fresh ⟨"c", "orders.*", none, 30000, 8, .earliest, .default⟩
        { ConsumerCursorSet.default with
          partitions := OrderedMap.insert ∅ "orders:0" ⟨"orders", 0, 0, none, ∅, 0⟩ }) }
  nextSeq := 1
  logs := ∅
  sequences := []
  deliveries := []

theorem oneReader_started : Started oneReader :=
  ⟨rfl, rfl, fun id seq => by grind [lease?, oneReader, get?_insert, Consumer.fresh,
    get?_empty]⟩

/-- A message that is published. -/
def order (offset : ℕ) : MessageEnvelope :=
  ⟨"", ⟨"orders", validStreamName_orders⟩, ⟨0, PartitionId.zero_bounded⟩, offset, "orders.a",
    none, [], 0, none,
    none, [], 0, 0, 0⟩

/-- An id is issued before a clean shutdown, and another one after the restart. -/
theorem ids_distinct_leased :
    let run := [NumberAction.deliver "c" 1 9 1, .shutdown [] [],
      .restart oneReader.broker.consumers, .deliver "c" 1 9 2].foldl (next []) oneReader
    run.deliveries.map (·.deliveryId) = [2, 1] ∧ run.IdsDistinct := by
  refine ⟨by decide +kernel, @ids_distinct_of_lastIdLeased [] _ _ oneReader_started ?_⟩
  refine .step (.deliver "c" 1 9 1) trivial (.step (.shutdown [] []) ?_
    (.step (.restart oneReader.broker.consumers) trivial
      (.step (.deliver "c" 1 9 2) trivial (.refl _))))
  exact .inr ⟨"c", 1, ⟨1, 9, 1, false⟩, rfl, rfl⟩

theorem delivery_id_issued_twice : ¬ Always [] (fun _ _ => True) IdsDistinct := by
  intro always
  have distinct := always _ _ oneReader_started (.foldl [.publish (order 0), .publish (order 1),
    .deliver "c" 1 9 1, .acknowledge "c" 1 1, .shutdown [] [],
    .restart oneReader.broker.consumers, .deliver "c" 2 9 1] _ fun _ _ _ => trivial)
  exact absurd distinct.nodup (by decide +kernel)

/-! ### Sequences -/

/-- A clean shutdown finds the last sequence in the message table. -/
def LastSeqKept (run : NumberRun) : NumberAction → Prop
  | .shutdown _ _ => run.nextSeq = 1 ∨
      ∃ message ∈ run.broker.messages.values, message.seq + 1 = run.nextSeq
  | _ => True

def Sequenced (run : NumberRun) : Prop :=
  Numbered (·.maxSeq) run.broker.wal.journal run.nextSeq run.sequences

theorem Sequenced.next (sequenced : run.Sequenced) (kept : run.LastSeqKept action) :
    (run.next streams action).Sequenced := by
  have drift : Drift run.broker.wal.nextDeliveryId run.broker.wal.journal
      (fun id seq => (run.broker.lease? id seq).map (·.deliveryId)) run.broker :=
    ⟨rfl, prefix_refl _, fun _ _ _ held => by rw [held, Option.map_some]⟩
  have grow {after} (longer : run.broker.wal.journal <+: after) :=
    sequenced.grow ReplayState.maxSeq_apply longer le_rfl
  cases action with
  | publish envelope =>
    simp only [NumberRun.next, publishRecord, append, write, bind_apply]
    cases run.broker.wal.outcomes.head?.getD true
    · exact sequenced.grow ReplayState.maxSeq_apply (prefix_refl _) (Nat.le_succ _)
    · exact sequenced.issue ReplayState.maxSeq_apply rfl
  | remove resident stored => exact sequenced
  | deliver id seq deadlineMs attempt =>
    simp only [NumberRun.next, appendDeliveryAttempt_eq]
    cases run.broker.wal.outcomes.head?.getD true
    · exact sequenced
    · exact grow (prefix_append _ _)
  | updateLease id seq deliveryId deadlineMs =>
    exact grow (Drift.keeps_updatePullLease _ _ _ _ drift).journal
  | acknowledge id seq deliveryId => exact grow (Drift.keeps_ackInner _ _ _ drift).journal
  | expire now deadline => exact grow (Drift.keeps_expireOne _ _ _ drift).journal
  | shutdown producerSequences groups =>
    refine sequenced.rewrite ReplayState.maxSeq_apply ?_
    refine kept.imp_right ?_
    rintro ⟨message, member, same⟩
    refine ⟨message.compact, ?_, ?_⟩
    · simp only [NumberRun.next, checkpoint, writeCompactState, append_assoc]
      exact mem_append_right _ (mem_append_left _ (mem_map_of_mem member))
    · rw [PublishRecord.compact]
      split <;> exact same
  | restart consumers =>
    have started : ∀ (seqs : List ℕ) least,
        least ≤ seqs.foldl (fun next seq => max next (seq + 1)) least := by
      intro seqs
      induction seqs with
      | nil => exact fun _ => le_rfl
      | cons seq seqs ih => exact fun least => (le_max_left least (seq + 1)).trans (ih _)
    have restarted := sequenced.restart (Nat.lt_succ_self _)
    exact restarted.grow ReplayState.maxSeq_apply (prefix_append _ _) (started _ _)

/-- In runs whose clean shutdowns find the last sequence in the message table, every
message has a larger sequence than those before it. -/
theorem sequences_increase_of_lastSeqKept (started : Started start)
    (reached : Reaches (next streams) LastSeqKept start last) :
    last.sequences.Pairwise (· > ·) := by
  have first : start.Sequenced := by
    rw [Sequenced, started.sequences]
    exact ⟨pairwise_singleton _ _, nofun⟩
  exact (reached.invariant Sequenced (fun _ _ kept held => held.next kept) first).falling.tail

/-- A message is published before a clean shutdown, and another one after the restart. -/
theorem sequences_increase_kept :
    let run := [NumberAction.publish (order 0), .shutdown [] [],
      .restart oneReader.broker.consumers, .publish (order 1)].foldl (next []) oneReader
    run.sequences = [2, 1] ∧ run.sequences.Pairwise (· > ·) := by
  refine ⟨by decide +kernel, @sequences_increase_of_lastSeqKept [] _ _ oneReader_started ?_⟩
  refine .step (.publish (order 0)) trivial (.step (.shutdown [] []) ?_
    (.step (.restart oneReader.broker.consumers) trivial
      (.step (.publish (order 1)) trivial (.refl _))))
  exact .inr ⟨_, mem_singleton_self _, rfl⟩

theorem sequence_assigned_twice :
    ¬ Always [] (fun _ _ => True) fun run => run.sequences.Pairwise (· > ·) := by
  intro always
  have increase := always _ _ oneReader_started (.foldl [.publish (order 0),
    .remove (fun _ => false) (fun _ => false), .shutdown [] [],
    .restart oneReader.broker.consumers, .publish (order 0)] _ fun _ _ _ => trivial)
  exact absurd increase (by decide +kernel)

end

end NumberRun

end Morrow
