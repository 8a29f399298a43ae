import Morrow.Acknowledgement
import Morrow.BrokerAdmin
import Morrow.Fetch
import Morrow.GuardedRuns

/-!
# Runs of a broker

A broker with any number of fetches under way. Every call that holds the broker's lock
is one action, and so is every step of a fetch; they come in any order.
-/

namespace Morrow

open DurableBrokerState

structure DeliveryRun where
  broker : DurableBrokerState
  fetches : OrderedMap ℕ Fetch

inductive DeliveryAction
  | publish (record : PublishRecord)
  | push (consumerId : String) (connections : Finset ℕ) (world : DeliveryWorld)
  | startFetch (id : ℕ) (consumerId : String) (maxMessages maxBytes maxEncodedBytes : ℕ)
      (partitions : Option (Finset ℕ))
  | advanceFetch (id : ℕ) (world : DeliveryWorld)
  | updateLease (consumerId : String) (seq deliveryId deadlineMs : ℕ)
  | ack (consumerId : String) (seq deliveryId : ℕ)
  | nextDeadline
  | expire (now limit : ℕ)
  | upsert (record : ConsumerRecord) (selected : List StreamDefinition)
  | create (record : ConsumerRecord) (selected : List StreamDefinition)
  | delete (consumerId : String)
  | sync (messages : OrderedMap ℕ PublishRecord)
      (consumers : OrderedMap String (ConsumerRecord × ConsumerCursorSet))
  | purge (id : ℕ)
  | replay (id : ℕ)

/-- Journal a stored record, then show it. -/
def DurableBrokerState.publishRecord (record : PublishRecord) :
    Procedure DurableBrokerState Unit := do
  append (.partitionAppend ⟨record.seq, record.stream.getD "", record.partition.getD 0,
    record.offset.getD 0, record.subject⟩)
  .change (showRecord record)

namespace DurableBrokerState

/-! ### What most calls leave alone -/

/-- The property does not depend on what is journaled, or on where the consumers' cursors
are. -/
structure Calm (holds : DurableBrokerState → Prop) : Prop where
  append : ∀ record, (append record).Keeps holds
  flushDue : flushDue.Keeps holds
  cursors : ∀ (state : DurableBrokerState) id (cursors : Consumer → ConsumerCursorSet),
    holds state → holds (state.modifyConsumer id fun consumer =>
      { consumer with cursors := cursors consumer })

namespace Calm

variable {holds : DurableBrokerState → Prop} {state : DurableBrokerState} {id : String}
  (calm : Calm holds)

include calm

theorem journalCursors : (journalCursors id).Keeps holds := by
  refine .bind (.read _) fun known => ?_
  split
  · exact calm.append _
  · exact .pure _

theorem nextDeliveryFor (connections : Finset ℕ) (world : DeliveryWorld) :
    (nextDeliveryFor id connections world).Keeps holds := by
  refine .bind (.read _) fun found => ?_
  split
  · exact .pure _
  · split
    · exact .pure _
    · refine .bind (.answer fun _ => calm.cursors _ _ _) fun seq =>
        .bind (.read _) fun metadata => ?_
      split
      · split
        · exact .pure _
        · refine .bind (.await _) fun message => ?_
          split <;> exact .pure _
      · exact .pure _

theorem acknowledgeFilteredDelivery (message : PublishRecord) :
    (acknowledgeFilteredDelivery id message).Keeps holds := by
  refine .bind (.read _) fun found => ?_
  split
  · exact .await _
  · refine .bind (.await _) fun cursors => ?_
    exact .bind (.change fun _ => calm.cursors _ _ _) fun _ => calm.append _

/-- A push, if leasing the message does no harm. -/
theorem deliverNext {connections : Finset ℕ}
    (leases : ∀ push bytes, (leasePush id connections push bytes).Keeps holds)
    (world : DeliveryWorld) : (deliverNext id connections world).Keeps holds := by
  refine .bind (calm.nextDeliveryFor connections world) fun found => ?_
  split
  · exact .pure _
  · refine .bind (.await _) fun outcome => .bind (.await _) fun _ => ?_
    split
    · exact .await _
    · exact .bind (calm.acknowledgeFilteredDelivery _) fun _ => .pure _
    · exact .bind (leases _ _) fun _ => .pure _

theorem nextPullCandidate (id : String) (logs : PartitionLogSet) (now : ℕ)
    (partitions : Option (Finset ℕ))
    (held : holds state) : holds (state.nextPullCandidate id logs now partitions).1 := by
  simp only [DurableBrokerState.nextPullCandidate]
  split
  · exact held
  · split
    · exact held
    · split
      · exact held
      · exact calm.cursors _ _ _ held

/-- The end of a fetch, if leasing its messages does no harm. -/
theorem commit (fetch : Fetch)
    (commits : (commitPullDeliveries fetch.consumerId fetch.prepared).Keeps holds)
    (held : holds state) : holds (fetch.commit state).1 := by
  have handedOut : ∀ leases middle, holds middle → holds (fetch.handOut leases middle).1 := by
    intro leases middle kept
    have flushed := calm.flushDue middle kept
    simp only [Fetch.handOut]
    split
    · rename_i failed
      rwa [failed] at flushed
    · rename_i done
      rwa [done] at flushed
  have committed := commits state held
  simp only [Fetch.commit]
  split
  · exact handedOut [] state held
  · split
    · rename_i failed
      rwa [failed] at committed
    · rename_i leases done
      rw [done] at committed
      exact handedOut leases _ committed

/-- A step of a fetch, if reserving messages and leasing them do no harm. -/
theorem advance (fetch : Fetch) (world : DeliveryWorld)
    (reserves : ∀ (state : DurableBrokerState) (preparing : Consumer → Finset ℕ), holds state →
      holds (state.modifyConsumer fetch.consumerId fun consumer =>
        { consumer with preparing := preparing consumer }))
    (commits : (commitPullDeliveries fetch.consumerId fetch.prepared).Keeps holds)
    (held : holds state) : holds (fetch.advance world state).1 := by
  have looked := calm.nextPullCandidate fetch.consumerId world.logs world.now fetch.partitions held
  have reserved : holds (state.reservePullCandidate fetch.consumerId world.logs world.now
      fetch.partitions).1 := by
    simp only [reservePullCandidate]
    split
    · exact looked
    · split
      · exact looked
      · split
        · exact looked
        · exact reserves _ _ looked
  have step := fetch.advance_steps world state
  generalize fetch.advance world state = next at step ⊢
  cases step with
  | full | unknown | overflow | prepares | returned => exact held
  | unread | tooLarge => exact reserves _ _ held
  | nothing _ after none => rwa [none] at reserved
  | reserves _ _ after candidate found => rwa [found] at reserved
  | commits => exact calm.commit fetch commits held

/-- An acknowledgement, if moving the cursor and ending the lease do no harm. -/
theorem ackInner {seq : ℕ} (moves : ∀ message, (moveCursor id message).Keeps holds)
    (ends : ∀ state noted, holds state → holds (state.modifyConsumer id (giveBack seq noted)))
    (noted : ∀ (state : DurableBrokerState) acked, holds state →
      holds { state with ackedCleanup := acked })
    (ready : ∀ state, holds state → holds (markConsumerReady id state))
    (cleanup : ∀ state, holds state → holds state.cleanupAckedMessages) (deliveryId : ℕ) :
    (ackInner id seq deliveryId).Keeps holds := by
  refine .bind (.read _) fun lease => ?_
  split
  · refine .bind (.read _) fun message => .bind ?_ fun delta => .bind (calm.append _) fun _ => ?_
    · simp only [acknowledgeMessage]
      split
      · split
        · exact moves _
        · exact .pure _
      · exact .pure _
    refine .bind (.change fun _ => ends _ _) fun _ => .bind (.change fun _ => noted _ _) fun _ => ?_
    refine .bind ?_ fun _ => .bind (.change ready) fun _ => ?_
    · simp only [journalDelta]
      split
      · exact calm.append _
      · exact .pure _
    · exact .bind (.change cleanup) fun _ => .bind calm.flushDue fun _ => .pure _
  · exact .bind calm.flushDue fun _ => .pure _

/-- Giving up a message, if dead letters and settling the message do no harm. -/
theorem finishDelivery {deadline : LeaseDeadline}
    (letters : ∀ (state : DurableBrokerState) letters, holds state →
      holds { state with deadLetters := letters })
    (settles : ∀ state cursors, holds state →
      holds (state.modifyConsumer deadline.consumerId (settle deadline.seq cursors)))
    (record : ConsumerRecord) (lease : InFlight) :
    (finishDelivery record deadline lease).Keeps holds := by
  refine .bind (.read _) fun message => .bind ?_ fun _ => .bind (calm.append _) fun _ => ?_
  · unfold keepDeadLetter
    split
    · exact .bind (calm.append _) fun _ => .change fun _ => letters _ _
    · exact .pure _
  refine .bind (.read _) fun cursors => .bind (.change fun _ => settles _ _) fun _ => ?_
  split
  · exact calm.append _
  · exact .pure _

end Calm

/-! ### What deliveries leave alone -/

/-- The property does not depend on the log, on the queue of deadlines, or on anything but
the members of the consumers, and it stays when a member uses credit. -/
structure Undisturbed (holds : DurableBrokerState → Prop) : Prop where
  wal : ∀ state wal, holds state → holds { state with wal := wal }
  deadlines : ∀ state queue, holds state → holds { state with leaseDeadlines := queue }
  consumer : ∀ (state : DurableBrokerState) id update, (∀ consumer,
    state.consumers.get? id = some consumer → (update consumer).members = consumer.members) →
    holds state → holds (state.modifyConsumer id update)
  consumed : ∀ state id connectionId bytes, holds state →
    holds (consumeDurableMember id connectionId bytes state)

namespace Undisturbed

variable {holds : DurableBrokerState → Prop} {state : DurableBrokerState} {id : String} {seq : ℕ}

section

variable (undisturbed : Undisturbed holds)

include undisturbed

theorem write (update : BrokerWal → BrokerWal) :
    (write update).Keeps holds := keeps_write undisturbed.wal update

theorem append (record : WalRecord) : (append record).Keeps holds := undisturbed.write _

/-- A change of something else about a consumer. -/
theorem other {update : Consumer → Consumer}
    (same : ∀ consumer, (update consumer).members = consumer.members) (held : holds state) :
    holds (state.modifyConsumer id update) :=
  undisturbed.consumer _ _ _ (fun consumer _ => same consumer) held

theorem calm : Calm holds :=
  ⟨undisturbed.append, undisturbed.write id, fun _ _ _ => undisturbed.other fun _ => rfl⟩

theorem scheduleLease (record : DeliveryAttemptRecord) (held : holds state) :
    holds (state.scheduleLease id seq record) := by
  simp only [DurableBrokerState.scheduleLease, compactStaleDeadlines]
  split
  · exact undisturbed.deadlines _ _ held
  · split <;> exact undisturbed.deadlines _ _ held

theorem appendDeliveryAttempt (deadlineMs attempt : ℕ) :
    (appendDeliveryAttempt seq id deadlineMs attempt).Keeps holds :=
  .bind (.read _) fun _ => .bind (.change fun _ => undisturbed.wal _ _) fun _ =>
    .bind (undisturbed.append _) fun _ => .pure _

variable (connections : Finset ℕ)

theorem leasePush (push : PushDelivery) (bytes : ℕ) :
    (leasePush id connections push bytes).Keeps holds := by
  refine .bind (undisturbed.appendDeliveryAttempt _ _) fun delivery => ?_
  refine .bind (.change fun _ => undisturbed.other fun _ => rfl) fun _ =>
    .bind undisturbed.calm.journalCursors fun _ =>
    .bind (.change fun _ => undisturbed.scheduleLease _) fun _ => ?_
  split
  · exact .change fun _ => undisturbed.consumed _ _ _ _
  · exact .pure _

theorem deliverNext (world : DeliveryWorld) :
    (deliverNext id connections world).Keeps holds :=
  undisturbed.calm.deliverNext (undisturbed.leasePush connections) world

theorem appendDeliveryBatch (entries : List DeliveryBatchEntry) :
    (appendDeliveryBatch entries).Keeps holds := by
  induction entries with
  | nil => exact .pure _
  | cons entry entries ih =>
    refine .bind (undisturbed.appendDeliveryAttempt _ _) fun lease => ?_
    exact .bind (undisturbed.append _) fun _ => .bind ih fun _ => .pure _

theorem journalBatch (before : Consumer) (prepared : List Candidate)
    (entries : List DeliveryBatchEntry) :
    (journalBatch id before prepared entries).Keeps holds := by
  intro state held
  have journaled := undisturbed.appendDeliveryBatch entries state held
  simp only [DurableBrokerState.journalBatch]
  split
  · rename_i done
    rwa [done] at journaled
  · rename_i failed
    rw [failed] at journaled
    exact undisturbed.other (fun _ => rfl) journaled

end

theorem takeReservations_members (prepared : List Candidate) (consumer : Consumer) :
    (takeReservations id prepared consumer).1.members = consumer.members := by
  induction prepared generalizing consumer with
  | nil => rfl
  | cons candidate candidates ih =>
    simp only [takeReservations]
    split
    · exact ih (takeReservation candidate consumer)
    · rfl

theorem lendFetched_members (leases : List DeliveryAttemptRecord) (consumer : Consumer) :
    (leases.foldl lendFetched consumer).members = consumer.members := by
  induction leases generalizing consumer with
  | nil => rfl
  | cons lease leases ih => exact ih (lendFetched consumer lease)

section

variable (undisturbed : Undisturbed holds)

include undisturbed

theorem scheduleLeases (leases : List DeliveryAttemptRecord) (held : holds state) :
    holds (leases.foldl (fun state lease =>
      state.scheduleLease id lease.seq lease) state) := by
  induction leases generalizing state with
  | nil => exact held
  | cons lease leases ih => exact ih (undisturbed.scheduleLease lease held)

theorem commitPullDeliveries (id : String) (prepared : List Candidate) :
    (commitPullDeliveries id prepared).Keeps holds := by
  apply Procedure.Triple.keeps
  refine .read_bind fun found => ?_
  split
  · exact .await fun _ held => held.1
  · refine .change_bind holds (fun state held => undisturbed.consumer _ _ _ ?_ held.1) ?_
    · intro known present
      rw [Option.some.inj (present.symm.trans held.2), takeReservations_members]
    · apply Procedure.Triple.of_keeps ?_ fun _ _ held => held
      refine .bind (.await _) fun entries => .bind (undisturbed.journalBatch _ _ _) fun leases => ?_
      refine .bind (.await _) fun _ => .bind (.change fun _ => ?_) fun _ => ?_
      · exact undisturbed.other (lendFetched_members leases)
      · exact .bind (.change fun _ => undisturbed.scheduleLeases leases) fun _ => .pure _

/-- Every step of a fetch. -/
theorem advance (fetch : Fetch) (world : DeliveryWorld) (held : holds state) :
    holds (fetch.advance world state).1 :=
  undisturbed.calm.advance fetch world (fun _ _ => undisturbed.other fun _ => rfl)
    (undisturbed.commitPullDeliveries _ _) held

theorem updatePullLease (seq deliveryId deadlineMs : ℕ) :
    (updatePullLease id seq deliveryId deadlineMs).Keeps holds := by
  refine .bind (.read _) fun found => ?_
  split
  · exact .await _
  · refine .bind (undisturbed.append _) fun _ => .bind (.change fun _ => ?_) fun _ => ?_
    · exact undisturbed.other fun _ => rfl
    · exact .bind (.change fun _ => undisturbed.scheduleLease _) fun _ => undisturbed.write _

end

end Undisturbed

end DurableBrokerState

namespace DeliveryRun

/-- A world in which the time is zero and messages read as they are. -/
def stillWorld : DeliveryWorld :=
  ⟨0, ⟨∅, ∅⟩, .ok, fun message => .ok ⟨.proceed, message, false⟩⟩

/-- A broker with one consumer and two messages for it. -/
def twoPending (maxInFlight : ℕ) : DeliveryRun :=
  let record : ConsumerRecord :=
    ⟨"c", "orders.*", none, 30000, maxInFlight, .earliest, .default⟩
  let message (seq : ℕ) : PublishRecord :=
    ⟨seq, "", none, none, none, "orders.a", none, [], 0, none, [], 0, 0⟩
  ⟨{ empty with
      consumers := OrderedMap.insert ∅ "c"
        { Consumer.fresh record .default with pending := {1, 2} }
      messages := .ofList [(1, message 1), (2, message 2)] }, ∅⟩

/-- Start a fetch and take a number of steps. -/
def fetchSteps (id maxMessages steps : ℕ) : List DeliveryAction :=
  .startFetch id "c" maxMessages 100 1000 none ::
    List.replicate steps (.advanceFetch id stillWorld)

/-- The other fetches stay as they are. -/
def advanceFetch (run : DeliveryRun) (id : ℕ) (world : DeliveryWorld) : DeliveryRun :=
  match run.fetches.get? id with
  | none => run
  | some fetch =>
    let next := fetch.advance world run.broker
    ⟨next.1, run.fetches.insert id next.2⟩

def next (run : DeliveryRun) : DeliveryAction → DeliveryRun
  | .publish record => { run with broker := (publishRecord record run.broker).1 }
  | .push consumerId connections world =>
    { run with broker := (deliverNext consumerId connections world run.broker).1 }
  | .startFetch id consumerId maxMessages maxBytes maxEncodedBytes partitions =>
    let fetch := Fetch.start consumerId maxMessages maxBytes maxEncodedBytes partitions
    if run.fetches.contains id then run
    else { run with fetches := run.fetches.insert id fetch }
  | .advanceFetch id world => run.advanceFetch id world
  | .updateLease consumerId seq deliveryId deadlineMs =>
    { run with broker := (updatePullLease consumerId seq deliveryId deadlineMs run.broker).1 }
  | .ack consumerId seq deliveryId =>
    { run with broker := (ackInner consumerId seq deliveryId run.broker).1 }
  | .nextDeadline => { run with broker := run.broker.nextLeaseDeadline.1 }
  | .expire now limit => { run with broker := (expireDueLeases now limit run.broker).1 }
  | .upsert record selected =>
    { run with broker := run.broker.upsertConsumer record selected }
  | .create record selected =>
    { run with broker := (createPullConsumer record selected run.broker).1 }
  | .delete consumerId => { run with broker := (deletePullConsumer consumerId run.broker).1 }
  | .sync messages consumers =>
    { run with broker := run.broker.syncDurableState messages consumers }
  | .purge id => { run with broker := (purgeDeadLetter id run.broker).1 }
  | .replay id => { run with broker := (replayDeadLetter id run.broker).1 }

/-- A property of the broker that every call and every step of a fetch keeps is kept
by every action. -/
structure BrokerInvariant (holds : DurableBrokerState → Prop) : Prop where
  publish : ∀ record, (publishRecord record).Keeps holds
  push : ∀ consumerId connections world, (deliverNext consumerId connections world).Keeps holds
  fetch : ∀ (fetch : Fetch) world state, holds state → holds (fetch.advance world state).1
  updateLease : ∀ consumerId seq deliveryId deadlineMs,
    (updatePullLease consumerId seq deliveryId deadlineMs).Keeps holds
  ack : ∀ consumerId seq deliveryId, (ackInner consumerId seq deliveryId).Keeps holds
  nextDeadline : ∀ state, holds state → holds state.nextLeaseDeadline.1
  expire : ∀ now limit, (expireDueLeases now limit).Keeps holds
  upsert : ∀ record selected state, holds state → holds (state.upsertConsumer record selected)
  create : ∀ record selected, (createPullConsumer record selected).Keeps holds
  delete : ∀ consumerId, (deletePullConsumer consumerId).Keeps holds
  sync : ∀ messages consumers state, holds state → holds (state.syncDurableState messages consumers)
  purge : ∀ id, (purgeDeadLetter id).Keeps holds
  replay : ∀ id, (replayDeadLetter id).Keeps holds

theorem BrokerInvariant.next {holds : DurableBrokerState → Prop} (kept : BrokerInvariant holds)
    {run : DeliveryRun} (held : holds run.broker) (action : DeliveryAction) :
    holds (run.next action).broker := by
  cases action with
  | publish record => exact kept.publish record _ held
  | push consumerId connections world => exact kept.push consumerId connections world _ held
  | startFetch id consumerId maxMessages maxBytes maxEncodedBytes partitions =>
    simp only [DeliveryRun.next]
    split <;> exact held
  | advanceFetch id world =>
    simp only [DeliveryRun.next, advanceFetch]
    split
    · exact held
    · exact kept.fetch _ world _ held
  | updateLease consumerId seq deliveryId deadlineMs =>
    exact kept.updateLease consumerId seq deliveryId deadlineMs _ held
  | ack consumerId seq deliveryId => exact kept.ack consumerId seq deliveryId _ held
  | nextDeadline => exact kept.nextDeadline _ held
  | expire now limit => exact kept.expire now limit _ held
  | upsert record selected => exact kept.upsert record selected _ held
  | create record selected => exact kept.create record selected _ held
  | delete consumerId => exact kept.delete consumerId _ held
  | sync messages consumers => exact kept.sync messages consumers _ held
  | purge id => exact kept.purge id _ held
  | replay id => exact kept.replay id _ held

end DeliveryRun

end Morrow
