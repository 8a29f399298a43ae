import Morrow.DeliveryRuns

/-!
# No lease is forgotten

Every lease has its entry in the queue of deadlines, whatever the broker does, as long
as its journal takes what it writes. Stale entries and rebuilding the queue do not
change that. So a sweep finds every lease that is due, and the time of the next sweep
is not later than any deadline.
-/

namespace Morrow

open GuardedRuns Procedure OrderedMap List

namespace DurableBrokerState

variable {state before after : DurableBrokerState} {consumerId : String} {seq : ℕ}
  {lease : InFlight}

/-! ### Leases and changes of the state -/

theorem lease?_eq_some : state.lease? consumerId seq = some lease ↔
    ∃ consumer, state.consumers.get? consumerId = some consumer ∧
      consumer.inFlight.get? seq = some lease := by
  simp only [lease?, Option.bind_eq_some_iff]

theorem lease?_modifyConsumer (changed : String) (update : Consumer → Consumer) :
    (state.modifyConsumer changed update).lease? consumerId seq = some lease ↔
      ∃ consumer, state.consumers.get? consumerId = some consumer ∧
        (if consumerId = changed then update consumer else consumer).inFlight.get? seq =
          some lease := by
  rw [lease?_eq_some]
  simp only [modifyConsumer, get?_modify]
  split
  · simp only [Option.map_eq_some_iff]
    constructor
    · rintro ⟨_, ⟨consumer, found, rfl⟩, held⟩
      exact ⟨consumer, found, held⟩
    · rintro ⟨consumer, found, held⟩
      exact ⟨_, ⟨consumer, found, rfl⟩, held⟩
  · rfl

/-- Every lease has its entry, apart from those that are still to be put in. -/
def CoversBut (missing : List LeaseDeadline) (state : DurableBrokerState) : Prop :=
  ∀ consumerId seq lease, state.lease? consumerId seq = some lease →
    .ofLease consumerId seq lease ∈ state.leaseDeadlines ∨ .ofLease consumerId seq lease ∈ missing

/-- The journal takes every write, and every lease has its entry. -/
structure Tracked (missing : List LeaseDeadline) (state : DurableBrokerState) : Prop where
  working : state.wal.outcomes = []
  covers : state.CoversBut missing

variable {missing : List LeaseDeadline} {fails : Failure → DurableBrokerState → Prop}

/-- Losing leases does no harm. -/
theorem Tracked.shrink (tracked : before.Tracked missing)
    (outcomes : after.wal.outcomes = before.wal.outcomes)
    (queue : after.leaseDeadlines = before.leaseDeadlines)
    (fewer : ∀ consumerId seq lease, after.lease? consumerId seq = some lease →
      before.lease? consumerId seq = some lease) : after.Tracked missing where
  working := outcomes.trans tracked.working
  covers := by
    intro consumerId seq lease held
    rw [queue]
    exact tracked.covers consumerId seq lease (fewer consumerId seq lease held)

/-- A change of the state that leaves consumers, queue and journal alone. -/
theorem Tracked.frame (tracked : before.Tracked missing) (wal : after.wal = before.wal)
    (queue : after.leaseDeadlines = before.leaseDeadlines)
    (consumers : after.consumers = before.consumers) : after.Tracked missing := by
  apply tracked.shrink (by rw [wal]) queue
  intro consumerId seq lease held
  rwa [lease?, consumers] at held

variable {changed : String} {update : Consumer → Consumer}

/-- A change of a consumer. The leases it gains lack their entries at first. -/
theorem Tracked.gain (tracked : state.Tracked missing) (added : List LeaseDeadline)
    (gained : ∀ consumer, state.consumers.get? changed = some consumer → ∀ seq lease,
      (update consumer).inFlight.get? seq = some lease →
        consumer.inFlight.get? seq = some lease ∨ .ofLease changed seq lease ∈ added) :
    (state.modifyConsumer changed update).Tracked (added ++ missing) := by
  refine ⟨tracked.working, ?_⟩
  intro consumerId seq lease held
  have old : state.lease? consumerId seq = some lease →
      .ofLease consumerId seq lease ∈ state.leaseDeadlines ∨
        .ofLease consumerId seq lease ∈ added ++ missing := fun known =>
    (tracked.covers consumerId seq lease known).imp_right (mem_append_right _)
  obtain ⟨consumer, found, leased⟩ := (lease?_modifyConsumer changed update).mp held
  split at leased
  · rename_i own
    subst own
    rcases gained consumer found seq lease leased with known | new
    · exact old (lease?_eq_some.mpr ⟨consumer, found, known⟩)
    · exact .inr (mem_append_left _ new)
  · exact old (lease?_eq_some.mpr ⟨consumer, found, leased⟩)

/-- A change of a consumer that gives it no new lease. -/
theorem Tracked.modifyConsumer (tracked : state.Tracked missing)
    (fewer : ∀ consumer, state.consumers.get? changed = some consumer → ∀ seq lease,
      (update consumer).inFlight.get? seq = some lease → consumer.inFlight.get? seq = some lease) :
    (state.modifyConsumer changed update).Tracked missing :=
  tracked.gain [] fun consumer found seq lease held =>
    .inl (fewer consumer found seq lease held)

/-- A change of a consumer that leases it one message. -/
theorem Tracked.lend (tracked : state.Tracked missing) {given : InFlight}
    (lends : ∀ consumer, state.consumers.get? consumerId = some consumer →
      (update consumer).inFlight = consumer.inFlight.insert seq given) :
    (state.modifyConsumer consumerId update).Tracked
      (.ofLease consumerId seq given :: missing) := by
  apply tracked.gain [.ofLease consumerId seq given]
  intro consumer found other lease held
  rw [lends consumer found] at held
  rcases get?_insert_eq_some.mp held with ⟨rfl, rfl⟩ | ⟨-, old⟩
  · exact .inr mem_cons_self
  · exact .inl old

theorem write_of_working (working : state.wal.outcomes = []) (update : BrokerWal → BrokerWal) :
    write update state = ({ state with wal := update { state.wal with outcomes := [] } },
      .ok ()) := by
  simp [write, working]

variable (record : WalRecord)

/-- An append changes nothing else. -/
theorem append_framed {holds : DurableBrokerState → Prop}
    (ignores : ∀ state wal, holds state → holds { state with wal := wal }) :
    (append record).Triple (fun state => state.Tracked missing ∧ holds state)
      (fun _ state => state.Tracked missing ∧ holds state) fails := by
  rintro state ⟨tracked, held⟩
  have appended : (append record state).1.Tracked missing ∧ holds (append record state).1 := by
    rw [append, write_of_working tracked.working]
    exact ⟨tracked.shrink tracked.working.symm rfl fun _ _ _ leased => leased, ignores _ _ held⟩
  rwa [append, write_of_working tracked.working] at appended ⊢

theorem append_tracked :
    (append record).Triple (Tracked missing) (fun _ => Tracked missing) fails := by
  intro state tracked
  rw [append, write_of_working tracked.working]
  exact tracked.shrink tracked.working.symm rfl fun _ _ _ held => held

theorem flushDue_tracked : flushDue.Triple (Tracked missing) (fun _ => Tracked missing) fails := by
  intro state tracked
  rw [flushDue, write_of_working tracked.working]
  exact tracked.shrink tracked.working.symm rfl fun _ _ _ held => held

/-! ### The queue -/

theorem mem_liveDeadlines {deadline : LeaseDeadline} : deadline ∈ state.liveDeadlines ↔
    ∃ lease, state.lease? deadline.consumerId deadline.seq = some lease ∧
      deadline = .ofLease deadline.consumerId deadline.seq lease := by
  simp only [liveDeadlines, mem_flatMap, mem_map, Prod.exists, mem_entries, lease?_eq_some]
  constructor
  · rintro ⟨consumerId, consumer, found, seq, lease, held, rfl⟩
    exact ⟨lease, ⟨consumer, found, held⟩, rfl⟩
  · rintro ⟨lease, ⟨consumer, found, held⟩, same⟩
    exact ⟨_, consumer, found, _, lease, held, same.symm⟩

theorem covers_of_live (live : ∀ deadline ∈ state.liveDeadlines,
    deadline ∈ state.leaseDeadlines ∨ deadline ∈ missing) : state.CoversBut missing :=
  fun _ _ lease held => live _ (mem_liveDeadlines.mpr ⟨lease, held, rfl⟩)

theorem Tracked.compact (tracked : state.Tracked missing) :
    state.compactStaleDeadlines.Tracked missing := by
  simp only [compactStaleDeadlines]
  split
  · exact tracked
  · split
    · exact tracked
    · exact ⟨tracked.working, covers_of_live fun deadline live =>
        .inl (PriorityQueue.mem_ofList.mpr live)⟩

/-- Scheduling a lease puts in its entry. -/
theorem Tracked.schedule {record : DeliveryAttemptRecord}
    (tracked : state.Tracked (.ofLease consumerId seq (.ofRecord record) :: missing)) :
    (state.scheduleLease consumerId seq record).Tracked missing := by
  apply Tracked.compact
  refine ⟨tracked.working, ?_⟩
  intro otherId otherSeq lease held
  rcases tracked.covers otherId otherSeq lease held with queued | waiting
  · exact .inl (PriorityQueue.mem_push.mpr (.inr queued))
  · rcases mem_cons.mp waiting with same | later
    · exact .inl (PriorityQueue.mem_push.mpr (.inl same))
    · exact .inr later

theorem not_stale (held : state.lease? consumerId seq = some lease) :
    state.stale (.ofLease consumerId seq lease) = false := by
  simp [stale, LeaseDeadline.ofLease, held]

theorem Tracked.discard (tracked : state.Tracked []) : state.discardStaleDeadlines.Tracked [] where
  working := tracked.working
  covers := by
    intro consumerId seq lease held
    have queued := (tracked.covers consumerId seq lease held).resolve_right not_mem_nil
    exact .inl (PriorityQueue.mem_discard queued (not_stale held))

/-! ### Publishing and pushing -/

theorem tracked_calm : Calm (Tracked []) where
  append record := (append_tracked record).keeps
  flushDue := flushDue_tracked.keeps
  cursors _ _ _ tracked := tracked.modifyConsumer fun _ _ _ _ held => held

theorem Tracked.showRecord (tracked : state.Tracked missing) (record : PublishRecord) :
    (state.showRecord record).Tracked missing := by
  refine Tracked.shrink tracked rfl rfl ?_
  intro consumerId seq lease held
  obtain ⟨consumer, found, leased⟩ := lease?_eq_some.mp held
  simp only [DurableBrokerState.showRecord, markSubjectReady, observePublishedRecord,
    get?_mapValues, Option.map_eq_some_iff] at found
  obtain ⟨shown, known, rfl⟩ := found
  exact lease?_eq_some.mpr ⟨shown, known, leased⟩

theorem keeps_publishRecord (record : PublishRecord) : (publishRecord record).Keeps (Tracked []) :=
  .bind (tracked_calm.append _) fun _ => .change fun _ tracked => tracked.showRecord record

variable (connections : Finset ℕ)

theorem appendDeliveryAttempt_tracked (deadlineMs attempt : ℕ) :
    (appendDeliveryAttempt seq consumerId deadlineMs attempt).Triple (Tracked missing)
      (fun _ => Tracked missing) fails := by
  refine .read_bind fun deliveryId => ?_
  refine .change_bind (Tracked missing) (fun _ held => ?_) ?_
  · exact held.1.shrink rfl rfl fun _ _ _ leased => leased
  · exact (append_tracked _).bind fun _ => .pure fun _ tracked => tracked

theorem Tracked.consumeDurableMember (tracked : state.Tracked missing)
    (connectionId payloadBytes : ℕ) :
    (state.consumeDurableMember consumerId connectionId payloadBytes).Tracked missing := by
  apply tracked.modifyConsumer
  intro consumer _ seq lease held
  split at held <;> exact held

theorem journalCursors_tracked (consumerId : String) :
    (journalCursors consumerId).Triple (Tracked missing) (fun _ => Tracked missing) fails := by
  refine .read_bind fun known => ?_
  split
  · exact (append_tracked _).strengthen fun _ held => held.1
  · exact .pure fun _ held => held.1

/-- A push puts the lease and its entry in. -/
theorem leasePush_tracked (push : PushDelivery) (payloadBytes : ℕ) :
    (leasePush consumerId connections push payloadBytes).Triple (Tracked [])
      (fun _ => Tracked []) fails := by
  refine (appendDeliveryAttempt_tracked _ _).bind fun delivery => ?_
  refine .change_bind (Tracked [.ofLease consumerId push.seq (.ofRecord delivery)])
    (fun _ tracked => tracked.lend fun _ _ => rfl) ?_
  refine (journalCursors_tracked consumerId).bind fun _ => ?_
  refine .change_bind (Tracked []) (fun _ tracked => tracked.schedule) ?_
  split
  · exact .change fun _ tracked => tracked.consumeDurableMember _ _
  · exact .pure fun _ tracked => tracked

/-! ### Fetching -/

/-- The entry of a journaled delivery. -/
def journaledDeadline (consumerId : String) (record : DeliveryAttemptRecord) : LeaseDeadline :=
  .ofLease consumerId record.seq (.ofRecord record)

theorem takeReservations_inFlight (prepared : List Candidate) (consumer : Consumer) :
    (takeReservations consumerId prepared consumer).1.inFlight = consumer.inFlight := by
  induction prepared generalizing consumer with
  | nil => rfl
  | cons candidate candidates ih =>
    simp only [takeReservations]
    split
    · exact ih _
    · rfl

theorem appendDeliveryBatch_tracked (entries : List DeliveryBatchEntry) :
    (appendDeliveryBatch entries).Triple (Tracked missing) (fun _ => Tracked missing) fails := by
  induction entries with
  | nil => exact .pure fun _ tracked => tracked
  | cons entry entries ih =>
    refine (appendDeliveryAttempt_tracked _ _).bind fun lease => ?_
    refine (append_tracked _).bind fun _ => ?_
    exact ih.bind fun _ => .pure fun _ tracked => tracked

theorem journalBatch_tracked (before : Consumer) (prepared : List Candidate)
    (entries : List DeliveryBatchEntry) :
    (journalBatch consumerId before prepared entries).Triple (Tracked missing)
      (fun _ => Tracked missing) fails := by
  intro state tracked
  have done : (appendDeliveryBatch entries).Triple (Tracked missing) (fun _ => Tracked missing)
      fun _ _ => False := appendDeliveryBatch_tracked entries
  have journaled := done state tracked
  simp only [journalBatch]
  cases appended : appendDeliveryBatch entries state with
  | mk after outcome =>
    rw [appended] at journaled
    cases outcome with
    | ok leases => exact journaled
    | error failure => exact journaled.elim

variable (leases : List DeliveryAttemptRecord)

/-- The leases a consumer gains are those that were journaled. -/
theorem get?_foldl_lendFetched (consumer : Consumer)
    (held : (leases.foldl lendFetched consumer).inFlight.get? seq = some lease) :
    consumer.inFlight.get? seq = some lease ∨
      .ofLease consumerId seq lease ∈ leases.map (journaledDeadline consumerId) := by
  induction leases generalizing consumer with
  | nil => exact .inl held
  | cons record records ih =>
    rcases ih _ held with known | new
    · rcases get?_insert_eq_some.mp known with ⟨rfl, rfl⟩ | ⟨-, old⟩
      · exact .inr mem_cons_self
      · exact .inl old
    · exact .inr (mem_cons_of_mem _ new)

theorem Tracked.scheduleAll
    (tracked : state.Tracked (leases.map (journaledDeadline consumerId) ++ missing)) :
    (leases.foldl (fun state lease => state.scheduleLease consumerId lease.seq lease)
      state).Tracked missing := by
  induction leases generalizing state with
  | nil => exact tracked
  | cons record records ih => exact ih (tracked.schedule)

theorem commitPullDeliveries_tracked (consumerId : String) (prepared : List Candidate) :
    (commitPullDeliveries consumerId prepared).Triple (Tracked []) (fun _ => Tracked [])
      fun _ => Tracked [] := by
  refine .read_bind fun found => ?_
  split
  · exact .await fun _ held => held.1
  · rename_i consumer
    refine .change_bind (Tracked []) ?_ ?_
    · rintro state ⟨tracked, known⟩
      apply tracked.modifyConsumer
      intro same present seq lease held
      rw [known] at present
      rwa [takeReservations_inFlight, Option.some.inj present] at held
    refine .await_bind (fun _ _ _ tracked => tracked) fun entries _ => ?_
    refine (journalBatch_tracked consumer prepared entries).bind fun leases => ?_
    refine .await_bind (fun _ _ _ tracked => tracked) fun _ _ => ?_
    refine .change_bind (Tracked (leases.map (journaledDeadline consumerId))) ?_ ?_
    · intro state tracked
      have gained := tracked.gain (leases.map (journaledDeadline consumerId))
        fun consumer _ _ _ held => get?_foldl_lendFetched leases consumer held
      rwa [append_nil] at gained
    · refine .change_bind (Tracked []) (fun state tracked => ?_) (.pure fun _ tracked => tracked)
      exact Tracked.scheduleAll leases (by rwa [append_nil])

theorem Tracked.advance (tracked : state.Tracked []) (fetch : Fetch) (world : DeliveryWorld) :
    (fetch.advance world state).1.Tracked [] :=
  tracked_calm.advance fetch world
    (fun _ _ tracked => tracked.modifyConsumer fun _ _ _ _ held => held)
    (commitPullDeliveries_tracked _ _).keeps tracked

/-! ### Changing and acknowledging leases -/

theorem Tracked.eraseConsumer (tracked : before.Tracked []) {removed : String}
    (wal : after.wal = before.wal) (queue : after.leaseDeadlines = before.leaseDeadlines)
    (consumers : after.consumers = before.consumers.erase removed) : after.Tracked [] := by
  apply tracked.shrink (by rw [wal]) queue
  intro consumerId seq lease held
  obtain ⟨consumer, found, leased⟩ := lease?_eq_some.mp held
  rw [consumers, get?_erase_eq_some] at found
  exact lease?_eq_some.mpr ⟨consumer, found.2, leased⟩

theorem Tracked.insertConsumer (tracked : before.Tracked []) {consumer : Consumer}
    (wal : after.wal = before.wal) (queue : after.leaseDeadlines = before.leaseDeadlines)
    (consumers : after.consumers = before.consumers.insert changed consumer)
    (fewer : ∀ seq lease, consumer.inFlight.get? seq = some lease →
      before.lease? changed seq = some lease) : after.Tracked [] := by
  apply tracked.shrink (by rw [wal]) queue
  intro consumerId seq lease held
  obtain ⟨other, found, leased⟩ := lease?_eq_some.mp held
  rw [consumers] at found
  rcases get?_insert_eq_some.mp found with ⟨rfl, rfl⟩ | ⟨-, old⟩
  · exact fewer seq lease leased
  · exact lease?_eq_some.mpr ⟨other, old, leased⟩

/-- The lease's new deadline gets an entry of its own. -/
theorem updatePullLease_tracked (seq deliveryId deadlineMs : ℕ) :
    (updatePullLease consumerId seq deliveryId deadlineMs).Triple (Tracked [])
      (fun _ => Tracked []) fun _ => Tracked [] := by
  refine .read_bind fun found => ?_
  split
  · exact .await fun _ held => held.1
  · refine (append_framed _ fun _ _ held => held).bind fun _ => ?_
    refine .change_bind (Tracked [⟨deadlineMs, consumerId, seq, deliveryId⟩]) ?_ ?_
    · rintro state ⟨tracked, known⟩
      obtain ⟨held, named⟩ := Option.filter_eq_some_iff.mp known
      apply tracked.gain [⟨deadlineMs, consumerId, seq, deliveryId⟩]
      intro consumer present other moved leased
      simp only [get?_modify] at leased
      split at leased
      · rename_i same
        subst same
        simp only [lease?, present, Option.bind_some] at held
        rw [held, Option.map_some, Option.some.injEq] at leased
        rw [← leased, ← of_decide_eq_true named]
        exact .inr mem_cons_self
      · exact .inl leased
    · refine .change_bind (Tracked []) (fun _ tracked => ?_) flushDue_tracked
      refine Tracked.schedule ?_
      exact tracked

theorem Tracked.markConsumerReady (tracked : state.Tracked []) :
    (state.markConsumerReady consumerId).Tracked [] := by
  simp only [DurableBrokerState.markConsumerReady]
  split
  · exact tracked.frame rfl rfl rfl
  · exact tracked

theorem keeps_moveCursor (message : PublishRecord) :
    (moveCursor consumerId message).Keeps (Tracked []) := by
  intro state tracked
  simp only [moveCursor]
  split
  · exact tracked
  · rename_i consumer found
    split
    · exact tracked.eraseConsumer rfl rfl rfl
    · refine tracked.insertConsumer rfl rfl rfl fun seq lease held => ?_
      exact lease?_eq_some.mpr ⟨consumer, found, held⟩

theorem keeps_ackInner (seq deliveryId : ℕ) :
    (ackInner consumerId seq deliveryId).Keeps (Tracked []) := by
  refine tracked_calm.ackInner keeps_moveCursor (fun state noted tracked => ?_)
    (fun _ _ tracked => tracked.frame rfl rfl rfl) (fun _ tracked => tracked.markConsumerReady)
    (fun _ tracked => tracked.frame rfl rfl rfl) deliveryId
  apply tracked.modifyConsumer
  intro consumer _ other lease held
  exact (get?_erase_eq_some.mp held).2

/-! ### Consumers and dead letters -/

theorem Tracked.upsertConsumer (tracked : state.Tracked []) (record : ConsumerRecord)
    (selected : List StreamDefinition) : (state.upsertConsumer record selected).Tracked [] := by
  refine tracked.insertConsumer rfl rfl rfl ?_
  intro seq lease held
  split at held
  · cases held
  · rename_i existing found
    exact lease?_eq_some.mpr ⟨existing, found, held⟩

theorem keeps_createPullConsumer (record : ConsumerRecord) (selected : List StreamDefinition) :
    (createPullConsumer record selected).Keeps (Tracked []) := by
  refine .bind (.read _) fun present => .bind (.read _) fun cursors => ?_
  refine .bind (.await _) fun _ => .bind (.await _) fun _ => ?_
  refine .bind (tracked_calm.append _) fun _ => .bind (tracked_calm.append _) fun _ => ?_
  refine .bind (.change fun _ tracked => ?_) fun _ => ?_
  · exact tracked.insertConsumer rfl rfl rfl fun seq lease held => by cases held
  · exact .bind (.change fun _ tracked => tracked.markConsumerReady) fun _ => tracked_calm.flushDue

theorem keeps_deletePullConsumer (consumerId : String) :
    (deletePullConsumer consumerId).Keeps (Tracked []) := by
  refine .bind (.read _) fun present => .bind (.await _) fun _ => ?_
  refine .bind (tracked_calm.append _) fun _ => ?_
  refine .bind (.change fun _ tracked => ?_) fun _ => tracked_calm.flushDue
  exact tracked.eraseConsumer rfl rfl rfl

/-- The queue is built anew when the cluster's state is taken over. -/
theorem Tracked.syncDurableState (tracked : state.Tracked [])
    (messages : OrderedMap ℕ PublishRecord)
    (consumers : OrderedMap String (ConsumerRecord × ConsumerCursorSet)) :
    (state.syncDurableState messages consumers).Tracked [] where
  working := tracked.working
  covers := covers_of_live fun _ live => .inl (PriorityQueue.mem_ofList.mpr live)

theorem keeps_purgeDeadLetter (id : ℕ) : (purgeDeadLetter id).Keeps (Tracked []) := by
  refine .bind (.read _) fun known => ?_
  split
  · refine .bind (tracked_calm.append _) fun _ => ?_
    exact .bind (.change fun _ tracked => tracked.frame rfl rfl rfl) fun _ => .pure _
  · exact .pure _

theorem keeps_replayDeadLetter (id : ℕ) : (replayDeadLetter id).Keeps (Tracked []) := by
  refine .bind (.read _) fun letter => ?_
  split
  · exact .pure _
  · refine .bind (.read _) fun possible => ?_
    split
    · refine .bind (tracked_calm.append _) fun _ => ?_
      refine .bind (.change fun _ tracked => tracked.frame rfl rfl rfl) fun _ => ?_
      refine .bind (.change fun _ tracked => ?_) fun _ => ?_
      · exact tracked.modifyConsumer fun _ _ _ _ held => held
      · exact .bind (.change fun _ tracked => tracked.markConsumerReady) fun _ => .pure _
    · exact .pure _

end DurableBrokerState

end Morrow
