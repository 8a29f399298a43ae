import Morrow.LeaseHeap

/-!
# Sweeping the leases that are due

A sweep takes the lease at the front of the queue as long as it is due. Stale entries
are gone by then, so there always is such a lease, and afterwards it is gone or its
deadline lies in the future. One lease fewer is due each time, so a sweep with a limit
as large as the number of due leases leaves none. A retry whose deadline would not fit
its type ends the sweep: the lease at hand is lost and the other due leases stay.
-/

namespace Morrow

open List GuardedRuns Procedure

namespace DurableBrokerState

variable {state before after : DurableBrokerState} {consumerId : String} {seq : ℕ}
  {lease : InFlight} {now bound : ℕ} {fails : Failure → DurableBrokerState → Prop}
  {deadline : LeaseDeadline}

/-- The leases that are due, by consumer and message. -/
def dueLeases (now : ℕ) (state : DurableBrokerState) : Finset (String × ℕ) :=
  ((state.liveDeadlines.filter fun deadline => deadline.deadlineMs ≤ now).map
    fun deadline => (deadline.consumerId, deadline.seq)).toFinset

theorem mem_dueLeases : (consumerId, seq) ∈ state.dueLeases now ↔
    ∃ lease, state.lease? consumerId seq = some lease ∧ lease.deadlineMs ≤ now := by
  simp only [dueLeases, mem_toFinset, mem_map, mem_filter, decide_eq_true_eq,
    mem_liveDeadlines, Prod.mk.injEq]
  constructor
  · rintro ⟨deadline, ⟨⟨lease, held, same⟩, due⟩, rfl, rfl⟩
    rw [same] at due
    exact ⟨lease, held, due⟩
  · rintro ⟨lease, held, due⟩
    exact ⟨.ofLease consumerId seq lease, ⟨⟨lease, held, rfl⟩, due⟩, rfl, rfl⟩

/-- The retry deadline of every lease that is due can be written. -/
def RetriesFit (now : ℕ) (state : DurableBrokerState) : Prop :=
  ∀ known ∈ state.consumers.entries, ∀ held ∈ known.2.inFlight.entries,
    held.2.deadlineMs ≤ now → now + retryDelay known.2.record held.2 ≤ u64Max

instance retriesFitDecidable : Decidable (state.RetriesFit now) := by
  unfold RetriesFit
  infer_instance

/-- So many leases are due at most, and their retries fit if this is asked for. -/
def Bounded (strict : Prop) (now bound : ℕ) (state : DurableBrokerState) : Prop :=
  (state.dueLeases now).card ≤ bound ∧ (strict → state.RetriesFit now)

/-- The consumers keep their records, and no lease becomes due. -/
def Fewer (now : ℕ) (before after : DurableBrokerState) : Prop :=
  ∀ consumerId consumer, after.consumers.get? consumerId = some consumer →
    ∃ old, before.consumers.get? consumerId = some old ∧ consumer.record = old.record ∧
      ∀ seq lease, consumer.inFlight.get? seq = some lease → lease.deadlineMs ≤ now →
        old.inFlight.get? seq = some lease

variable {strict : Prop} {update : Consumer → Consumer}

theorem Fewer.retriesFit (fewer : Fewer now before after) (fits : before.RetriesFit now) :
    after.RetriesFit now := by
  rintro ⟨consumerId, consumer⟩ known ⟨seq, lease⟩ held due
  obtain ⟨old, found, same, kept⟩ := fewer consumerId consumer (OrderedMap.mem_entries.mp known)
  have leased := kept seq lease (OrderedMap.mem_entries.mp held) due
  rw [same]
  exact fits _ (OrderedMap.mem_entries.mpr found) _ (OrderedMap.mem_entries.mpr leased) due

theorem Bounded.fewer (bounded : before.Bounded strict now bound)
    (fewer : Fewer now before after) : after.Bounded strict now bound := by
  refine ⟨le_trans (Finset.card_le_card ?_) bounded.1, fun asked =>
    fewer.retriesFit (bounded.2 asked)⟩
  rintro ⟨consumerId, seq⟩ member
  obtain ⟨lease, held, due⟩ := mem_dueLeases.mp member
  obtain ⟨consumer, found, leased⟩ := lease?_eq_some.mp held
  obtain ⟨old, known, -, kept⟩ := fewer consumerId consumer found
  exact mem_dueLeases.mpr ⟨lease, lease?_eq_some.mpr ⟨old, known, kept seq lease leased due⟩, due⟩

theorem fewer_modifyConsumer {changed : String}
    (record : ∀ consumer, (update consumer).record = consumer.record)
    (leases : ∀ consumer seq lease, (update consumer).inFlight.get? seq = some lease →
      lease.deadlineMs ≤ now → consumer.inFlight.get? seq = some lease) :
    Fewer now state (state.modifyConsumer changed update) := by
  intro consumerId consumer found
  rw [modifyConsumer, OrderedMap.get?_modify] at found
  split at found
  · obtain ⟨old, known, rfl⟩ := Option.map_eq_some_iff.mp found
    exact ⟨old, known, record old, leases old⟩
  · exact ⟨consumer, found, rfl, fun _ _ held _ => held⟩

/-- Every lease has its entry, and the leases that are due are bounded. -/
def Sweeping (strict : Prop) (now bound : ℕ) (state : DurableBrokerState) : Prop :=
  state.Tracked [] ∧ state.Bounded strict now bound

theorem Sweeping.modifyConsumer (sweeping : state.Sweeping strict now bound) {changed : String}
    (record : ∀ consumer, (update consumer).record = consumer.record)
    (same : ∀ consumer, (update consumer).inFlight = consumer.inFlight) :
    (state.modifyConsumer changed update).Sweeping strict now bound := by
  constructor
  · apply sweeping.1.modifyConsumer
    intro consumer _ seq lease held
    rwa [same] at held
  · apply sweeping.2.fewer (fewer_modifyConsumer record _)
    intro consumer seq lease held _
    rwa [same] at held

/-! ### A lease ends -/

theorem settle_inFlight (cursors : Option ConsumerCursorSet) (consumer : Consumer) :
    (settle seq cursors consumer).inFlight = consumer.inFlight := by
  cases cursors <;> rfl

theorem settle_record (cursors : Option ConsumerCursorSet) (consumer : Consumer) :
    (settle seq cursors consumer).record = consumer.record := by
  cases cursors <;> rfl

variable (record : ConsumerRecord)

theorem consumers_scheduleLease (record : DeliveryAttemptRecord) :
    (state.scheduleLease consumerId seq record).consumers = state.consumers := by
  simp only [scheduleLease, compactStaleDeadlines]
  split
  · rfl
  · split <;> rfl

theorem Sweeping.requeue (sweeping : state.Sweeping strict now bound) (deadline : LeaseDeadline)
    (lease : InFlight) : (state.requeue deadline lease).Sweeping strict now bound := by
  have requeued : (state.modifyConsumer deadline.consumerId fun consumer => { consumer with
      pending := insert deadline.seq consumer.pending
      pendingAttempts := consumer.pendingAttempts.insert deadline.seq
        (if lease.retryWaiting then lease.attempt
          else nextAttempt lease.attempt) }).Sweeping strict now bound :=
    sweeping.modifyConsumer (fun _ => rfl) fun _ => rfl
  exact ⟨requeued.1.frame rfl rfl rfl, requeued.2⟩

/-- A lease that waits for its next attempt is not due before that. -/
theorem postpone_sweeping {retry : DeliveryAttemptRecord} (later : now < retry.deadlineMs) :
    (postpone deadline retry).Triple (Sweeping strict now bound)
      (fun _ => Sweeping strict now bound) fails := by
  refine (append_framed _ fun _ _ bounded => bounded).bind fun _ => ?_
  refine .change_bind (fun state =>
    state.Tracked [.ofLease deadline.consumerId deadline.seq (.ofRecord retry)] ∧
      state.Bounded strict now bound) ?_ (.change ?_)
  · rintro state ⟨tracked, bounded⟩
    refine ⟨tracked.lend fun _ _ => rfl, bounded.fewer (fewer_modifyConsumer (fun _ => rfl) ?_)⟩
    intro consumer seq lease held due
    rcases OrderedMap.get?_insert_eq_some.mp held with ⟨-, rfl⟩ | ⟨-, old⟩
    · exact absurd due (not_le_of_gt later)
    · exact old
  · rintro state ⟨tracked, bounded⟩
    refine ⟨tracked.schedule, bounded.fewer fun consumerId consumer found => ?_⟩
    rw [consumers_scheduleLease] at found
    exact ⟨consumer, found, rfl, fun _ _ held _ => held⟩

/-- A retry fails only if its deadline does not fit. -/
theorem retryDelivery_sweeping (deadline : LeaseDeadline) (lease : InFlight)
    (fits : strict → now + retryDelay record lease ≤ u64Max) :
    (retryDelivery now record deadline lease).Triple (Sweeping strict now bound)
      (fun _ => Sweeping strict now bound) fun _ state => state.Tracked [] ∧ ¬ strict := by
  unfold retryDelivery
  split
  · exact .change fun _ sweeping => sweeping.requeue deadline lease
  · rename_i delayed
    split
    · rename_i overflows
      exact .await fun _ sweeping => ⟨sweeping.1, fun asked => absurd (fits asked) (by omega)⟩
    · exact postpone_sweeping (Nat.lt_add_of_pos_right (Nat.pos_of_ne_zero delayed))

/-- Giving up a message does not fail. -/
theorem finishDelivery_sweeping (deadline : LeaseDeadline) (lease : InFlight) :
    (finishDelivery record deadline lease).Triple (Sweeping strict now bound)
      (fun _ => Sweeping strict now bound) fails := by
  have appends (written : WalRecord) : (append written).Triple (Sweeping strict now bound)
      (fun _ => Sweeping strict now bound) fails :=
    append_framed written fun _ _ bounded => bounded
  refine .read_bind fun message => .strengthen (.bind ?_ fun _ => (appends _).bind fun _ =>
    .read_bind fun cursors => .change_bind (Sweeping strict now bound) (fun _ held => ?_) ?_)
      fun _ held => held.1
  · unfold keepDeadLetter
    split
    · exact (appends _).bind fun _ => .change fun _ sweeping =>
        ⟨sweeping.1.frame rfl rfl rfl, sweeping.2⟩
    · exact .pure fun _ sweeping => sweeping
  · exact held.1.modifyConsumer (settle_record cursors) (settle_inFlight cursors)
  · split
    · exact appends _
    · exact .pure fun _ sweeping => sweeping

theorem expireLease_sweeping (deadline : LeaseDeadline) (lease : InFlight)
    (fits : strict → now + retryDelay record lease ≤ u64Max) :
    (expireLease now record deadline lease).Triple (Sweeping strict now bound)
      (fun _ => Sweeping strict now bound) fun _ state => state.Tracked [] ∧ ¬ strict := by
  unfold expireLease
  split
  · exact finishDelivery_sweeping record deadline lease
  · exact retryDelivery_sweeping record deadline lease fits

/-! ### A sweep -/

/-- What is not stale is about a lease. -/
theorem lease?_of_not_stale (live : state.stale deadline = false) :
    ∃ lease, state.lease? deadline.consumerId deadline.seq = some lease ∧
      deadline = .ofLease deadline.consumerId deadline.seq lease := by
  simp only [stale, Bool.not_eq_false', Option.any_eq_true, decide_eq_true_eq] at live
  obtain ⟨lease, held, sameId, sameMs⟩ := live
  exact ⟨lease, held, by simp only [LeaseDeadline.ofLease, sameId, sameMs]⟩

theorem takeLease_eq (held : state.lease? deadline.consumerId deadline.seq = some lease) :
    ∃ consumer, state.consumers.get? deadline.consumerId = some consumer ∧
      consumer.inFlight.get? deadline.seq = some lease ∧ state.takeLease deadline =
      (state.modifyConsumer deadline.consumerId fun consumer =>
        { consumer with inFlight := consumer.inFlight.erase deadline.seq },
        some (consumer.record, lease)) := by
  obtain ⟨consumer, found, leased⟩ := lease?_eq_some.mp held
  exact ⟨consumer, found, leased, by simp only [takeLease, found, leased]⟩

/-- The leases that stay when one is taken. -/
theorem lease?_of_taken
    (held : (state.modifyConsumer deadline.consumerId fun consumer =>
      { consumer with inFlight := consumer.inFlight.erase deadline.seq }).lease? consumerId seq =
        some lease) :
    state.lease? consumerId seq = some lease ∧
      (consumerId, seq) ≠ (deadline.consumerId, deadline.seq) := by
  obtain ⟨consumer, found, leased⟩ := (lease?_modifyConsumer _ _).mp held
  split at leased
  · obtain ⟨different, kept⟩ := OrderedMap.get?_erase_eq_some.mp leased
    exact ⟨lease?_eq_some.mpr ⟨consumer, found, kept⟩, by simp [different]⟩
  · rename_i other
    exact ⟨lease?_eq_some.mpr ⟨consumer, found, leased⟩, by simp [other]⟩

section

variable (sweeping : state.Sweeping strict now bound)

include sweeping

/-- Taking the lease at the front, with its entry. -/
theorem Sweeping.take
    (front : state.leaseDeadlines.peek? = some deadline) (live : state.stale deadline = false)
    (due : deadline.deadlineMs ≤ now) :
    let popped := { state with leaseDeadlines := state.leaseDeadlines.pop }
    ∃ taken, (popped.takeLease deadline).2 = some taken ∧
      (strict → now + retryDelay taken.1 taken.2 ≤ u64Max) ∧
      (popped.takeLease deadline).1.Sweeping strict now (bound - 1) := by
  intro popped
  obtain ⟨lease, held, entry⟩ := lease?_of_not_stale live
  have stillHeld : popped.lease? deadline.consumerId deadline.seq = some lease := held
  obtain ⟨consumer, found, leased, taken⟩ := takeLease_eq stillHeld
  have leaseDue : lease.deadlineMs ≤ now := by rw [entry] at due; exact due
  rw [taken]
  refine ⟨_, rfl, fun asked => sweeping.2.2 asked _ (OrderedMap.mem_entries.mpr found) _
    (OrderedMap.mem_entries.mpr leased) leaseDue, ⟨sweeping.1.working, ?_⟩, ?_, fun asked => ?_⟩
  · intro consumerId seq other leased
    obtain ⟨known, different⟩ := lease?_of_taken leased
    have queued := (sweeping.1.covers consumerId seq other known).resolve_right not_mem_nil
    refine .inl (PriorityQueue.mem_pop_of_ne front queued ?_)
    rintro rfl
    exact different rfl
  · have member : (deadline.consumerId, deadline.seq) ∈ state.dueLeases now :=
      mem_dueLeases.mpr ⟨lease, held, leaseDue⟩
    calc _ ≤ ((state.dueLeases now).erase (deadline.consumerId, deadline.seq)).card := by
            apply Finset.card_le_card
            rintro ⟨consumerId, seq⟩ remaining
            obtain ⟨other, leased, otherDue⟩ := mem_dueLeases.mp remaining
            obtain ⟨known, different⟩ := lease?_of_taken leased
            exact Finset.mem_erase.mpr ⟨different, mem_dueLeases.mpr ⟨other, known, otherDue⟩⟩
      _ = (state.dueLeases now).card - 1 := Finset.card_erase_of_mem member
      _ ≤ bound - 1 := Nat.sub_le_sub_right sweeping.2.1 1
  · apply Fewer.retriesFit _ (show popped.RetriesFit now from sweeping.2.2 asked)
    exact fewer_modifyConsumer (fun _ => rfl) fun _ _ _ leased _ =>
      (OrderedMap.get?_erase_eq_some.mp leased).2

theorem Sweeping.discard :
    state.discardStaleDeadlines.Sweeping strict now bound :=
  ⟨sweeping.1.discard, sweeping.2⟩

/-- No lease is due before the entry at the front. -/
theorem Sweeping.finished (done : ∀ deadline,
    state.leaseDeadlines.peek? = some deadline → now < deadline.deadlineMs) (rest : ℕ) :
    state.Sweeping strict now rest := by
  refine ⟨sweeping.1, ?_, sweeping.2.2⟩
  have none : state.dueLeases now = ∅ := by
    apply Finset.eq_empty_of_forall_notMem
    rintro ⟨consumerId, seq⟩ member
    obtain ⟨lease, held, due⟩ := mem_dueLeases.mp member
    have queued := (sweeping.1.covers consumerId seq lease held).resolve_right not_mem_nil
    cases front : state.leaseDeadlines.peek? with
    | none => exact PriorityQueue.peek?_eq_none front queued
    | some deadline =>
      have early := LeaseDeadline.deadlineMs_le (PriorityQueue.peek?_le front queued)
      exact absurd (le_trans early due) (not_le_of_gt (done deadline front))
  rw [none]
  exact Nat.zero_le _

end

/-- A sweep leaves as many due leases fewer as its limit says, and does not fail if the
retries fit. -/
theorem expireDueLeases_sweeping (strict : Prop) (now limit bound : ℕ) :
    (expireDueLeases now limit).Triple (Sweeping strict now bound)
      (fun _ => Sweeping strict now (bound - limit)) fun _ state =>
        state.Tracked [] ∧ ¬ strict := by
  induction limit generalizing bound with
  | zero => exact .pure fun _ sweeping => sweeping
  | succ limit ih =>
    refine .change_bind (fun state => state.Sweeping strict now bound ∧ ∀ deadline,
      state.leaseDeadlines.peek? = some deadline → state.stale deadline = false) ?_ ?_
    · exact fun state sweeping => ⟨sweeping.discard, fun _ top => PriorityQueue.peek?_discard top⟩
    refine .read_bind fun next => ?_
    cases next with
    | none =>
      refine .pure fun state held => held.1.1.finished ?_ _
      intro deadline front
      rw [held.2] at front
      cases front
    | some deadline =>
      dsimp only
      split
      · refine .pure fun state held => held.1.1.finished ?_ _
        intro front top
        rw [held.2] at top
        rwa [← Option.some.inj top]
      · rename_i due
        refine .change_bind (fun state => ∃ taken, (state.takeLease deadline).2 = some taken ∧
          (strict → now + retryDelay taken.1 taken.2 ≤ u64Max) ∧
          (state.takeLease deadline).1.Sweeping strict now (bound - 1)) ?_ ?_
        · rintro state ⟨⟨sweeping, live⟩, front⟩
          exact sweeping.take front (live deadline front) (not_lt.mp due)
        refine .answer_bind (fun answer state => ∃ taken, answer = some taken ∧
          (strict → now + retryDelay taken.1 taken.2 ≤ u64Max) ∧
          state.Sweeping strict now (bound - 1)) (fun _ held => held) fun answer => ?_
        cases answer with
        | none =>
          rintro state ⟨taken, impossible, -⟩
          cases impossible
        | some taken =>
          by_cases fits : strict → now + retryDelay taken.1 taken.2 ≤ u64Max
          · refine .strengthen ?_ fun _ held => held.choose_spec.2.2
            refine (expireLease_sweeping taken.1 deadline taken.2 fits).bind fun _ => ?_
            have rest := ih (bound - 1)
            rw [Nat.sub_sub, Nat.add_comm 1 limit] at rest
            exact rest.bind fun _ => .pure fun _ sweeping => sweeping
          · rintro state ⟨_, told, possible, -⟩
            obtain rfl := Option.some.inj told
            exact absurd possible fits

/-! ### Whole runs -/

theorem keeps_expireDueLeases (now limit : ℕ) : (expireDueLeases now limit).Keeps (Tracked []) := by
  intro state tracked
  have swept := expireDueLeases_sweeping False now limit _ state ⟨tracked, le_refl _, False.elim⟩
  split at swept
  · rename_i ended
    rw [ended]
    exact swept.1
  · rename_i ended
    rw [ended]
    exact swept.1

/-- Whatever the broker does, no lease loses its entry. -/
theorem tracked_invariant : DeliveryRun.BrokerInvariant (Tracked []) where
  publish := keeps_publishRecord
  push _ connections :=
    tracked_calm.deliverNext fun _ _ => (leasePush_tracked connections _ _).keeps
  fetch fetch world _ tracked := tracked.advance fetch world
  updateLease _ seq deliveryId deadlineMs :=
    (updatePullLease_tracked seq deliveryId deadlineMs).keeps
  ack _ := keeps_ackInner
  nextDeadline _ tracked := tracked.discard
  expire := keeps_expireDueLeases
  upsert record selected _ tracked := tracked.upsertConsumer record selected
  create := keeps_createPullConsumer
  delete := keeps_deletePullConsumer
  sync messages consumers _ tracked := tracked.syncDurableState messages consumers
  purge := keeps_purgeDeadLetter
  replay := keeps_replayDeadLetter

/-- A broker as it is opened: the queue is made from its leases. The journal takes
every write. -/
structure Opened (state : DurableBrokerState) : Prop where
  working : state.wal.outcomes = []
  queue : state.leaseDeadlines = .ofList state.liveDeadlines

theorem Opened.tracked (opened : state.Opened) : state.Tracked [] where
  working := opened.working
  covers := covers_of_live fun _ live => by
    rw [opened.queue]
    exact .inl (PriorityQueue.mem_ofList.mpr live)

/-- No lease is forgotten. The states in which a sweep may start are a parameter. -/
structure NoLeaseForgotten (admitted : ℕ → DurableBrokerState → Prop)
    (state : DurableBrokerState) : Prop where
  /-- Every lease has an entry with its consumer, message, delivery and deadline. -/
  queued : ∀ consumerId seq lease, state.lease? consumerId seq = some lease →
    ⟨lease.deadlineMs, consumerId, seq, lease.deliveryId⟩ ∈ state.leaseDeadlines
  /-- A sweep with a limit that is large enough leaves no lease that is due. -/
  swept : ∀ now limit, (state.dueLeases now).card ≤ limit → admitted now state →
    ∀ consumerId seq lease,
      (expireDueLeases now limit state).1.lease? consumerId seq = some lease →
        now < lease.deadlineMs
  /-- The next sweep is not later than any deadline. -/
  early : ∀ consumerId seq lease, state.lease? consumerId seq = some lease →
    ∃ next, state.nextLeaseDeadline.2 = some next ∧ next ≤ lease.deadlineMs

theorem Tracked.swept (tracked : state.Tracked []) {limit : ℕ}
    (enough : (state.dueLeases now).card ≤ limit) (fits : state.RetriesFit now)
    (held : (expireDueLeases now limit state).1.lease? consumerId seq = some lease) :
    now < lease.deadlineMs := by
  have swept := expireDueLeases_sweeping True now limit _ state ⟨tracked, enough, fun _ => fits⟩
  split at swept
  · rename_i ended
    rw [ended] at held
    by_contra overdue
    have member := mem_dueLeases.mpr ⟨lease, held, not_lt.mp overdue⟩
    have few := swept.2.1
    rw [Nat.sub_self, Nat.le_zero, Finset.card_eq_zero] at few
    rw [few] at member
    exact Finset.notMem_empty _ member
  · exact absurd trivial swept.2

theorem Tracked.early (tracked : state.Tracked [])
    (held : state.lease? consumerId seq = some lease) :
    ∃ next, state.nextLeaseDeadline.2 = some next ∧ next ≤ lease.deadlineMs := by
  have queued := (tracked.discard.covers consumerId seq lease held).resolve_right not_mem_nil
  cases front : state.discardStaleDeadlines.leaseDeadlines.peek? with
  | none => exact absurd queued (PriorityQueue.peek?_eq_none front)
  | some deadline =>
    have first := LeaseDeadline.deadlineMs_le (PriorityQueue.peek?_le front queued)
    simp only [nextLeaseDeadline, front, Option.map_some]
    cases state.discardStaleDeadlines.scheduledDeliveries.peek? with
    | none => exact ⟨_, rfl, first⟩
    | some scheduled => exact ⟨_, rfl, le_trans (min_le_left _ _) first⟩

/-- In every run of a broker whose journal works, every lease has its entry, the next
sweep is early enough, and a sweep leaves no due lease unless the retry deadline of one
of them would not fit. -/
theorem no_lease_forgotten (start last : DeliveryRun) (opened : start.broker.Opened)
    (run : Reaches DeliveryRun.next (fun _ _ => True) start last) :
    last.broker.NoLeaseForgotten RetriesFit := by
  have tracked : last.broker.Tracked [] :=
    run.invariant (fun run => run.broker.Tracked [])
      (fun _ action _ held => tracked_invariant.next held action) opened.tracked
  constructor
  · intro consumerId seq lease held
    exact (tracked.covers consumerId seq lease held).resolve_right not_mem_nil
  · intro now limit enough fits consumerId seq lease held
    exact tracked.swept enough fits held
  · intro consumerId seq lease held
    exact tracked.early held

/-- A broker with one consumer that holds two leases. -/
def twoLeases (policy : RetryPolicy) : DurableBrokerState :=
  let record : ConsumerRecord := ⟨"c", "orders.*", none, 30000, 16, .earliest, policy⟩
  let consumer := { Consumer.fresh record .default with
    inFlight := .ofList [(0, ⟨7, 1, 1, false⟩), (1, ⟨8, 2, 1, false⟩)] }
  let known := { empty with consumers := .ofList [("c", consumer)] }
  { known with leaseDeadlines := .ofList known.liveDeadlines }

/-- A sweep takes the first lease, and the next one the second: then none is due. -/
theorem no_lease_forgotten_two :
    let last := (⟨twoLeases .default, ∅⟩ : DeliveryRun).next (.expire 1 1)
    last.broker.dueLeases 2 = {("c", 1)} ∧ ∀ consumerId seq lease,
      (expireDueLeases 2 1 last.broker).1.lease? consumerId seq = some lease →
        2 < lease.deadlineMs := by
  intro last
  have kept := no_lease_forgotten ⟨twoLeases .default, ∅⟩ last ⟨rfl, rfl⟩
    (.step (.expire 1 1) trivial (.refl _))
  exact ⟨by decide +kernel, kept.swept 2 1 (by decide +kernel) (by decide +kernel)⟩

/-- A retry that would be due after the end of time ends the sweep before the second
lease. -/
theorem overflowing_retry_ends_sweep :
    ¬ ∀ start last : DeliveryRun, start.broker.Opened →
      Reaches DeliveryRun.next (fun _ _ => True) start last →
        last.broker.NoLeaseForgotten fun _ _ => True := by
  intro unforgotten
  let policy : RetryPolicy := { RetryPolicy.default with
    initialDelayMs := u64Max, maxDelayMs := u64Max }
  have due : ∃ lease, (expireDueLeases 2 2 (twoLeases policy)).1.lease? "c" 1 = some lease ∧
      lease.deadlineMs ≤ 2 := ⟨⟨8, 2, 1, false⟩, by decide +kernel, by decide⟩
  obtain ⟨lease, held, overdue⟩ := due
  have opened : (twoLeases policy).Opened := ⟨rfl, rfl⟩
  have swept := (unforgotten ⟨twoLeases policy, ∅⟩ _ opened (.refl _)).swept 2 2
    (by decide +kernel) trivial "c" 1 lease held
  omega

end DurableBrokerState

end Morrow
