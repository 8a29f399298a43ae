import Morrow.DeliveryRuns

/-!
# What consumers hold

A consumer holds leases and reservations. Most calls leave them alone. A push adds a
lease; a fetch adds reservations, gives them back, or turns them into leases; an
acknowledgement takes a lease away; a sweep takes leases away and may put them back.
-/

namespace Morrow

open Procedure OrderedMap List Option Except

/-- The leases and reservations of a consumer, and the record that limits them. -/
structure Holding where
  record : ConsumerRecord
  inFlight : OrderedMap ℕ InFlight
  preparing : Finset ℕ

def Consumer.holding (consumer : Consumer) : Holding :=
  ⟨consumer.record, consumer.inFlight, consumer.preparing⟩

namespace Holding

variable (seq : ℕ)

def lend (lease : InFlight) (holding : Holding) : Holding :=
  { holding with inFlight := holding.inFlight.insert seq lease }

variable (holding : Holding)

def giveBack : Holding :=
  { holding with inFlight := holding.inFlight.erase seq }

def reserve : Holding :=
  { holding with preparing := insert seq holding.preparing }

def release : Holding :=
  { holding with preparing := holding.preparing.erase seq }

end Holding

/-- What every consumer holds. -/
def Holdings := String → Option Holding

namespace Holdings

variable (holdings : Holdings)

/-- Change what one consumer holds. -/
def alter (changed : String) (update : Holding → Holding) : Holdings :=
  fun consumerId => if consumerId = changed then (holdings changed).map update
    else holdings consumerId

/-- Forget a consumer. -/
def forget (removed : String) : Holdings :=
  fun consumerId => if consumerId = removed then none else holdings consumerId

theorem alter_alter (changed : String) (first second : Holding → Holding) :
    (holdings.alter changed first).alter changed second =
      holdings.alter changed (second ∘ first) := by
  funext consumerId
  simp only [alter, if_true, Option.map_map]
  split <;> rfl

/-- Only what the consumer holds matters. -/
theorem alter_congr {holdings : Holdings} {changed : String} {holding : Holding}
    {first second : Holding → Holding} (known : holdings changed = some holding)
    (same : first holding = second holding) :
    holdings.alter changed first = holdings.alter changed second := by
  funext consumerId
  simp only [alter, known, map_some, same]

theorem alter_eq_self {holdings : Holdings} {changed : String} {holding : Holding}
    {update : Holding → Holding} (known : holdings changed = some holding)
    (same : update holding = holding) : holdings.alter changed update = holdings := by
  funext consumerId
  simp only [alter, known, map_some, same]
  split
  · rename_i own
    rw [own, known]
  · rfl

end Holdings

namespace DurableBrokerState

def holdings (state : DurableBrokerState) : Holdings := fun consumerId =>
  (state.consumers.get? consumerId).map Consumer.holding

variable {state : DurableBrokerState} {consumerId : String} {consumer : Consumer}

theorem holdings_of_get? (found : state.consumers.get? consumerId = some consumer) :
    state.holdings consumerId = some consumer.holding := by
  rw [holdings, found, map_some]

variable {update : Consumer → Consumer}

theorem holdings_modifyConsumer (changed : String) {effect : Holding → Holding}
    (acts : ∀ consumer, state.consumers.get? changed = some consumer →
      (update consumer).holding = effect consumer.holding) :
    (state.modifyConsumer changed update).holdings = state.holdings.alter changed effect := by
  funext consumerId
  simp only [holdings, modifyConsumer, get?_modify, Holdings.alter]
  split
  · rename_i same
    subst same
    cases found : state.consumers.get? consumerId with
    | none => rfl
    | some consumer => simp only [map_some, acts consumer found]
  · rfl

theorem holdings_of_same (changed : String)
    (same : ∀ consumer, (update consumer).holding = consumer.holding) :
    (state.modifyConsumer changed update).holdings = state.holdings := by
  have unchanged : ∀ consumer, state.consumers.get? changed = some consumer →
      (update consumer).holding = id consumer.holding := fun consumer _ => same consumer
  rw [holdings_modifyConsumer changed unchanged]
  funext consumerId
  simp only [Holdings.alter, Option.map_id_fun, id_eq]
  split
  · rename_i own
    rw [own]
  · rfl

end DurableBrokerState

namespace Holdings

open DurableBrokerState

variable {given : Holdings} {consumerId : String} {seq : ℕ}

/-! ### Calls that leave everything alone -/

theorem calm : Calm (·.holdings = given) where
  append _ := keeps_write (fun _ _ held => held) _
  flushDue := keeps_write (fun _ _ held => held) id
  cursors _ _ _ held := Eq.trans (holdings_of_same _ fun _ => by rfl) held

theorem keeps_publishRecord (record : PublishRecord) :
    (publishRecord record).Keeps (·.holdings = given) := by
  refine .bind (calm.append _) fun _ => .change fun state held => ?_
  rw [← held]
  funext consumerId
  simp only [holdings, showRecord, markSubjectReady, observePublishedRecord,
    get?_mapValues, Option.map_map]
  rfl

variable (state : DurableBrokerState)

theorem search_holdings (consumer : Consumer) (logs : PartitionLogSet) (excluded : ℕ → Bool) :
    (state.search consumerId consumer logs excluded).1.holdings = state.holdings :=
  holdings_of_same _ fun _ => rfl

theorem keeps_appendDeliveryAttempt (deadlineMs attempt : ℕ) :
    (appendDeliveryAttempt seq consumerId deadlineMs attempt).Keeps (·.holdings = given) := by
  refine .bind (.read _) fun deliveryId => ?_
  refine .bind (.change fun _ held => held) fun _ => ?_
  exact .bind (calm.append _) fun _ => .pure _

theorem scheduleLease_holdings (record : DeliveryAttemptRecord) :
    (state.scheduleLease consumerId seq record).holdings = state.holdings := by
  simp only [scheduleLease, compactStaleDeadlines]
  split
  · rfl
  · split <;> rfl

/-! ### Push -/

/-- The consumer holds fewer leases than its limit. -/
def Below (given : Holdings) (consumerId : String) : Prop :=
  ∃ holding, given consumerId = some holding ∧
    holding.inFlight.entries.length < holding.record.maxInFlight

variable (connections : Finset ℕ)

theorem nextDeliveryFor_holdings (world : DeliveryWorld) :
    (nextDeliveryFor consumerId connections world).Triple (·.holdings = given)
      (fun found state => state.holdings = given ∧ (found.isSome → given.Below consumerId))
      (fun _ state => state.holdings = given) := by
  refine .read_bind fun found => ?_
  split
  · exact .pure fun _ held => ⟨held.1, fun impossible => by cases impossible⟩
  · rename_i consumer
    split
    · exact .pure fun _ held => ⟨held.1, fun impossible => by cases impossible⟩
    · rename_i allowed
      have room : consumer.inFlight.entries.length < consumer.record.maxInFlight := by
        by_contra full
        exact allowed (.inl (not_lt.mp full))
      refine .answer_bind (fun _ state => state.holdings = given ∧ given.Below consumerId) ?_
        fun seq => ?_
      · rintro state ⟨held, found⟩
        refine ⟨(search_holdings state consumer _ _).trans held, consumer.holding, ?_, room⟩
        rw [← held]
        exact holdings_of_get? found
      refine .read_bind fun metadata => ?_
      split
      · split
        · exact .pure fun _ held => ⟨held.1.1, fun _ => held.1.2⟩
        · refine .await_bind (fun _ _ _ held => held.1.1) fun message _ => ?_
          split <;> exact .pure fun _ held => ⟨held.1.1, fun _ => held.1.2⟩
      · exact .pure fun _ held => ⟨held.1.1, fun _ => held.1.2⟩

/-- A push changes nothing, or adds a lease for a consumer below its limit. -/
def Pushed (given : Holdings) (consumerId : String) (state : DurableBrokerState) : Prop :=
  state.holdings = given ∨ given.Below consumerId ∧ ∃ seq lease,
    state.holdings = given.alter consumerId (·.lend seq lease)

theorem leasePush_holdings (below : given.Below consumerId) (connections : Finset ℕ)
    (push : PushDelivery) (payloadBytes : ℕ) :
    (leasePush consumerId connections push payloadBytes).Triple (·.holdings = given)
      (fun _ => Pushed given consumerId) fun _ => Pushed given consumerId := by
  refine (Triple.of_keeps (keeps_appendDeliveryAttempt _ _) fun _ _ => .inl).bind
    fun delivery => ?_
  have lent : ∀ state : DurableBrokerState,
      state.holdings = given.alter consumerId (·.lend push.seq (.ofRecord delivery)) →
        Pushed given consumerId state := fun state held => .inr ⟨below, _, _, held⟩
  refine .change_bind (·.holdings = given.alter consumerId (·.lend push.seq (.ofRecord delivery)))
    ?_ ?_
  · intro state held
    rw [← held]
    exact holdings_modifyConsumer consumerId fun _ _ => rfl
  refine (Triple.of_keeps calm.journalCursors fun _ => lent).bind fun _ => ?_
  refine .change_bind (·.holdings = given.alter consumerId (·.lend push.seq (.ofRecord delivery)))
    (fun state held => (scheduleLease_holdings state delivery).trans held) ?_
  split
  · refine .change fun state held => lent _ ?_
    refine (holdings_of_same consumerId fun consumer => ?_).trans held
    split <;> rfl
  · exact .pure lent

theorem deliverNext_holdings (world : DeliveryWorld) :
    (deliverNext consumerId connections world).Triple (·.holdings = given)
      (fun _ => Pushed given consumerId) fun _ => Pushed given consumerId := by
  refine ((nextDeliveryFor_holdings connections world).loosen fun _ _ => .inl).bind
    fun found => ?_
  split
  · exact .pure fun _ held => .inl held.1
  · refine .await_bind (fun _ _ _ held => .inl held.1) fun outcome _ => ?_
    refine .await_bind (fun _ _ _ held => .inl held.1) fun _ _ => ?_
    split
    · exact .await fun _ held => .inl held.1
    · refine .strengthen ?_ fun _ held => held.1
      refine (Triple.of_keeps (calm.acknowledgeFilteredDelivery _) fun _ _ => .inl).bind
        fun _ => .pure fun _ => .inl
    · refine .of_fact fun below => ?_
      exact (leasePush_holdings (below rfl) connections _ _).bind fun _ => .pure fun _ done => done

/-! ### Fetch -/

/-- Why a fetch reserves a message: its lease is due, and no lease before it is, or
no lease is due and the consumer is below its limit. -/
inductive Reserves (state : DurableBrokerState) (consumer : Consumer) (now : ℕ)
    (partitions : Option (Finset ℕ)) (seq : ℕ) : Prop
  | due (lease : InFlight) (first : state.dueLease consumer now partitions = some (seq, lease))
  | fresh (none : state.dueLease consumer now partitions = none)
      (room : consumer.inFlight.entries.length < consumer.record.maxInFlight)
      (free : state.unavailable consumer partitions seq = false)

theorem nextIndexedCandidate_free {cursors : ConsumerCursorSet}
    {messages : OrderedMap ℕ PublishRecord} {sequences : OrderedMap Position ℕ}
    {matching : String → ℕ → List ℕ} {isLeased : ℕ → Bool}
    (hit : (cursors.nextIndexedCandidate messages sequences matching isLeased).2 = some seq) :
    isLeased seq = false := by
  obtain ⟨⟨found, place⟩, chosen, rfl⟩ := map_eq_some_iff.mp hit
  obtain ⟨first, hits, paired⟩ := mem_filterMap.mp (argmin_mem chosen)
  obtain ⟨record, -, same⟩ := map_eq_some_iff.mp paired
  obtain ⟨rfl, -⟩ := Prod.mk.inj same
  obtain ⟨cursor, member, search⟩ := mem_filterMap.mp hits
  obtain ⟨frontier, known, inFrontier⟩ := bind_eq_some_iff.mp search
  obtain ⟨offset, listed, test⟩ := exists_of_findSome?_eq_some inFrontier
  unfold ConsumerCursorSet.atOffset at test
  split at test
  · cases test
  · have free := (filter_eq_some_iff.mp test).2
    simpa using free

variable {state : DurableBrokerState} {consumer : Consumer}

theorem search_free {logs : PartitionLogSet} {excluded : ℕ → Bool}
    (found : (state.search consumerId consumer logs excluded).2 = some seq) :
    excluded seq = false := by
  rcases or_eq_some_iff.mp found with indexed | ⟨-, pending⟩
  · exact nextIndexedCandidate_free indexed
  · have member := leastOf_mem pending
    exact (Finset.mem_filter.mp member).2

theorem nextPullCandidate_holdings (state : DurableBrokerState) (logs : PartitionLogSet) (now : ℕ)
    (partitions : Option (Finset ℕ)) :
    (state.nextPullCandidate consumerId logs now partitions).1.holdings = state.holdings := by
  simp only [nextPullCandidate]
  split
  · rfl
  · split
    · rfl
    · split
      · rfl
      · exact search_holdings _ _ _ _

theorem nextPullCandidate_reserves {logs : PartitionLogSet} {now : ℕ}
    {partitions : Option (Finset ℕ)} {attempt deadline : ℕ}
    (found : (state.nextPullCandidate consumerId logs now partitions).2 =
      some (seq, attempt, deadline)) :
    ∃ consumer, state.consumers.get? consumerId = some consumer ∧
      Reserves state consumer now partitions seq := by
  simp only [nextPullCandidate] at found
  split at found
  · cases found
  · rename_i consumer known
    refine ⟨consumer, known, ?_⟩
    split at found
    · rename_i due lease first
      obtain ⟨_, _, same⟩ := map_eq_some_iff.mp found
      obtain ⟨rfl, -⟩ := Prod.mk.inj same
      exact .due lease first
    · rename_i nothing
      split at found
      · cases found
      · rename_i room
        obtain ⟨first, searched, rest⟩ := bind_eq_some_iff.mp found
        split at rest
        · cases rest
        · obtain ⟨_, _, same⟩ := bind_eq_some_iff.mp rest
          obtain ⟨rfl, -⟩ := Prod.mk.inj (some.inj same)
          exact .fresh nothing (not_le.mp room) (search_free searched)

variable {state after : DurableBrokerState} {logs : PartitionLogSet} {now : ℕ}
  {partitions : Option (Finset ℕ)}

theorem reservePullCandidate_none
    (nothing : state.reservePullCandidate consumerId logs now partitions = (after, none)) :
    after.holdings = state.holdings := by
  have looked : (state.nextPullCandidate consumerId logs now partitions).1.holdings =
      state.holdings := nextPullCandidate_holdings state logs now partitions
  simp only [reservePullCandidate] at nothing
  split at nothing
  · rwa [(Prod.mk.inj nothing).1] at looked
  · split at nothing
    · rwa [(Prod.mk.inj nothing).1] at looked
    · split at nothing
      · rwa [(Prod.mk.inj nothing).1] at looked
      · cases (Prod.mk.inj nothing).2

theorem reservePullCandidate_some {candidate : Candidate}
    (found : state.reservePullCandidate consumerId logs now partitions = (after, some candidate)) :
    after.holdings = state.holdings.alter consumerId (·.reserve candidate.seq) ∧
      ∃ consumer, state.consumers.get? consumerId = some consumer ∧
        Reserves state consumer now partitions candidate.seq := by
  have looked : (state.nextPullCandidate consumerId logs now partitions).1.holdings =
      state.holdings := nextPullCandidate_holdings state logs now partitions
  simp only [reservePullCandidate] at found
  split at found
  · cases (Prod.mk.inj found).2
  · rename_i seq attempt deadline chosen
    split at found
    · cases (Prod.mk.inj found).2
    · split at found
      · cases (Prod.mk.inj found).2
      · obtain ⟨rfl, same⟩ := Prod.mk.inj found
        obtain rfl := some.inj same
        refine ⟨?_, nextPullCandidate_reserves chosen⟩
        rw [← looked]
        exact holdings_modifyConsumer consumerId fun _ _ => rfl

/-! ### Commit -/

/-- The messages of reservations. -/
def seqs (prepared : List Candidate) : Finset ℕ := (prepared.map (·.seq)).toFinset

theorem seqs_cons (candidate : Candidate) (candidates : List Candidate) :
    seqs (candidate :: candidates) = insert candidate.seq (seqs candidates) := by
  simp [seqs]

/-- However far it comes, taking reservations takes reservations only. -/
theorem takeReservations_holding (consumerId : String) (prepared : List Candidate)
    (consumer : Consumer) :
    ∃ kept ⊆ consumer.preparing, (takeReservations consumerId prepared consumer).1.holding =
      { consumer.holding with preparing := kept } := by
  induction prepared generalizing consumer with
  | nil => exact ⟨_, subset_rfl, rfl⟩
  | cons candidate candidates ih =>
    simp only [takeReservations]
    split
    · obtain ⟨kept, fewer, same⟩ := ih (takeReservation candidate consumer)
      exact ⟨kept, fewer.trans (Finset.erase_subset _ _), same⟩
    · exact ⟨_, subset_rfl, rfl⟩

variable {prepared : List Candidate}

/-- What was taken had been reserved, each message once. -/
theorem takeReservations_ok {entries : List DeliveryBatchEntry}
    (taken : (takeReservations consumerId prepared consumer).2 = .ok entries) :
    (takeReservations consumerId prepared consumer).1.holding =
        { consumer.holding with preparing := consumer.preparing \ seqs prepared } ∧
      entries.map (·.seq) = prepared.map (·.seq) ∧ seqs prepared ⊆ consumer.preparing := by
  induction prepared generalizing consumer entries with
  | nil =>
    obtain rfl := ok.inj taken
    simp [takeReservations, seqs, Consumer.holding]
  | cons candidate candidates ih =>
    simp only [takeReservations] at taken ⊢
    split at taken
    · rename_i reserved
      rw [if_pos reserved]
      cases rest : (takeReservations consumerId candidates
          (takeReservation candidate consumer)).2 with
      | error failure =>
        rw [rest] at taken
        cases taken
      | ok others =>
        rw [rest] at taken
        obtain rfl := ok.inj taken
        obtain ⟨same, mapped, inside⟩ := ih rest
        refine ⟨?_, by rw [map_cons, map_cons, mapped], ?_⟩
        · rw [same, seqs_cons, Finset.sdiff_insert, ← Finset.erase_sdiff_comm]
          rfl
        · rw [seqs_cons]
          apply Finset.insert_subset reserved
          exact inside.trans (Finset.erase_subset _ _)
    · cases taken

theorem takeReservations_error {failure : Failure}
    (failed : (takeReservations consumerId prepared consumer).2 = .error failure) :
    failure = .error "pull candidate is not reserved" := by
  induction prepared generalizing consumer with
  | nil => cases failed
  | cons candidate candidates ih =>
    simp only [takeReservations] at failed
    split at failed
    · cases rest : (takeReservations consumerId candidates
          (takeReservation candidate consumer)).2 with
      | ok entries =>
        rw [rest] at failed
        cases failed
      | error other =>
        rw [rest] at failed
        exact ih (rest.trans (congrArg error (error.inj failed)))
    · exact (error.inj failed).symm

/-- Distinct messages that are reserved can all be taken. -/
theorem takeReservations_reserved (consumerId : String) (consumer : Consumer)
    (distinct : (prepared.map (·.seq)).Nodup) (reserved : seqs prepared ⊆ consumer.preparing) :
    ∃ entries, (takeReservations consumerId prepared consumer).2 = .ok entries := by
  induction prepared generalizing consumer with
  | nil => exact ⟨[], rfl⟩
  | cons candidate candidates ih =>
    rw [map_cons, nodup_cons] at distinct
    rw [seqs_cons, Finset.insert_subset_iff] at reserved
    have others : seqs candidates ⊆ (takeReservation candidate consumer).preparing := by
      refine Finset.subset_erase.mpr ⟨reserved.2, ?_⟩
      rw [seqs, List.mem_toFinset]
      exact distinct.1
    obtain ⟨entries, taken⟩ := ih _ distinct.2 others
    simp only [takeReservations, reserved.1, taken]
    exact ⟨_, rfl⟩

/-- What a write leaves behind. -/
theorem append_holdings (record : WalRecord) :
    (append record).Triple (·.holdings = given) (fun _ state => state.holdings = given)
      fun failure state => failure = .error "appending WAL record" ∧ state.holdings = given := by
  intro state held
  simp only [append, write]
  split
  · rename_i changed value done
    split at done
    · obtain ⟨rfl, -⟩ := Prod.mk.inj done
      exact held
    · cases (Prod.mk.inj done).2
  · rename_i changed failure done
    split at done
    · cases (Prod.mk.inj done).2
    · obtain ⟨rfl, same⟩ := Prod.mk.inj done
      exact ⟨(error.inj same).symm, held⟩

theorem appendDeliveryAttempt_holdings (deadlineMs attempt : ℕ) :
    (appendDeliveryAttempt seq consumerId deadlineMs attempt).Triple (·.holdings = given)
      (fun record state => state.holdings = given ∧ record.seq = seq)
      fun failure state => failure = .error "appending WAL record" ∧ state.holdings = given := by
  refine .read_bind fun deliveryId => ?_
  refine .change_bind (·.holdings = given) (fun _ held => held.1) ?_
  exact (append_holdings _).bind fun _ => .pure fun _ held => ⟨held, rfl⟩

theorem appendDeliveryBatch_holdings (entries : List DeliveryBatchEntry) :
    (appendDeliveryBatch entries).Triple (·.holdings = given)
      (fun leases state => state.holdings = given ∧ leases.map (·.seq) = entries.map (·.seq))
      fun failure state => failure = .error "appending WAL record" ∧ state.holdings = given := by
  induction entries with
  | nil => exact .pure fun _ held => ⟨held, rfl⟩
  | cons entry entries ih =>
    refine (appendDeliveryAttempt_holdings _ _).bind fun lease => ?_
    refine .of_fact fun named => ?_
    refine (append_holdings _).bind fun _ => ?_
    refine ih.bind fun leases => .pure fun state held => ⟨held.1, ?_⟩
    rw [map_cons, map_cons, named, held.2]

variable (leases : List DeliveryAttemptRecord)

/-- The consumer holds leases for journaled deliveries. -/
def lendAll (holding : Holding) : Holding :=
  { holding with
    inFlight := leases.foldl (fun inFlight lease => inFlight.insert lease.seq (.ofRecord lease))
      holding.inFlight }

/-- The reservations have become leases. -/
def committed (holding : Holding) : Holding :=
  lendAll leases { holding with
    preparing := holding.preparing \ (leases.map (·.seq)).toFinset }

/-- How a commit fails. -/
inductive CommitFails (given : Holdings) (consumerId : String) (prepared : List Candidate)
    (failure : Failure) (state : DurableBrokerState) : Prop
  | unknown (told : failure = .error "unknown consumer") (absent : given consumerId = none)
      (same : state.holdings = given)
  | refused (wal : failure = .error "appending WAL record") (same : state.holdings = given)
      (holding : Holding) (known : given consumerId = some holding)
      (reserved : seqs prepared ⊆ holding.preparing)
  | unreserved (told : failure = .error "pull candidate is not reserved")
      (holding : Holding) (known : given consumerId = some holding)
      (missing : ¬ ((prepared.map (·.seq)).Nodup ∧ seqs prepared ⊆ holding.preparing))
      (kept : Finset ℕ) (fewer : kept ⊆ holding.preparing)
      (same : state.holdings =
        given.alter consumerId fun holding => { holding with preparing := kept })

/-- What a commit does that succeeds. -/
structure Commits (given : Holdings) (consumerId : String) (prepared : List Candidate)
    (leases : List DeliveryAttemptRecord) (state : DurableBrokerState) : Prop where
  reserved : ∃ holding, given consumerId = some holding ∧ seqs prepared ⊆ holding.preparing
  named : leases.map (·.seq) = prepared.map (·.seq)
  same : state.holdings = given.alter consumerId (committed leases)

theorem journalBatch_holdings (before : Consumer) (prepared : List Candidate)
    (entries : List DeliveryBatchEntry) :
    (journalBatch consumerId before prepared entries).Triple (·.holdings = given)
      (fun leases state => state.holdings = given ∧ leases.map (·.seq) = entries.map (·.seq))
      fun failure state => failure = .error "appending WAL record" ∧ state.holdings =
        given.alter consumerId fun holding =>
          { holding with preparing := holding.preparing ∪ seqs prepared } := by
  intro state held
  have journaled := appendDeliveryBatch_holdings entries state held
  simp only [journalBatch]
  cases appended : appendDeliveryBatch entries state with
  | mk after outcome =>
    rw [appended] at journaled
    cases outcome with
    | ok leases => exact journaled
    | error failure =>
      refine ⟨journaled.1, ?_⟩
      rw [← journaled.2]
      exact holdings_modifyConsumer consumerId fun _ _ => rfl

variable (leases : List DeliveryAttemptRecord)

theorem holding_foldl_lendFetched (consumer : Consumer) :
    (leases.foldl lendFetched consumer).holding = lendAll leases consumer.holding := by
  induction leases generalizing consumer with
  | nil => rfl
  | cons lease leases ih => exact ih _

theorem scheduleLeases_holdings (state : DurableBrokerState) :
    (leases.foldl (fun state lease => state.scheduleLease consumerId lease.seq lease)
      state).holdings = state.holdings := by
  induction leases generalizing state with
  | nil => rfl
  | cons lease leases ih =>
    exact (ih _).trans (scheduleLease_holdings state lease)

theorem commitPullDeliveries_holdings (consumerId : String) (prepared : List Candidate) :
    (commitPullDeliveries consumerId prepared).Triple (·.holdings = given)
      (Commits given consumerId prepared) (CommitFails given consumerId prepared) := by
  refine .read_bind fun found => ?_
  split
  · refine .await fun state held => .unknown rfl ?_ held.1
    rw [← held.1, holdings, held.2, map_none]
  · rename_i consumer
    let taken := takeReservations consumerId prepared consumer
    refine .change_bind (fun state => state.holdings = given.alter consumerId
      (fun holding => { holding with preparing := taken.1.preparing }) ∧
        given consumerId = some consumer.holding) ?_ (.of_fact fun known => ?_)
    · rintro state ⟨held, found⟩
      refine ⟨?_, by rw [← held]; exact holdings_of_get? found⟩
      rw [← held]
      apply holdings_modifyConsumer
      intro other present
      rw [found] at present
      obtain ⟨kept, -, same⟩ := takeReservations_holding consumerId prepared consumer
      rw [← some.inj present]
      rw [same]
      rw [show taken.1.preparing = kept from congrArg Holding.preparing same]
    refine .await_bind ?_ fun entries done => ?_
    · intro failure state failed held
      obtain ⟨kept, fewer, same⟩ := takeReservations_holding consumerId prepared consumer
      refine .unreserved (takeReservations_error failed) consumer.holding known ?_
        taken.1.preparing ?_ held
      · rintro ⟨distinct, reserved⟩
        obtain ⟨entries, done⟩ :=
          takeReservations_reserved consumerId consumer distinct reserved
        rw [done] at failed
        cases failed
      · rw [show taken.1.preparing = kept from congrArg Holding.preparing same]
        exact fewer
    obtain ⟨same, mapped, inside⟩ := takeReservations_ok done
    have preparing : taken.1.preparing = consumer.preparing \ seqs prepared :=
      congrArg Holding.preparing same
    refine ((journalBatch_holdings consumer prepared entries).loosen ?_).bind fun leases => ?_
    · rintro failure state ⟨wal, held⟩
      refine .refused wal ?_ consumer.holding known inside
      rw [held, alter_alter]
      apply alter_eq_self known
      simp only [Function.comp, preparing, Finset.sdiff_union_of_subset inside]
      rfl
    refine .of_fact fun named => ?_
    have sameLength : leases.length = prepared.length := by
      have lengths := congrArg List.length (named.trans mapped)
      rwa [length_map, length_map] at lengths
    refine .await_bind ?_ fun _ _ => ?_
    · intro failure state failed _
      rw [ensure, if_pos sameLength] at failed
      cases failed
    refine .change_bind (·.holdings = given.alter consumerId (committed leases)) ?_ ?_
    · intro state held
      rw [holdings_modifyConsumer consumerId fun consumer _ =>
        holding_foldl_lendFetched leases consumer, held, alter_alter]
      refine alter_congr known ?_
      simp only [committed, preparing, named.trans mapped]
      rfl
    · refine .change_bind (·.holdings = given.alter consumerId (committed leases))
        (fun state held => (scheduleLeases_holdings leases state).trans held) ?_
      exact .pure fun state held =>
        ⟨⟨consumer.holding, known, inside⟩, named.trans mapped, held⟩

theorem handOut_ends (fetch : Fetch) (leases : List DeliveryAttemptRecord)
    (state : DurableBrokerState) :
    ∃ exit, (fetch.handOut leases state).2 = fetch.leave exit ∧
      (∀ failure, exit ≠ .commitFailed failure ∧ exit ≠ .loadFailed failure) ∧
      (fetch.handOut leases state).1.holdings = state.holdings := by
  have flushed : (flushDue state).1.holdings = state.holdings := calm.flushDue state rfl
  simp only [Fetch.handOut]
  split
  · rename_i failed
    rw [failed] at flushed
    exact ⟨_, rfl, fun _ => by simp, flushed⟩
  · rename_i done
    rw [done] at flushed
    exact ⟨_, rfl, fun _ => by simp, flushed⟩

/-- How the last step of a fetch ends: with nothing to commit, with the reservations
turned into leases, or with a failure. -/
inductive CommitEnds (fetch : Fetch) (given : Holdings) (after : DurableBrokerState)
    (exit : FetchExit) : Prop
  | nothing (empty : fetch.prepared = []) (same : after.holdings = given)
      (well : ∀ failure, exit ≠ .commitFailed failure ∧ exit ≠ .loadFailed failure)
  | leased (leases : List DeliveryAttemptRecord)
      (commits : Commits given fetch.consumerId fetch.prepared leases after)
      (well : ∀ failure, exit ≠ .commitFailed failure ∧ exit ≠ .loadFailed failure)
  | failed (failure : Failure) (some : fetch.prepared ≠ [])
      (fails : CommitFails given fetch.consumerId fetch.prepared failure after)
      (told : exit = .commitFailed failure)

theorem commit_ends (fetch : Fetch) (state : DurableBrokerState) :
    ∃ exit, (fetch.commit state).2 = fetch.leave exit ∧
      CommitEnds fetch state.holdings (fetch.commit state).1 exit := by
  simp only [Fetch.commit]
  split
  · rename_i empty
    obtain ⟨exit, left, well, same⟩ := handOut_ends fetch [] state
    exact ⟨exit, left, .nothing empty same well⟩
  · rename_i some
    have triple : (commitPullDeliveries fetch.consumerId fetch.prepared).Triple
        (·.holdings = state.holdings) (Commits state.holdings fetch.consumerId fetch.prepared)
        (CommitFails state.holdings fetch.consumerId fetch.prepared) :=
      commitPullDeliveries_holdings fetch.consumerId fetch.prepared
    split
    · rename_i after failure failed
      exact ⟨_, rfl, .failed failure some (triple.error rfl failed) rfl⟩
    · rename_i after leases done
      obtain ⟨reserved, named, same⟩ := triple.ok rfl done
      obtain ⟨exit, left, well, kept⟩ := handOut_ends fetch leases after
      exact ⟨exit, left, .leased leases ⟨reserved, named, kept.trans same⟩ well⟩

/-! ### Changing and acknowledging leases -/

/-- A lease keeps its place when its deadline moves. -/
def prolong (seq deadlineMs : ℕ) (holding : Holding) : Holding :=
  { holding with inFlight := holding.inFlight.modify seq fun lease =>
      { lease with deadlineMs := deadlineMs } }

def Prolonged (given : Holdings) (consumerId : String) (seq deadlineMs : ℕ)
    (state : DurableBrokerState) : Prop :=
  state.holdings = given ∨ state.holdings = given.alter consumerId (prolong seq deadlineMs)

theorem updatePullLease_holdings (seq deliveryId deadlineMs : ℕ) :
    (updatePullLease consumerId seq deliveryId deadlineMs).Triple (·.holdings = given)
      (fun _ => Prolonged given consumerId seq deadlineMs)
      fun _ => Prolonged given consumerId seq deadlineMs := by
  refine .read_bind fun found => ?_
  split
  · exact .await fun _ held => .inl held.1
  · refine .strengthen ?_ fun _ held => held.1
    refine (Triple.of_keeps (calm.append _) fun _ _ => .inl).bind fun _ => ?_
    refine .change_bind (·.holdings = given.alter consumerId (prolong seq deadlineMs)) ?_ ?_
    · intro state held
      rw [← held]
      exact holdings_modifyConsumer consumerId fun _ _ => rfl
    refine .change_bind (·.holdings = given.alter consumerId (prolong seq deadlineMs))
      (fun state held => (scheduleLease_holdings state _).trans held) ?_
    exact (Triple.of_keeps calm.flushDue fun _ _ => .inr).relax fun _ _ => .inr

/-- An acknowledgement changes nothing, ends a lease, or loses the consumer. -/
def Acknowledged (given : Holdings) (consumerId : String) (seq : ℕ)
    (state : DurableBrokerState) : Prop :=
  state.holdings = given ∨ state.holdings = given.forget consumerId ∨
    state.holdings = given.alter consumerId (·.giveBack seq)

theorem moveCursor_holdings (seq : ℕ) (message : PublishRecord) :
    (moveCursor consumerId message).Triple (·.holdings = given)
      (fun _ state => state.holdings = given) fun _ => Acknowledged given consumerId seq := by
  intro state held
  simp only [moveCursor]
  cases found : state.consumers.get? consumerId with
  | none => exact .inl held
  | some consumer =>
    dsimp only
    cases consumer.cursors.acknowledge message consumer.record.filterSubject state.messages with
    | error refusal =>
      refine .inr (.inl ?_)
      rw [← held]
      funext otherId
      simp only [holdings, get?_erase, forget]
      split <;> rfl
    | ok cursors =>
      refine Eq.trans ?_ held
      funext otherId
      simp only [holdings, get?_insert]
      split
      · rename_i own
        rw [own, found]
        rfl
      · rfl

theorem keeps_journalDelta (delta : Option ConsumerCursorDeltaRecord) :
    (journalDelta delta).Keeps (·.holdings = given) := by
  simp only [journalDelta]
  split
  · exact calm.append _
  · exact .pure _

theorem ackInner_holdings (seq deliveryId : ℕ) :
    (ackInner consumerId seq deliveryId).Triple (·.holdings = given)
      (fun _ => Acknowledged given consumerId seq)
      fun _ => Acknowledged given consumerId seq := by
  refine .read_bind fun lease => .strengthen ?_ fun _ held => held.1
  split
  · refine .read_bind fun message => .strengthen ?_ fun _ held => held.1
    have moved : (acknowledgeMessage consumerId message).Triple (·.holdings = given)
        (fun _ state => state.holdings = given) fun _ => Acknowledged given consumerId seq := by
      simp only [acknowledgeMessage]
      split
      · split
        · exact moveCursor_holdings seq _
        · exact .pure fun _ held => held
      · exact .pure fun _ held => held
    let Done : DurableBrokerState → Prop := (·.holdings = given.alter consumerId (·.giveBack seq))
    refine moved.bind fun delta => ?_
    refine (Triple.of_keeps (calm.append _) fun _ _ => .inl).bind fun _ => ?_
    refine .change_bind Done ?_ ?_
    · rintro state rfl
      exact holdings_modifyConsumer consumerId fun _ _ => rfl
    refine .change_bind Done (fun _ held => held) ?_
    refine (Triple.of_keeps (keeps_journalDelta delta)
      fun _ _ held => .inr (.inr held)).bind fun _ => ?_
    refine .change_bind Done (fun state held => ?_) ?_
    · simp only [markConsumerReady]
      split <;> exact held
    refine .change_bind Done (fun _ held => held) ?_
    refine (Triple.of_keeps calm.flushDue fun _ _ held => .inr (.inr held)).bind
      fun _ => .pure fun _ held => .inr (.inr held)
  · refine (Triple.of_keeps calm.flushDue fun _ _ => .inl).bind fun _ => .pure fun _ => .inl

/-! ### Expiry -/

/-- Taking a lease takes one the consumer holds. -/
theorem takeLease_holdings (deadline : LeaseDeadline) (state : DurableBrokerState) :
    ((state.takeLease deadline).2 = none ∧ (state.takeLease deadline).1 = state) ∨
    ∃ taken holding lease, (state.takeLease deadline).2 = some taken ∧
      state.holdings deadline.consumerId = some holding ∧
      holding.inFlight.get? deadline.seq = some lease ∧
      (state.takeLease deadline).1.holdings =
        state.holdings.alter deadline.consumerId (·.giveBack deadline.seq) := by
  simp only [takeLease]
  split
  · exact .inl ⟨rfl, rfl⟩
  · rename_i consumer found
    split
    · exact .inl ⟨rfl, rfl⟩
    · rename_i lease held
      refine .inr ⟨_, consumer.holding, lease, rfl, holdings_of_get? found, held, ?_⟩
      exact holdings_modifyConsumer deadline.consumerId fun _ _ => rfl

theorem keeps_finishDelivery (record : ConsumerRecord) (deadline : LeaseDeadline)
    (lease : InFlight) : (finishDelivery record deadline lease).Keeps (·.holdings = given) := by
  refine calm.finishDelivery (fun _ _ held => held) (fun state cursors held => ?_) record lease
  rw [← held]
  apply holdings_of_same
  intro consumer
  cases cursors <;> rfl

/-- A lease that was taken may be put back. -/
def PutBack (given : Holdings) (deadline : LeaseDeadline) (state : DurableBrokerState) : Prop :=
  state.holdings = given ∨ ∃ lease,
    state.holdings = given.alter deadline.consumerId (·.lend deadline.seq lease)

theorem expireLease_holdings (now : ℕ) (record : ConsumerRecord) (deadline : LeaseDeadline)
    (lease : InFlight) :
    (expireLease now record deadline lease).Triple (·.holdings = given)
      (fun _ => PutBack given deadline) fun _ => PutBack given deadline := by
  unfold expireLease
  split
  · exact (Triple.of_keeps (keeps_finishDelivery record deadline lease) fun _ _ => .inl).relax
      fun _ _ => .inl
  · unfold retryDelivery
    split
    · refine .change fun state held => .inl ?_
      rw [← held]
      exact holdings_of_same deadline.consumerId fun _ => rfl
    · split
      · exact .await fun _ => .inl
      · refine (Triple.of_keeps (calm.append _) fun _ _ => .inl).bind fun _ => ?_
        refine .change_bind (fun state => ∃ lease, state.holdings =
          given.alter deadline.consumerId (·.lend deadline.seq lease)) ?_ (.change ?_)
        · intro state held
          rw [← held]
          exact ⟨_, holdings_modifyConsumer deadline.consumerId fun _ _ => rfl⟩
        · rintro state ⟨lease, held⟩
          exact .inr ⟨lease, (scheduleLease_holdings state _).trans held⟩

end Holdings

end Morrow
