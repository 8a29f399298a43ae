import Morrow.Holdings

/-!
# Reservations of concurrent fetches

A fetch reserves messages one by one and commits them in the end. Reservations of
different fetches are of different messages, and so a commit finds all of its own, as
long as no reserved message has a lease that is due when a fetch makes a reservation.
-/

namespace Morrow

open GuardedRuns Procedure DurableBrokerState OrderedMap List Holdings

/-- The message is reserved for the consumer. -/
def Holdings.Reserved (given : Holdings) (consumerId : String) (seq : ℕ) : Prop :=
  ∃ holding, given consumerId = some holding ∧ seq ∈ holding.preparing

/-- The messages a fetch has reserved and not yet leased or given back. -/
def Fetch.held (fetch : Fetch) : List ℕ :=
  match fetch.phase with
  | .reserving | .committing => fetch.prepared.map (·.seq)
  | .loading candidate => fetch.prepared.map (·.seq) ++ [candidate.seq]
  | .returned _ => []

namespace Holdings

variable {given : Holdings} {consumerId : String} {seq : ℕ}

theorem reserved_alter {changed : String} {update : Holding → Holding} :
    (given.alter changed update).Reserved consumerId seq ↔ ∃ holding,
      given consumerId = some holding ∧
        seq ∈ (if consumerId = changed then update holding else holding).preparing := by
  simp only [Reserved, alter]
  split
  · rename_i own
    subst own
    simp only [Option.map_eq_some_iff]
    constructor
    · rintro ⟨_, ⟨holding, known, rfl⟩, member⟩
      exact ⟨holding, known, member⟩
    · rintro ⟨holding, known, member⟩
      exact ⟨_, ⟨holding, known, rfl⟩, member⟩
  · rfl

variable {chosen : String}

theorem reserved_reserve {other : ℕ} (known : (given chosen).isSome) :
    (given.alter chosen (·.reserve other)).Reserved consumerId seq ↔
      given.Reserved consumerId seq ∨ consumerId = chosen ∧ seq = other := by
  rw [reserved_alter]
  constructor
  · rintro ⟨holding, found, member⟩
    split at member
    · rename_i own
      rcases Finset.mem_insert.mp member with same | old
      · exact .inr ⟨own, same⟩
      · exact .inl ⟨holding, found, old⟩
    · exact .inl ⟨holding, found, member⟩
  · rintro (⟨holding, found, member⟩ | ⟨rfl, rfl⟩)
    · refine ⟨holding, found, ?_⟩
      split
      · exact Finset.mem_insert_of_mem member
      · exact member
    · obtain ⟨holding, found⟩ := Option.isSome_iff_exists.mp known
      refine ⟨holding, found, ?_⟩
      rw [if_pos rfl]
      exact Finset.mem_insert_self _ _

theorem reserved_release {other : ℕ} :
    (given.alter chosen (·.release other)).Reserved consumerId seq ↔
      given.Reserved consumerId seq ∧ ¬ (consumerId = chosen ∧ seq = other) := by
  rw [reserved_alter]
  constructor
  · rintro ⟨holding, found, member⟩
    split at member
    · obtain ⟨different, old⟩ := Finset.mem_erase.mp member
      exact ⟨⟨holding, found, old⟩, fun same => different same.2⟩
    · rename_i other
      exact ⟨⟨holding, found, member⟩, fun same => other same.1⟩
  · rintro ⟨⟨holding, found, member⟩, different⟩
    refine ⟨holding, found, ?_⟩
    split
    · rename_i own
      exact Finset.mem_erase.mpr ⟨fun same => different ⟨own, same⟩, member⟩
    · exact member

theorem reserved_committed {leases : List DeliveryAttemptRecord}
    (held : given.Reserved consumerId seq) (kept : consumerId = chosen → seq ∉ leases.map (·.seq)) :
    (given.alter chosen (committed leases)).Reserved consumerId seq := by
  obtain ⟨holding, found, member⟩ := held
  refine reserved_alter.mpr ⟨holding, found, ?_⟩
  split
  · rename_i own
    refine Finset.mem_sdiff.mpr ⟨member, ?_⟩
    rw [mem_toFinset]
    exact kept own
  · exact member

end Holdings

/-- What one step of a fetch does to reservations: the messages it holds are distinct
and reserved, each was held before or free, and those of others stay reserved. -/
structure Advances (fetch next : Fetch) (given after : Holdings) : Prop where
  sameConsumer : next.consumerId = fetch.consumerId
  distinct : next.held.Nodup
  owned : ∀ seq ∈ next.held, after.Reserved fetch.consumerId seq
  free : ∀ seq ∈ next.held, seq ∈ fetch.held ∨ ¬ given.Reserved fetch.consumerId seq
  others : ∀ consumerId seq, given.Reserved consumerId seq →
    (consumerId = fetch.consumerId → seq ∉ fetch.held) → after.Reserved consumerId seq

namespace Advances

variable {fetch next : Fetch} {given after : Holdings}

/-- A step that keeps the reservations and what the fetch holds of them. -/
theorem of_same (sameConsumer : next.consumerId = fetch.consumerId)
    (distinct : fetch.held.Nodup)
    (owned : ∀ seq ∈ fetch.held, given.Reserved fetch.consumerId seq)
    (same : after = given) (held : next.held = fetch.held ∨ next.held = []) :
    Advances fetch next given after := by
  subst same
  have inside : ∀ seq ∈ next.held, seq ∈ fetch.held := by
    rcases held with all | none
    · rw [all]
      exact fun _ member => member
    · rw [none]
      exact fun _ member => absurd member not_mem_nil
  refine ⟨sameConsumer, ?_, fun seq member => owned seq (inside seq member),
    fun seq member => .inl (inside seq member), fun _ _ reserved _ => reserved⟩
  rcases held with all | none
  · rwa [all]
  · rw [none]
    exact nodup_nil

end Advances

/-! ### Leases that are due -/

namespace DurableBrokerState

variable {state : DurableBrokerState} {consumer : Consumer} {now : ℕ}
  {partitions : Option (Finset ℕ)} {seq : ℕ}

/-- The consumer's lease on the message is due, and the fetch may read the message. -/
def Due (state : DurableBrokerState) (consumer : Consumer) (now : ℕ)
    (partitions : Option (Finset ℕ)) (seq : ℕ) : Prop :=
  ∃ lease ∈ consumer.inFlight.get? seq, lease.deadlineMs ≤ now ∧
    state.allowed partitions seq = true

instance dueDecidable : Decidable (state.Due consumer now partitions seq) := by
  unfold Due
  infer_instance

/-- What a fetch reserves is not reserved yet. -/
theorem notMem_preparing (reserves : Holdings.Reserves state consumer now partitions seq)
    (free : ∀ seq ∈ consumer.preparing, ¬ state.Due consumer now partitions seq) :
    seq ∉ consumer.preparing := by
  intro reserved
  cases reserves with
  | due lease first =>
    have held := mem_entries.mp (mem_of_find?_eq_some first)
    have test := List.find?_some first
    simp only [Bool.and_eq_true, decide_eq_true_eq] at test
    exact free seq reserved ⟨lease, held, test.1, test.2⟩
  | fresh _ _ available => simp [unavailable, reserved] at available

theorem reservation_fresh {after : DurableBrokerState} {consumerId : String}
    {logs : PartitionLogSet} {candidate : Candidate}
    (free : ∀ consumer ∈ state.consumers.get? consumerId, ∀ seq ∈ consumer.preparing,
      ¬ state.Due consumer now partitions seq)
    (found : state.reservePullCandidate consumerId logs now partitions =
      (after, some candidate)) : ¬ state.holdings.Reserved consumerId candidate.seq := by
  obtain ⟨-, consumer, known, reserves⟩ := reservePullCandidate_some found
  rintro ⟨holding, held, member⟩
  rw [holdings_of_get? known] at held
  rw [← Option.some.inj held] at member
  exact notMem_preparing reserves (free consumer known) member

end DurableBrokerState

/-! ### One step of a fetch -/

namespace Fetch

variable {fetch : Fetch} {state : DurableBrokerState}

theorem held_reserving (phase : fetch.phase = .reserving) :
    fetch.held = fetch.prepared.map (·.seq) := by
  rw [held, phase]

theorem held_committing (phase : fetch.phase = .committing) :
    fetch.held = fetch.prepared.map (·.seq) := by
  rw [held, phase]

variable {candidate : Candidate}

theorem held_loading (phase : fetch.phase = .loading candidate) :
    fetch.held = fetch.prepared.map (·.seq) ++ [candidate.seq] := by
  rw [held, phase]

section

variable (distinct : fetch.held.Nodup)
  (owned : ∀ seq ∈ fetch.held, state.holdings.Reserved fetch.consumerId seq)

include distinct owned

/-- A fetch reserves a free message. -/
theorem reserve_advances {world : DeliveryWorld} {after : DurableBrokerState}
    (phase : fetch.phase = .reserving)
    (free : ∀ consumer ∈ state.consumers.get? fetch.consumerId, ∀ seq ∈ consumer.preparing,
      ¬ state.Due consumer world.now fetch.partitions seq)
    (found : state.reservePullCandidate fetch.consumerId world.logs world.now fetch.partitions =
      (after, some candidate)) :
    Advances fetch { fetch with
      phase := .loading candidate
      reserved := fetch.reserved ++ [candidate] } state.holdings after.holdings := by
  obtain ⟨changed, consumer, known, -⟩ := reservePullCandidate_some found
  have present : (state.holdings fetch.consumerId).isSome := by
    rw [holdings_of_get? known]
    rfl
  have fresh := reservation_fresh free found
  have holds : Fetch.held { fetch with
      phase := .loading candidate
      reserved := fetch.reserved ++ [candidate] } = fetch.held ++ [candidate.seq] := by
    rw [held_reserving phase]
    rfl
  rw [changed]
  refine ⟨rfl, ?_, ?_, ?_, ?_⟩
  · rw [holds]
    refine nodup_append.mpr ⟨distinct, nodup_singleton _, ?_⟩
    rintro seq member other last rfl
    rw [mem_singleton.mp last] at member
    exact fresh (owned _ member)
  · intro seq member
    rw [holds, mem_append, mem_singleton] at member
    rw [reserved_reserve present]
    rcases member with old | rfl
    · exact .inl (owned seq old)
    · exact .inr ⟨rfl, rfl⟩
  · intro seq member
    rw [holds, mem_append, mem_singleton] at member
    rcases member with old | rfl
    · exact .inl old
    · exact .inr fresh
  · intro consumerId seq reserved _
    exact (reserved_reserve present).mpr (.inl reserved)

/-- Giving back the message that was read does not concern the others. -/
theorem release_advances (phase : fetch.phase = .loading candidate) {next : Fetch}
    (sameConsumer : next.consumerId = fetch.consumerId)
    (held : next.held = fetch.prepared.map (·.seq) ∨ next.held = []) :
    Advances fetch next state.holdings
      (state.releasePullCandidate fetch.consumerId candidate.seq).holdings := by
  have released : (state.releasePullCandidate fetch.consumerId candidate.seq).holdings =
      state.holdings.alter fetch.consumerId (·.release candidate.seq) :=
    holdings_modifyConsumer fetch.consumerId fun _ _ => rfl
  have holds := held_loading phase
  rw [holds] at distinct
  have apart := nodup_append.mp distinct
  have prepared : ∀ seq ∈ next.held, seq ∈ fetch.prepared.map (·.seq) := by
    rcases held with all | none
    · rw [all]
      exact fun _ member => member
    · rw [none]
      exact fun _ member => absurd member not_mem_nil
  have inside : ∀ seq ∈ next.held, seq ∈ fetch.held := by
    intro seq member
    rw [holds]
    exact mem_append_left _ (prepared seq member)
  rw [released]
  refine ⟨sameConsumer, ?_, ?_, fun seq member => .inl (inside seq member), ?_⟩
  · rcases held with all | none
    · rw [all]
      exact apart.1
    · rw [none]
      exact nodup_nil
  · intro seq member
    refine reserved_release.mpr ⟨owned seq (inside seq member), ?_⟩
    rintro ⟨-, rfl⟩
    exact apart.2.2 _ (prepared _ member) _ (mem_singleton_self _) rfl
  · intro consumerId seq reserved foreign
    refine reserved_release.mpr ⟨reserved, ?_⟩
    rintro ⟨own, rfl⟩
    apply foreign own
    rw [holds]
    exact mem_append_right _ (mem_singleton_self _)

/-- All that a fetch commits is reserved, each message once. -/
theorem prepared_reserved (phase : fetch.phase = .committing) {holding : Holding}
    (known : state.holdings fetch.consumerId = some holding) :
    (fetch.prepared.map (·.seq)).Nodup ∧ seqs fetch.prepared ⊆ holding.preparing := by
  rw [held_committing phase] at distinct owned
  refine ⟨distinct, fun seq member => ?_⟩
  obtain ⟨same, found, reserved⟩ := owned seq (mem_toFinset.mp member)
  rw [known] at found
  rwa [Option.some.inj found]

theorem commit_advances (phase : fetch.phase = .committing) :
    Advances fetch (fetch.commit state).2 state.holdings (fetch.commit state).1.holdings := by
  have holds := held_committing phase
  obtain ⟨exit, left, ends⟩ := commit_ends fetch state
  rw [left]
  cases ends with
  | nothing _ same _ => exact .of_same rfl distinct owned same (.inr rfl)
  | leased leases commits _ =>
    rw [commits.same]
    refine ⟨rfl, nodup_nil, fun _ member => absurd member not_mem_nil,
      fun _ member => absurd member not_mem_nil, ?_⟩
    intro consumerId seq reserved foreign
    refine reserved_committed reserved fun own => ?_
    rw [commits.named, ← holds]
    exact foreign own
  | failed failure some fails _ =>
    cases fails with
    | unknown _ _ same => exact .of_same rfl distinct owned same (.inr rfl)
    | refused _ same _ _ _ => exact .of_same rfl distinct owned same (.inr rfl)
    | unreserved _ holding known missing _ _ _ =>
      exact absurd (prepared_reserved distinct owned phase known) missing

/-- Such a commit fails only if the journal does. -/
theorem commit_fails (phase : fetch.phase = .committing) {failure : Failure}
    (failed : (fetch.commit state).2.phase = .returned (.commitFailed failure)) :
    failure = .error "appending WAL record" := by
  obtain ⟨exit, left, ends⟩ := commit_ends fetch state
  rw [left] at failed
  have told : exit = .commitFailed failure := FetchPhase.returned.inj failed
  cases ends with
  | nothing _ _ well => exact absurd told (well failure).1
  | leased _ _ well => exact absurd told (well failure).1
  | failed other some fails same =>
    obtain rfl := FetchExit.commitFailed.inj (same.symm.trans told)
    cases fails with
    | refused wal _ _ _ _ => exact wal
    | unreserved _ holding known missing _ _ _ =>
      exact absurd (prepared_reserved distinct owned phase known) missing
    | unknown _ absent _ =>
      rw [held_committing phase] at owned
      obtain ⟨first, rest, split⟩ := exists_cons_of_ne_nil some
      obtain ⟨holding, known, -⟩ := owned first.seq (by simp [split])
      rw [absent] at known
      cases known

theorem advance_advances (world : DeliveryWorld)
    (free : fetch.asks = true → ∀ consumer ∈ state.consumers.get? fetch.consumerId,
      ∀ seq ∈ consumer.preparing, ¬ state.Due consumer world.now fetch.partitions seq) :
    Advances fetch (fetch.advance world state).2 state.holdings
      (fetch.advance world state).1.holdings := by
  have step := fetch.advance_steps world state
  generalize fetch.advance world state = next at step ⊢
  cases step with
  | full phase => exact .of_same rfl distinct owned rfl (.inl (held_reserving phase).symm)
  | nothing phase after none =>
    exact .of_same rfl distinct owned (reservePullCandidate_none none)
      (.inl (held_reserving phase).symm)
  | unknown | overflow => exact .of_same rfl distinct owned rfl (.inr rfl)
  | reserves phase room after candidate found =>
    exact reserve_advances distinct owned phase (free (by simp [asks, phase, room])) found
  | unread candidate phase => exact release_advances distinct owned phase rfl (.inr rfl)
  | tooLarge candidate phase => exact release_advances distinct owned phase rfl (.inl rfl)
  | prepares candidate phase =>
    refine .of_same rfl distinct owned rfl (.inl ?_)
    rw [held_loading phase]
    simp [held]
  | commits phase => exact commit_advances distinct owned phase
  | returned => exact .of_same rfl distinct owned rfl (.inl rfl)

end

end Fetch

/-! ### Whole runs -/

namespace DeliveryRun

/-- What the fetches under way hold: distinct messages, all of them reserved, and none
that another fetch of the same consumer holds. -/
structure Separate (run : DeliveryRun) : Prop where
  distinct : ∀ id fetch, run.fetches.get? id = some fetch → fetch.held.Nodup
  owned : ∀ id fetch, run.fetches.get? id = some fetch → ∀ seq ∈ fetch.held,
    run.broker.holdings.Reserved fetch.consumerId seq
  apart : ∀ id fetch otherId other, run.fetches.get? id = some fetch →
    run.fetches.get? otherId = some other → id ≠ otherId →
    fetch.consumerId = other.consumerId → ∀ seq ∈ fetch.held, seq ∉ other.held

/-- Fetches and nothing else. -/
def Fetching (_ : DeliveryRun) : DeliveryAction → Prop
  | .startFetch .. | .advanceFetch .. => True
  | _ => False

/-- When a fetch asks for a message, no reserved message of its consumer has a lease that
is due. -/
def ReservedNotDue (run : DeliveryRun) : DeliveryAction → Prop
  | .advanceFetch id world => ∀ fetch ∈ run.fetches.get? id, fetch.asks = true →
    ∀ consumer ∈ run.broker.consumers.get? fetch.consumerId, ∀ seq ∈ consumer.preparing,
      ¬ run.broker.Due consumer world.now fetch.partitions seq
  | _ => True

variable {run : DeliveryRun}

variable {broker : DurableBrokerState}

/-- Put a fetch into its place. -/
theorem Separate.insert (separate : run.Separate) {id : ℕ} {next : Fetch}
    (distinct : next.held.Nodup)
    (owned : ∀ seq ∈ next.held, broker.holdings.Reserved next.consumerId seq)
    (foreign : ∀ otherId other, otherId ≠ id → run.fetches.get? otherId = some other →
      other.consumerId = next.consumerId → ∀ seq ∈ next.held, seq ∉ other.held)
    (kept : ∀ otherId other, otherId ≠ id → run.fetches.get? otherId = some other →
      ∀ seq ∈ other.held, broker.holdings.Reserved other.consumerId seq) :
    (⟨broker, run.fetches.insert id next⟩ : DeliveryRun).Separate := by
  have fetches : ∀ otherId other, (run.fetches.insert id next).get? otherId = some other →
      (otherId = id ∧ other = next) ∨ (otherId ≠ id ∧ run.fetches.get? otherId = some other) := by
    intro otherId other found
    rwa [get?_insert_eq_some, @eq_comm _ next] at found
  constructor
  · intro otherId other found
    rcases fetches otherId other found with ⟨-, rfl⟩ | ⟨-, old⟩
    · exact distinct
    · exact separate.distinct otherId other old
  · intro otherId other found
    rcases fetches otherId other found with ⟨-, rfl⟩ | ⟨different, old⟩
    · exact owned
    · exact kept otherId other different old
  · intro firstId first secondId second foundFirst foundSecond different same seq member
    rcases fetches firstId first foundFirst with ⟨rfl, rfl⟩ | ⟨firstOld, oldFirst⟩
    · rcases fetches secondId second foundSecond with ⟨rfl, rfl⟩ | ⟨secondOld, oldSecond⟩
      · exact absurd rfl different
      · exact foreign secondId second secondOld oldSecond same.symm seq member
    · rcases fetches secondId second foundSecond with ⟨rfl, rfl⟩ | ⟨secondOld, oldSecond⟩
      · exact fun inside => foreign firstId first firstOld oldFirst same seq inside member
      · exact separate.apart firstId first secondId second oldFirst oldSecond different same seq
          member

theorem Separate.advance (separate : run.Separate) {id : ℕ} {fetch next : Fetch}
    (found : run.fetches.get? id = some fetch)
    (advances : Advances fetch next run.broker.holdings broker.holdings) :
    (⟨broker, run.fetches.insert id next⟩ : DeliveryRun).Separate := by
  apply separate.insert advances.distinct
  · rw [advances.sameConsumer]
    exact advances.owned
  · intro otherId other different known same seq member
    rcases advances.free seq member with old | fresh
    · exact separate.apart id fetch otherId other found known different.symm
        (advances.sameConsumer ▸ same.symm) seq old
    · intro inside
      have reserved := separate.owned otherId other known seq inside
      rw [same, advances.sameConsumer] at reserved
      exact fresh reserved
  · intro otherId other different known seq member
    refine advances.others _ seq (separate.owned otherId other known seq member) fun same => ?_
    exact separate.apart otherId other id fetch known found different same seq member

/-- What one action preserves. -/
theorem Separate.next (separate : run.Separate) {action : DeliveryAction}
    (fetching : run.Fetching action) (free : run.ReservedNotDue action) :
    (run.next action).Separate := by
  cases action with
  | startFetch id consumerId maxMessages maxBytes maxEncodedBytes partitions =>
    simp only [DeliveryRun.next]
    split
    · exact separate
    · refine Separate.insert separate ?_ ?_ ?_ ?_
      · exact nodup_nil
      · exact fun _ member => absurd member not_mem_nil
      · exact fun _ _ _ _ _ _ member => absurd member not_mem_nil
      · exact fun otherId other _ known => separate.owned otherId other known
  | advanceFetch id world =>
    simp only [DeliveryRun.next, advanceFetch]
    split
    · exact separate
    · rename_i fetch found
      exact separate.advance found (Fetch.advance_advances (separate.distinct id fetch found)
        (separate.owned id fetch found) world (free fetch found))
  | publish | push | updateLease | ack | nextDeadline | expire | upsert | create | delete | sync
  | purge | replay => exact fetching.elim

/-- What a reservation finds is not reserved; what a fetch commits are distinct
messages, and committing them fails only if the journal does. -/
structure ReservesOnce (guard : DeliveryRun → DeliveryAction → Prop) (run : DeliveryRun) :
    Prop where
  reservation : ∀ id world fetch candidate, run.fetches.get? id = some fetch →
    fetch.asks = true → guard run (.advanceFetch id world) →
    (run.broker.reservePullCandidate fetch.consumerId world.logs world.now
      fetch.partitions).2 = some candidate →
    ¬ run.broker.holdings.Reserved fetch.consumerId candidate.seq
  batch : ∀ id fetch, run.fetches.get? id = some fetch → fetch.phase = .committing →
    (fetch.prepared.map (·.seq)).Nodup ∧ ∀ failure,
      (fetch.commit run.broker).2.phase = .returned (.commitFailed failure) →
        failure = .error "appending WAL record"

/-- This holds in every run of concurrent fetches whose actions are admitted. -/
def FetchesReserveOnce (guard : DeliveryRun → DeliveryAction → Prop) : Prop :=
  ∀ start last : DeliveryRun, start.fetches = ∅ →
    Reaches DeliveryRun.next (fun run action => run.Fetching action ∧ guard run action)
      start last → last.ReservesOnce guard

/-- Concurrent fetches reserve each message once, and their commits fail only with the
journal, as long as no reserved message has a due lease when one of them asks for more. -/
theorem fetchesReserveOnce_of_reservedNotDue {start last : DeliveryRun} (idle : start.fetches = ∅)
    (run : Reaches DeliveryRun.next
      (fun run action => run.Fetching action ∧ run.ReservedNotDue action) start last) :
    last.ReservesOnce ReservedNotDue := by
  have initial : start.Separate := by
    have none : ∀ id fetch, start.fetches.get? id ≠ some fetch := by
      rw [idle]
      exact nofun
    exact ⟨fun id fetch found => absurd found (none id fetch),
      fun id fetch found => absurd found (none id fetch),
      fun id fetch _ _ found => absurd found (none id fetch)⟩
  have separate : last.Separate := run.invariant Separate
    (fun _ _ admitted held => held.next admitted.1 admitted.2) initial
  constructor
  · intro id world fetch candidate found asks free chosen
    exact reservation_fresh (free fetch found asks) (Prod.ext rfl chosen)
  · intro id fetch found phase
    have distinct := separate.distinct id fetch found
    refine ⟨Fetch.held_committing phase ▸ distinct, fun failure failed => ?_⟩
    exact Fetch.commit_fails distinct (separate.owned id fetch found) phase failed

/-- A broker with three messages for one consumer, whose lease on the first is due. -/
def expiredLease : DeliveryRun :=
  let record : ConsumerRecord := ⟨"c", "orders.*", none, 30000, 16, .earliest, .default⟩
  let message (seq : ℕ) : PublishRecord :=
    ⟨seq, "", none, none, none, "orders.a", none, [], 0, none, [], 0, 0⟩
  ⟨{ empty with
      consumers := OrderedMap.insert ∅ "c" { Consumer.fresh record .default with
        inFlight := OrderedMap.insert ∅ 1 ⟨7, 0, 1, false⟩
        pending := {2, 3} }
      messages := OrderedMap.ofList ([1, 2, 3].map fun seq => (seq, message seq)) }, ∅⟩

instance fetchingDecidable (run : DeliveryRun) :
    (action : DeliveryAction) → Decidable (run.Fetching action)
  | .startFetch .. | .advanceFetch .. => instDecidableTrue
  | .publish .. | .push .. | .updateLease .. | .ack .. | .nextDeadline | .expire .. | .upsert ..
  | .create .. | .delete .. | .sync .. | .purge .. | .replay .. => instDecidableFalse

instance reservedNotDueDecidable (run : DeliveryRun) :
    (action : DeliveryAction) → Decidable (run.ReservedNotDue action)
  | .advanceFetch .. => inferInstanceAs (Decidable (∀ _ ∈ _, _))
  | .publish .. | .push .. | .startFetch .. | .updateLease .. | .ack .. | .nextDeadline | .expire ..
  | .upsert .. | .create .. | .delete .. | .sync .. | .purge .. | .replay .. => instDecidableTrue

/-- One fetch takes over the due lease and commits it; another one reserves the two
pending messages and is about to commit both. -/
theorem fetchesReserveOnce_committed :
    let last := (fetchSteps 0 1 4 ++ fetchSteps 1 2 5).foldl DeliveryRun.next expiredLease
    (last.broker.consumers.get? "c").map (fun consumer =>
        (consumer.inFlight.entries.map (fun entry => (entry.1, entry.2.deadlineMs)),
          consumer.preparing)) = some ([(1, 30000)], {2, 3}) ∧
      last.ReservesOnce ReservedNotDue := by
  refine ⟨by decide +kernel, ?_⟩
  exact fetchesReserveOnce_of_reservedNotDue (show expiredLease.fetches = ∅ from rfl)
    (.of_admits (by decide +kernel))

/-- A fetch of two messages reserves the message with the due lease twice. -/
theorem due_lease_reserved_twice : ¬ FetchesReserveOnce fun _ _ => True := by
  intro once
  let last := (fetchSteps 0 2 2).foldl DeliveryRun.next expiredLease
  have reserves := once expiredLease last rfl (.of_admits (by decide +kernel))
  have again : (last.fetches.get? 0).any (fun fetch => fetch.asks &&
      (last.broker.reservePullCandidate fetch.consumerId stillWorld.logs stillWorld.now
        fetch.partitions).2.any fun candidate =>
          (last.broker.consumers.get? fetch.consumerId).any fun consumer =>
            decide (candidate.seq ∈ consumer.preparing)) = true := by decide +kernel
  simp only [Option.any_eq_true, Bool.and_eq_true, decide_eq_true_eq] at again
  obtain ⟨fetch, found, asks, candidate, chosen, consumer, known, reserved⟩ := again
  exact reserves.reservation 0 stillWorld fetch candidate found asks trivial chosen
    ⟨consumer.holding, holdings_of_get? known, reserved⟩

end DeliveryRun

end Morrow
