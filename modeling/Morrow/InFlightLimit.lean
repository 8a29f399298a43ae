import Morrow.Holdings

/-!
# The limit of leases

A consumer has a limit for its leases. Before a message is reserved or pushed, the
limit is compared with the leases alone, and reservations become leases later. Leases
and reservations together stay within the limit only as long as there is room, counted
that way, for each message that is reserved or pushed.
-/

namespace Morrow

open GuardedRuns Procedure DurableBrokerState OrderedMap Holdings Option

namespace Holding

/-- The messages that are leased or reserved. -/
def outstanding (holding : Holding) : Finset ℕ :=
  holding.inFlight.keys.toFinset ∪ holding.preparing

variable {holding : Holding} {seq : ℕ}

theorem mem_outstanding : seq ∈ holding.outstanding ↔
    (∃ lease, holding.inFlight.get? seq = some lease) ∨ seq ∈ holding.preparing := by
  simp only [outstanding, Finset.mem_union, List.mem_toFinset, mem_keys]

theorem inFlight_length_le (holding : Holding) :
    holding.inFlight.entries.length ≤ holding.outstanding.card := by
  rw [length_entries]
  exact Finset.card_le_card Finset.subset_union_left

theorem outstanding_lend (lease : InFlight) :
    (holding.lend seq lease).outstanding = insert seq holding.outstanding := by
  ext other
  simp only [mem_outstanding, lend, get?_insert, Finset.mem_insert]
  by_cases same : other = seq <;> simp [same]

theorem outstanding_reserve :
    (holding.reserve seq).outstanding = insert seq holding.outstanding := by
  ext other
  simp only [mem_outstanding, reserve, Finset.mem_insert]
  tauto

theorem outstanding_giveBack : (holding.giveBack seq).outstanding ⊆ holding.outstanding := by
  intro other
  simp only [mem_outstanding, giveBack, get?_erase]
  rintro (⟨lease, held⟩ | reserved)
  · split at held
    · cases held
    · exact .inl ⟨lease, held⟩
  · exact .inr reserved

theorem outstanding_of_preparing {kept : Finset ℕ} (fewer : kept ⊆ holding.preparing) :
    { holding with preparing := kept }.outstanding ⊆ holding.outstanding :=
  Finset.union_subset_union_right fewer

theorem outstanding_prolong (deadlineMs : ℕ) :
    (prolong seq deadlineMs holding).outstanding ⊆ holding.outstanding := by
  intro other
  simp only [mem_outstanding, prolong, get?_modify]
  rintro (⟨lease, held⟩ | reserved)
  · split at held
    · obtain ⟨old, known, -⟩ := map_eq_some_iff.mp held
      exact .inl ⟨old, known⟩
    · exact .inl ⟨lease, held⟩
  · exact .inr reserved

theorem outstanding_lendAll (leases : List DeliveryAttemptRecord) (holding : Holding) :
    (lendAll leases holding).outstanding = holding.outstanding ∪ (leases.map (·.seq)).toFinset := by
  induction leases generalizing holding with
  | nil => simp [lendAll]
  | cons lease leases ih =>
    rw [List.map_cons, List.toFinset_cons, Finset.union_insert, ← Finset.insert_union,
      ← outstanding_lend (.ofRecord lease)]
    exact ih (holding.lend lease.seq (.ofRecord lease))

/-- Reservations that become leases were outstanding before. -/
theorem outstanding_committed {leases : List DeliveryAttemptRecord}
    (reserved : (leases.map (·.seq)).toFinset ⊆ holding.preparing) :
    (committed leases holding).outstanding ⊆ holding.outstanding := by
  rw [committed, outstanding_lendAll]
  apply Finset.union_subset
  · exact outstanding_of_preparing Finset.sdiff_subset
  · exact reserved.trans Finset.subset_union_right

end Holding

namespace Holdings

variable {given middle after : Holdings} {consumerId : String} {seq : ℕ} {holding : Holding}

/-- Nobody has more leases and reservations than its limit says. -/
def Within (given : Holdings) : Prop :=
  ∀ consumerId holding, given consumerId = some holding →
    holding.outstanding.card ≤ holding.record.maxInFlight

/-- Nobody has new leases or reservations. -/
def Fewer (given after : Holdings) : Prop :=
  ∀ consumerId later, after consumerId = some later → ∃ holding,
    given consumerId = some holding ∧ later.record = holding.record ∧
      later.outstanding ⊆ holding.outstanding

theorem Fewer.refl (given : Holdings) : given.Fewer given :=
  fun _ holding known => ⟨holding, known, rfl, subset_rfl⟩

theorem Fewer.trans (first : given.Fewer middle) (second : middle.Fewer after) :
    given.Fewer after := by
  intro consumerId later known
  obtain ⟨between, knownBetween, sameLater, insideLater⟩ := second consumerId later known
  obtain ⟨holding, knownFirst, same, inside⟩ := first consumerId between knownBetween
  exact ⟨holding, knownFirst, sameLater.trans same, insideLater.trans inside⟩

variable {update : Holding → Holding}

theorem Fewer.alter
    (acts : ∀ holding, given consumerId = some holding → (update holding).record = holding.record ∧
      (update holding).outstanding ⊆ holding.outstanding) :
    given.Fewer (given.alter consumerId update) := by
  intro otherId later known
  simp only [Holdings.alter] at known
  split at known
  · rename_i own
    obtain ⟨holding, found, rfl⟩ := map_eq_some_iff.mp known
    rw [own]
    exact ⟨holding, found, acts holding found⟩
  · exact ⟨later, known, rfl, subset_rfl⟩

theorem Fewer.forget : given.Fewer (given.forget consumerId) := by
  intro otherId later known
  simp only [Holdings.forget] at known
  split at known
  · cases known
  · exact ⟨later, known, rfl, subset_rfl⟩

theorem Within.fewer (within : given.Within) (fewer : given.Fewer after) : after.Within := by
  intro consumerId later known
  obtain ⟨holding, knownFirst, same, inside⟩ := fewer consumerId later known
  rw [same]
  exact (Finset.card_le_card inside).trans (within consumerId holding knownFirst)

/-- One more message, if there is room. -/
theorem Within.grow (within : given.Within)
    (acts : ∀ holding, (update holding).record = holding.record ∧
      (update holding).outstanding = insert seq holding.outstanding)
    (room : ∀ holding, given consumerId = some holding →
      (insert seq holding.outstanding).card ≤ holding.record.maxInFlight) :
    (given.alter consumerId update).Within := by
  intro otherId later known
  simp only [alter] at known
  split at known
  · obtain ⟨holding, found, rfl⟩ := map_eq_some_iff.mp known
    rw [(acts holding).1, (acts holding).2]
    exact room holding found
  · exact within otherId later known

/-! ### Calls that add nothing -/

variable {state : DurableBrokerState}

theorem fewer_of_prolonged {deadlineMs : ℕ}
    (done : Prolonged given consumerId seq deadlineMs state) : given.Fewer state.holdings := by
  rcases done with same | moved
  · rw [same]
    exact .refl given
  · rw [moved]
    exact .alter fun _ _ => ⟨rfl, Holding.outstanding_prolong deadlineMs⟩

theorem fewer_of_acknowledged (done : Acknowledged given consumerId seq state) :
    given.Fewer state.holdings := by
  rcases done with same | lost | ended
  · rw [same]
    exact .refl given
  · rw [lost]
    exact .forget
  · rw [ended]
    exact .alter fun _ _ => ⟨rfl, Holding.outstanding_giveBack⟩

theorem fewer_of_commitEnds {fetch : Fetch} {exit : FetchExit}
    (ends : CommitEnds fetch given state exit) : given.Fewer state.holdings := by
  cases ends with
  | nothing _ same _ =>
    rw [same]
    exact .refl given
  | leased leases commits _ =>
    obtain ⟨holding, known, reserved⟩ := commits.reserved
    rw [commits.same]
    refine .alter fun other found => ⟨rfl, Holding.outstanding_committed ?_⟩
    rw [known] at found
    rw [commits.named, ← some.inj found]
    exact reserved
  | failed failure _ fails _ =>
    cases fails with
    | unknown _ _ same =>
      rw [same]
      exact .refl given
    | refused _ same _ _ _ =>
      rw [same]
      exact .refl given
    | unreserved _ holding known _ kept fewer same =>
      rw [same]
      refine .alter fun other found => ⟨rfl, Holding.outstanding_of_preparing ?_⟩
      rw [known] at found
      rw [← some.inj found]
      exact fewer

/-- A lease that is taken and put back was outstanding before. -/
theorem fewer_of_putBack {deadline : LeaseDeadline} {lease : InFlight}
    (known : given deadline.consumerId = some holding)
    (held : holding.inFlight.get? deadline.seq = some lease)
    (done : PutBack (given.alter deadline.consumerId (·.giveBack deadline.seq)) deadline state) :
    given.Fewer state.holdings := by
  rcases done with taken | ⟨again, back⟩
  · rw [taken]
    exact .alter fun _ _ => ⟨rfl, Holding.outstanding_giveBack⟩
  · rw [back, alter_alter]
    refine .alter fun other found => ⟨rfl, ?_⟩
    rw [known] at found
    obtain rfl := some.inj found
    rw [Function.comp, Holding.outstanding_lend]
    apply Finset.insert_subset _ Holding.outstanding_giveBack
    exact Holding.mem_outstanding.mpr (.inl ⟨lease, held⟩)

theorem keeps_expireDueLeases (now limit : ℕ) :
    (expireDueLeases now limit).Keeps (given.Fewer ·.holdings) := by
  induction limit with
  | zero => exact .pure _
  | succ limit ih =>
    refine .bind (.change fun _ fewer => fewer) fun _ => .bind (.read _) fun next => ?_
    split
    · exact .pure _
    · rename_i deadline
      split
      · exact .pure _
      · refine .bind (.change fun _ fewer => fewer) fun _ => ?_
        intro state fewer
        rw [answer_bind]
        rcases takeLease_holdings deadline state with ⟨nothing, same⟩ |
          ⟨taken, holding, lease, found, known, held, taking⟩
        · rw [nothing, same]
          exact ih state fewer
        · rw [found]
          have expired : (expireLease now taken.1 deadline taken.2).Triple
              (·.holdings = state.holdings.alter deadline.consumerId (·.giveBack deadline.seq))
              (fun _ => (given.Fewer ·.holdings)) fun _ => (given.Fewer ·.holdings) :=
            ((expireLease_holdings now taken.1 deadline taken.2).relax fun _ _ done =>
              fewer.trans (fewer_of_putBack known held done)).loosen fun _ _ done =>
              fewer.trans (fewer_of_putBack known held done)
          have swept : (expireDueLeases now limit >>= fun count => pure (count + 1)).Keeps
              (given.Fewer ·.holdings) := .bind ih fun _ => .pure _
          exact (expired.bind fun _ => .of_keeps swept fun _ _ kept => kept).always taking

end Holdings

/-! ### Whole runs -/

namespace Holding

/-- If the broker's own check of the limit lets a message pass, there is room for it,
reservations counted. -/
def Spacious (holding : Holding) : Prop :=
  holding.inFlight.entries.length < holding.record.maxInFlight →
    holding.outstanding.card < holding.record.maxInFlight

end Holding

namespace DeliveryRun

/-- Fetches of at most as many messages as the limit says, pushes, acknowledgements,
refused and extended deliveries, and expiries, with messages published in between. -/
def Delivering (run : DeliveryRun) : DeliveryAction → Prop
  | .startFetch _ consumerId maxMessages _ _ _ => ∀ holding,
    run.broker.holdings consumerId = some holding → maxMessages ≤ holding.record.maxInFlight
  | .publish _ | .push .. | .advanceFetch .. | .updateLease .. | .ack .. | .nextDeadline
  | .expire .. => True
  | _ => False

/-- There is room for a message that is pushed, and for one that is reserved unless a
lease is due. -/
def RoomLeft (run : DeliveryRun) : DeliveryAction → Prop
  | .push consumerId _ _ => ∀ holding, run.broker.holdings consumerId = some holding →
    holding.Spacious
  | .advanceFetch id world => ∀ fetch, run.fetches.get? id = some fetch →
    fetch.asks = true → ∀ consumer,
    run.broker.consumers.get? fetch.consumerId = some consumer →
    run.broker.dueLease consumer world.now fetch.partitions = none → consumer.holding.Spacious
  | _ => True

variable {state : DurableBrokerState}

section

variable (within : state.holdings.Within)

include within

theorem within_reserve {after : DurableBrokerState} {fetch : Fetch} {world : DeliveryWorld}
    {candidate : Candidate}
    (room : ∀ consumer, state.consumers.get? fetch.consumerId = some consumer →
      state.dueLease consumer world.now fetch.partitions = none → consumer.holding.Spacious)
    (found : state.reservePullCandidate fetch.consumerId world.logs world.now fetch.partitions =
      (after, some candidate)) : after.holdings.Within := by
  obtain ⟨changed, consumer, known, reserves⟩ := reservePullCandidate_some found
  rw [changed]
  refine within.grow (fun _ => ⟨rfl, Holding.outstanding_reserve⟩) ?_
  intro holding same
  rw [holdings_of_get? known] at same
  obtain rfl := some.inj same
  cases reserves with
  | due lease first =>
    -- The message is leased already, so nothing is added.
    have leased := mem_entries.mp (List.mem_of_find?_eq_some first)
    have counted : candidate.seq ∈ consumer.holding.outstanding :=
      Holding.mem_outstanding.mpr (.inl ⟨lease, leased⟩)
    rw [Finset.insert_eq_of_mem counted]
    exact within fetch.consumerId consumer.holding (holdings_of_get? known)
  | fresh nothing below _ =>
    have few := room consumer known nothing below
    exact (Finset.card_insert_le _ _).trans few

theorem within_release (consumerId : String) (seq : ℕ) :
    (state.releasePullCandidate consumerId seq).holdings.Within := by
  have released : (state.releasePullCandidate consumerId seq).holdings =
      state.holdings.alter consumerId (·.release seq) :=
    holdings_modifyConsumer consumerId fun _ _ => rfl
  rw [released]
  apply within.fewer
  exact .alter fun _ _ => ⟨rfl, Holding.outstanding_of_preparing (Finset.erase_subset _ _)⟩

theorem within_advance (fetch : Fetch) (world : DeliveryWorld)
    (room : fetch.asks = true → ∀ consumer,
      state.consumers.get? fetch.consumerId = some consumer →
      state.dueLease consumer world.now fetch.partitions = none → consumer.holding.Spacious) :
    (fetch.advance world state).1.holdings.Within := by
  have step := fetch.advance_steps world state
  generalize fetch.advance world state = next at step ⊢
  cases step with
  | full | unknown | overflow | prepares | returned => exact within
  | nothing _ after none =>
    rw [reservePullCandidate_none none]
    exact within
  | reserves phase few after candidate found =>
    exact within_reserve within (room (by simp [Fetch.asks, phase, few])) found
  | unread | tooLarge => exact within_release within _ _
  | commits =>
    obtain ⟨exit, -, ends⟩ := commit_ends fetch state
    exact within.fewer (fewer_of_commitEnds ends)

theorem within_push {consumerId : String}
    (connections : Finset ℕ) (world : DeliveryWorld)
    (room : ∀ holding, state.holdings consumerId = some holding → holding.Spacious) :
    (deliverNext consumerId connections world state).1.holdings.Within := by
  rcases (deliverNext_holdings connections world).always rfl with
    same | ⟨⟨holding, known, below⟩, seq, lease, lent⟩
  · rw [same]
    exact within
  · rw [lent]
    refine within.grow (fun _ => ⟨rfl, Holding.outstanding_lend lease⟩) ?_
    intro other found
    rw [known] at found
    obtain rfl := some.inj found
    exact (Finset.card_insert_le _ _).trans (room holding known below)

end

/-- What one action preserves. -/
theorem within_next {run : DeliveryRun} {action : DeliveryAction}
    (delivering : run.Delivering action) (room : run.RoomLeft action)
    (within : run.broker.holdings.Within) : (run.next action).broker.holdings.Within := by
  cases action with
  | publish record =>
    have same : (publishRecord record run.broker).1.holdings = run.broker.holdings :=
      keeps_publishRecord record run.broker rfl
    simp only [DeliveryRun.next, same]
    exact within
  | push consumerId connections world => exact within_push within connections world room
  | startFetch id consumerId maxMessages maxBytes maxEncodedBytes partitions =>
    simp only [DeliveryRun.next]
    split <;> exact within
  | advanceFetch id world =>
    simp only [DeliveryRun.next, advanceFetch]
    split
    · exact within
    · rename_i fetch found
      exact within_advance within fetch world (room fetch found)
  | updateLease consumerId seq deliveryId deadlineMs =>
    exact within.fewer (fewer_of_prolonged
      ((updatePullLease_holdings seq deliveryId deadlineMs).always rfl))
  | ack consumerId seq deliveryId =>
    exact within.fewer (fewer_of_acknowledged ((ackInner_holdings seq deliveryId).always rfl))
  | nextDeadline => exact within
  | expire now limit =>
    exact within.fewer (keeps_expireDueLeases now limit run.broker (.refl _))
  | upsert | create | delete | sync | purge | replay => exact delivering.elim

/-- No fetch is under way, nothing is reserved, and no consumer holds more leases than
its limit says. -/
structure Idle (run : DeliveryRun) : Prop where
  fetches : run.fetches = ∅
  consumers : ∀ consumerId consumer, run.broker.consumers.get? consumerId = some consumer →
    consumer.preparing = ∅ ∧ consumer.inFlight.entries.length ≤ consumer.record.maxInFlight

theorem Idle.within {run : DeliveryRun} (idle : run.Idle) : run.broker.holdings.Within := by
  intro consumerId holding known
  obtain ⟨consumer, found, rfl⟩ := map_eq_some_iff.mp known
  obtain ⟨nothing, few⟩ := idle.consumers consumerId consumer found
  have leases : consumer.holding.outstanding = consumer.inFlight.keys.toFinset := by
    rw [Holding.outstanding, Consumer.holding, nothing, Finset.union_empty]
  rw [leases]
  refine (List.toFinset_card_le _).trans ?_
  rw [OrderedMap.keys, List.length_map]
  exact few

/-- In every run of admitted actions, no consumer ever holds more leases than its limit
says. -/
def InFlightBounded (guard : DeliveryRun → DeliveryAction → Prop) : Prop :=
  ∀ start last : DeliveryRun, start.Idle →
    Reaches DeliveryRun.next (fun run action => run.Delivering action ∧ guard run action)
      start last →
    ∀ consumerId consumer, last.broker.consumers.get? consumerId = some consumer →
      consumer.inFlight.entries.length ≤ consumer.record.maxInFlight

/-- Leases stay within the limit if there is room for every message. -/
theorem inFlightBounded_of_roomLeft {start last : DeliveryRun} (idle : start.Idle)
    (run : Reaches DeliveryRun.next (fun run action => run.Delivering action ∧ run.RoomLeft action)
      start last) {consumerId : String} {consumer : Consumer}
    (found : last.broker.consumers.get? consumerId = some consumer) :
    consumer.inFlight.entries.length ≤ consumer.record.maxInFlight := by
  have within : last.broker.holdings.Within :=
    run.invariant (·.broker.holdings.Within)
      (fun _ _ admitted held => within_next admitted.1 admitted.2 held) idle.within
  exact (Holding.inFlight_length_le consumer.holding).trans
    (within consumerId consumer.holding (holdings_of_get? found))

theorem twoPending_idle : (twoPending 1).Idle := by
  refine ⟨rfl, fun consumerId consumer found => ?_⟩
  rcases get?_insert_eq_some.mp found with ⟨-, rfl⟩ | ⟨-, absent⟩
  · exact ⟨rfl, by decide⟩
  · cases absent

instance deliveringDecidable (run : DeliveryRun) (action : DeliveryAction) :
    Decidable (run.Delivering action) := by
  cases action <;> first
    | exact instDecidableTrue
    | exact instDecidableFalse
    | exact inferInstanceAs (Decidable (∀ holding ∈ run.broker.holdings _, _ ≤ _))

instance roomLeftDecidable (run : DeliveryRun) (action : DeliveryAction) :
    Decidable (run.RoomLeft action) := by
  cases action <;> first
    | exact instDecidableTrue
    | exact inferInstanceAs (Decidable (∀ holding ∈ run.broker.holdings _, _ < _ → _ < _))
    | exact inferInstanceAs (Decidable (∀ fetch ∈ run.fetches.get? _, fetch.asks = true →
        ∀ consumer ∈ run.broker.consumers.get? fetch.consumerId, _ = none → _ < _ → _ < _))

/-- One fetch reserves a message and commits it. -/
theorem inFlightBounded_committed : ∃ consumer,
    ((fetchSteps 0 1 4).foldl DeliveryRun.next (twoPending 1)).broker.consumers.get? "c" =
        some consumer ∧
      consumer.inFlight.keys = [1] ∧
      consumer.inFlight.entries.length ≤ consumer.record.maxInFlight := by
  have leased : (((fetchSteps 0 1 4).foldl DeliveryRun.next (twoPending 1)).broker.consumers.get?
      "c").map (fun consumer => consumer.inFlight.keys) = some [1] := by decide +kernel
  obtain ⟨consumer, found, one⟩ := map_eq_some_iff.mp leased
  exact ⟨consumer, found, one,
    inFlightBounded_of_roomLeft twoPending_idle (.of_admits (by decide +kernel)) found⟩

/-- Two fetches of one message each reserve a message before either of them commits. -/
def overlapping : List DeliveryAction :=
  [0, 1].map (fun id => .startFetch id "c" 1 100 1000 none) ++
    [0, 1, 0, 1, 0, 0, 1, 1].map fun id => .advanceFetch id stillWorld

theorem overlapping_fetches_exceed_limit : ¬ InFlightBounded fun _ _ => True := by
  intro bounded
  have run : Reaches DeliveryRun.next (fun run action => run.Delivering action ∧ True)
      (twoPending 1)
      (overlapping.foldl DeliveryRun.next (twoPending 1)) := .of_admits (by decide +kernel)
  have holding : ((overlapping.foldl DeliveryRun.next (twoPending 1)).broker.consumers.get?
      "c").map (fun consumer => (consumer.inFlight.entries.length, consumer.record.maxInFlight)) =
        some (2, 1) := by decide +kernel
  obtain ⟨consumer, found, counts⟩ := map_eq_some_iff.mp holding
  have within := bounded _ _ twoPending_idle run "c" consumer found
  obtain ⟨two, one⟩ := Prod.mk.inj counts
  omega

end DeliveryRun

end Morrow
