import Morrow.GuardedRuns
import Morrow.Sessions
import Morrow.Totals

/-!
# Tasks are accounted for

A task is reserved for every transient subscription and for every membership in a durable
consumer. What the connections hold is measured with a weight for each connection, so
that one fact about each command says both how the holdings of a tenant change and which
connections hold nothing. Tasks are given back when a client unsubscribes or leaves. They
are not given back when the last message of a limited subscription is delivered, only one
is given back when several memberships end at once, and one is given back for a
membership that stays when the deliveries after a subscribe fail.
-/

namespace Morrow

open Procedure OrderedMap Option

/-- The weight of one connection. -/
def only (id : ℕ) : ℕ → ℕ := fun other => if other = id then 1 else 0

def Consumer.memberWeight (weight : ℕ → ℕ) (consumer : Consumer) : ℕ :=
  consumer.members.total fun id _ => weight id

namespace DurableBrokerState

/-- The weight of all memberships. -/
def memberLoad (weight : ℕ → ℕ) (state : DurableBrokerState) : ℕ :=
  state.consumers.total fun _ consumer => consumer.memberWeight weight

section Members

variable {state : DurableBrokerState} {record : ConsumerRecord}
  {selected : List StreamDefinition} {weight : ℕ → ℕ} {connectionId : ℕ}

theorem memberLoad_insert (weight : ℕ → ℕ) (state : DurableBrokerState) (id : String)
    (consumer : Consumer) :
    memberLoad weight { state with consumers := state.consumers.insert id consumer } +
        ((state.consumers.get? id).elim 0 (Consumer.memberWeight weight)) =
      state.memberLoad weight + consumer.memberWeight weight :=
  total_insert _ _ _ _

theorem weight_of_insert (weight : ℕ → ℕ) (connectionId : ℕ) (consumer : Consumer)
    (member : SubscriptionMember) :
    ({ consumer with members := consumer.members.insert connectionId member }).memberWeight weight +
        (if consumer.members.contains connectionId then weight connectionId else 0) =
      consumer.memberWeight weight + weight connectionId := by
  have inserted := total_insert (fun id _ => weight id) consumer.members connectionId member
  rwa [weightAt_key] at inserted

theorem weight_of_erase (weight : ℕ → ℕ) (connectionId : ℕ) (consumer : Consumer) :
    ({ consumer with members := consumer.members.erase connectionId }).memberWeight weight +
        (if consumer.members.contains connectionId then weight connectionId else 0) =
      consumer.memberWeight weight := by
  have erased := total_erase (fun id _ => weight id) consumer.members connectionId
  rwa [weightAt_key] at erased

/-- Storing a consumer enrols nobody. -/
theorem memberLoad_upsert : (state.upsertConsumer record selected).memberLoad weight =
    state.memberLoad weight := by
  unfold upsertConsumer
  cases found : state.consumers.get? record.consumerId with
  | none =>
    have inserted := memberLoad_insert weight state record.consumerId
      (Consumer.fresh record (ConsumerCursorSet.new record.startPosition record.maxInFlight
        selected state.messages))
    rw [found] at inserted
    exact inserted
  | some existing =>
    have inserted := memberLoad_insert weight state record.consumerId
      { existing with
        record := record
        cursors := if existing.record.filterSubject ≠ record.filterSubject then
            { existing.cursors with frontiers := ∅ }
          else existing.cursors }
    rw [found] at inserted
    exact Nat.add_right_cancel inserted

theorem enrolled_upsert : (state.upsertConsumer record selected).enrolled record.consumerId
    connectionId = state.enrolled record.consumerId connectionId := by
  unfold enrolled upsertConsumer
  rw [get?_insert_self]
  cases state.consumers.get? record.consumerId with
  | none => rfl
  | some existing => rfl

theorem memberLoad_modifyConsumer {id : String} {update : Consumer → Consumer}
    (same : ∀ consumer, state.consumers.get? id = some consumer →
      (update consumer).memberWeight weight = consumer.memberWeight weight) :
    (state.modifyConsumer id update).memberLoad weight = state.memberLoad weight := by
  rw [modifyConsumer, OrderedMap.modify]
  cases found : state.consumers.get? id with
  | none => rfl
  | some consumer =>
    have inserted := memberLoad_insert weight state id (update consumer)
    rw [found, same consumer found] at inserted
    exact Nat.add_right_cancel inserted

theorem keeps_write_members {id : String} {loads : (ℕ → ℕ) → ℕ} {before : Bool}
    (update : BrokerWal → BrokerWal) : (write update).Keeps fun state =>
      (∀ weight, state.memberLoad weight = loads weight) ∧
        state.enrolled id connectionId = before :=
  keeps_write (fun _ _ held => held) update

end Members

end DurableBrokerState

namespace Sessions

open DurableBrokerState

section Joining

variable {record : ConsumerRecord} {selected : List StreamDefinition} {connectionId : ℕ}

/-- A connection that joins is one member more, unless it was one already. -/
theorem memberLoad_join (weight : ℕ → ℕ) (member : SubscriptionMember)
    (state : DurableBrokerState) :
    (join record selected connectionId member state).memberLoad weight +
        (if state.enrolled record.consumerId connectionId then weight connectionId else 0) =
      state.memberLoad weight + weight connectionId := by
  let stored := state.upsertConsumer record selected
  have present : ∃ consumer, stored.consumers.get? record.consumerId = some consumer :=
    ⟨_, get?_insert_self _ _ _⟩
  obtain ⟨consumer, found⟩ := present
  let joined := { consumer with members := consumer.members.insert connectionId member }
  have same : (join record selected connectionId member state).consumers =
      stored.consumers.insert record.consumerId joined := by
    rw [join, markConsumerReady_consumers]
    change stored.consumers.modify _ _ = _
    rw [OrderedMap.modify, found]
  have loadSame : (join record selected connectionId member state).memberLoad weight =
      memberLoad weight
        { stored with consumers := stored.consumers.insert record.consumerId joined } := by
    rw [memberLoad, memberLoad, same]
  have inserted := memberLoad_insert weight stored record.consumerId joined
  have grown : joined.memberWeight weight + _ = _ :=
    weight_of_insert weight connectionId consumer member
  have enrolledSame : stored.enrolled record.consumerId connectionId =
      state.enrolled record.consumerId connectionId := enrolled_upsert
  rw [enrolled, found, any_some] at enrolledSame
  rw [found, elim_some, show stored.memberLoad weight = state.memberLoad weight from
    memberLoad_upsert] at inserted
  rw [enrolledSame] at grown
  omega

/-- What stays as it is while a consumer is stored. -/
structure Stored (before : Sessions) (consumerId : String) (connectionId : ℕ)
    (after : Sessions) : Prop where
  rest : after = { before with inner := after.inner }
  members : ∀ weight, after.inner.memberLoad weight = before.inner.memberLoad weight
  enrolled : after.inner.enrolled consumerId connectionId =
    before.inner.enrolled consumerId connectionId

theorem Stored.refl (sessions : Sessions) (consumerId : String) (connectionId : ℕ) :
    Stored sessions consumerId connectionId sessions := ⟨rfl, fun _ => rfl, rfl⟩

theorem keeps_stored_onInner {before : Sessions} {consumerId : String} {α : Type}
    {call : Procedure DurableBrokerState α}
    (kept : ∀ (loads : (ℕ → ℕ) → ℕ) (enrolled_ : Bool), call.Keeps fun state =>
      (∀ weight, state.memberLoad weight = loads weight) ∧
        state.enrolled consumerId connectionId = enrolled_) :
    (onInner call).Keeps (Stored before consumerId connectionId) := by
  intro sessions stored
  obtain ⟨members, enrolled⟩ := kept _ _ sessions.inner ⟨stored.members, stored.enrolled⟩
  refine ⟨?_, members, enrolled⟩
  rw [onInner, stored.rest]

theorem keeps_stored_agree {before : Sessions} (world : SubscribeWorld) :
    (agreeOnConsumer record world).Keeps (Stored before record.consumerId connectionId) := by
  unfold agreeOnConsumer
  split
  · exact .await _
  · apply keeps_stored_onInner
    intro loads enrolled_
    refine .bind (keeps_write_members _) fun _ => .bind ?_ fun _ =>
      .bind (.read _) fun cursors => ?_
    · intro state held
      exact ⟨fun weight => memberLoad_upsert.trans (held.1 weight), enrolled_upsert.trans held.2⟩
    · cases cursors with
      | none => exact .pure ()
      | some cursors => exact keeps_write_members _

/-- Attaching fails before the connection has joined, or it ends as the deliveries do. -/
theorem attach_ends (member : SubscriptionMember) (world : SubscribeWorld) (before : Sessions) :
    (∃ middle failure, Stored before record.consumerId connectionId middle ∧
      attach record connectionId member world before = (middle, .error failure)) ∨
    ∃ middle, Stored before record.consumerId connectionId middle ∧
      attach record connectionId member world before =
        ({ middle with inner := join record world.selected connectionId member middle.inner },
          world.delivered) := by
  have agreed : Stored before record.consumerId connectionId
      (agreeOnConsumer record world before).1 :=
    keeps_stored_agree world before (.refl before _ _)
  cases first : agreeOnConsumer record world before with
  | mk middle outcome =>
    rw [first] at agreed
    cases outcome with
    | error failure =>
      exact .inl ⟨middle, failure, agreed, by rw [attach, bind_of_error first]⟩
    | ok done =>
      have flushed : Stored before record.consumerId connectionId (onInner flushDue middle).1 :=
        keeps_stored_onInner (fun _ _ => keeps_write_members id) middle agreed
      cases second : onInner flushDue middle with
      | mk last outcome =>
        rw [second] at flushed
        cases outcome with
        | error failure =>
          refine .inl ⟨last, failure, flushed, ?_⟩
          rw [attach, bind_of_ok first, bind_of_error second]
        | ok done =>
          refine .inr ⟨last, flushed, ?_⟩
          rw [attach, bind_of_ok first, bind_of_ok second]
          rfl

end Joining

/-! ### What the connections hold -/

/-- The weight of all transient subscriptions and memberships. -/
def load (weight : ℕ → ℕ) (sessions : Sessions) : ℕ :=
  sessions.transient.total (fun key _ => weight key.1) + sessions.inner.memberLoad weight

/-- The tasks accounted to a tenant. -/
def tasks (sessions : Sessions) (tenant : String) : ℕ := sessions.tenantQuotas.tasks tenant

/-- The command of a connection adds and removes subscriptions, and reserves and releases
as many tasks of a tenant. -/
structure Adjusts (before : Sessions) (connectionId : ℕ) (tenant : String) (added removed : ℕ)
    (after : Sessions) : Prop where
  access : after.access = before.access
  next : after.nextConnectionId = before.nextConnectionId
  load : ∀ weight, after.load weight + removed * weight connectionId =
    before.load weight + added * weight connectionId
  tasks : ∀ tested, after.tasks tested = before.tasks tested +
    (if tested = tenant then added else 0) - if tested = tenant then removed else 0

section Commands

variable {sessions : Sessions} {connectionId : ℕ} {tenant : String} {client : Client}
  {subject sid : String} {queue : Option String}

theorem Adjusts.refl (sessions : Sessions) (connectionId : ℕ) (tenant : String) :
    Adjusts sessions connectionId tenant 0 0 sessions :=
  ⟨rfl, rfl, fun _ => rfl, fun tested => by simp only [ite_self, Nat.add_zero, Nat.sub_zero]⟩

/-- The subscriptions of a connection grow with the tasks of its tenant. -/
def Grows (before : Sessions) (connectionId : ℕ) (tenant : String) (after : Sessions) : Prop :=
  ∃ added, Adjusts before connectionId tenant added 0 after

theorem Grows.refl (sessions : Sessions) (connectionId : ℕ) (tenant : String) :
    Grows sessions connectionId tenant sessions := ⟨0, .refl _ _ _⟩

/-- A reservation is refused, or the rest follows with one task more. -/
theorem after_reserve {message : String} {next : Unit → Procedure Sessions Unit}
    (rest : ∀ reserved : Sessions,
      reserved = { sessions with tenantQuotas := reserved.tenantQuotas } →
      (∀ tested, reserved.tasks tested = sessions.tasks tested + if tested = tenant then 1 else 0) →
      Grows sessions connectionId tenant (next () reserved).1) :
    Grows sessions connectionId tenant ((reserve tenant .task message >>= next) sessions).1 := by
  let reserved := { sessions with
    tenantQuotas := (sessions.tenantQuotas.tryReserve tenant .task).1 }
  have counted := fun tested => sessions.tenantQuotas.tasks_tryReserve tenant tested .task
  by_cases taken : (sessions.tenantQuotas.tryReserve tenant .task).2 = true
  · have called : reserve tenant .task message sessions = (reserved, .ok ()) := by
      rw [reserve, ensure_of taken]
    rw [bind_of_ok called]
    apply rest reserved rfl
    intro tested
    have after := counted tested
    simp only [taken, true_and] at after
    exact after
  · have called : reserve tenant .task message sessions = (reserved, .error (.error message)) := by
      rw [reserve, ensure_of_not taken]
    rw [bind_of_error called]
    refine ⟨0, rfl, rfl, fun _ => rfl, fun tested => ?_⟩
    have after := counted tested
    rw [if_neg (fun both => taken both.1)] at after
    simp only [ite_self, Nat.sub_zero]
    exact after

theorem load_insert_transient (sessions : Sessions) (weight : ℕ → ℕ) (key : ℕ ×ₗ String)
    (subscription : TransientSubscription) :
    load weight { sessions with transient := sessions.transient.insert key subscription } +
        (if sessions.transient.contains key then weight key.1 else 0) =
      sessions.load weight + weight key.1 := by
  have inserted := total_insert (fun key _ => weight key.1) sessions.transient key subscription
  rw [weightAt_key fun key : ℕ ×ₗ String => weight key.1] at inserted
  simp only [load]
  omega

theorem subscribeTransient_grows (start : StartPosition) :
    Grows sessions connectionId client.quotaTenant
      (subscribeTransient connectionId client subject queue sid start sessions).1 := by
  refine after_await (.refl _ _ _) fun _ _ => after_await (.refl _ _ _) fun _ _ => ?_
  rw [read_bind]
  have inserted := fun (state : Sessions) weight => load_insert_transient state weight
    (toLex (connectionId, sid)) ⟨subject, sid, none⟩
  by_cases fresh : sessions.transient.contains (toLex (connectionId, sid)) = false
  · rw [if_pos fresh]
    refine after_await (.refl _ _ _) fun _ _ => after_reserve fun reserved rest counted => ?_
    refine ⟨1, by rw [rest]; rfl, by rw [rest]; rfl, fun weight => ?_, fun tested => ?_⟩
    · have absent : reserved.transient.contains (toLex (connectionId, sid)) = false := by
        rw [rest]
        exact fresh
      have same : reserved.load weight = sessions.load weight := by rw [rest]; rfl
      have grown := inserted reserved weight
      rw [absent, same] at grown
      simp only [Nat.zero_mul, Nat.one_mul]
      exact grown
    · simp only [ite_self, Nat.sub_zero]
      exact counted tested
  · rw [if_neg fresh]
    refine ⟨0, rfl, rfl, ?_, (Adjusts.refl sessions connectionId _).tasks⟩
    intro weight
    have same := inserted sessions weight
    rw [if_pos (by simpa using fresh)] at same
    simp only [Nat.zero_mul, Nat.add_zero]
    exact Nat.add_right_cancel same

variable {before after : Sessions}

theorem Stored.load_eq {consumerId : String} (stored : Stored before consumerId connectionId after)
    (weight : ℕ → ℕ) :
    after.load weight = before.load weight := by
  have transient : after.transient = before.transient := by rw [stored.rest]
  rw [load, load, stored.members weight, transient]

theorem Stored.tasks_eq {consumerId : String} (stored : Stored before consumerId connectionId after)
    (tested : String) :
    after.tasks tested = before.tasks tested := by
  rw [stored.rest]
  rfl

theorem tasks_release (sessions : Sessions) (tenant : String) (request : TenantQuotaUsage)
    (tested : String) : (sessions.release tenant request).tasks tested =
      sessions.tasks tested - if tested = tenant then request.tasks else 0 :=
  sessions.tenantQuotas.tasks_release tenant tested request

section Attaching

variable {record : ConsumerRecord} {world : SubscribeWorld} {member : SubscriptionMember}

/-- Joining a consumer that was stored, measured by weights. -/
theorem Stored.load_join {before middle : Sessions}
    (stored : Stored before record.consumerId connectionId middle) (weight : ℕ → ℕ)
    (selected : List StreamDefinition) (member : SubscriptionMember) :
    load weight { middle with inner := join record selected connectionId member middle.inner } +
        (if before.inner.enrolled record.consumerId connectionId then weight connectionId else 0) =
      before.load weight + weight connectionId := by
  have joined : (join record selected connectionId member middle.inner).memberLoad weight + _ = _ :=
    memberLoad_join weight member middle.inner
  rw [stored.enrolled] at joined
  rw [← stored.load_eq weight, load, load]
  change middle.transient.total _ +
    (join record selected connectionId member middle.inner).memberLoad weight + _ = _
  omega

/-- A member that attaches again is no member more. -/
theorem attach_enrolled (tenant : String)
    (enrolled : sessions.inner.enrolled record.consumerId connectionId = true) :
    Grows sessions connectionId tenant (attach record connectionId member world sessions).1 := by
  rcases attach_ends member world sessions with ⟨middle, failure, stored, ended⟩ |
    ⟨middle, stored, ended⟩
  · rw [ended]
    refine ⟨0, by rw [stored.rest], by rw [stored.rest], fun weight => ?_, fun tested => ?_⟩
    · rw [stored.load_eq weight]
    · rw [stored.tasks_eq tested]
      exact (Adjusts.refl sessions connectionId tenant).tasks tested
  · rw [ended]
    refine ⟨0, by rw [stored.rest], by rw [stored.rest], fun weight => ?_, fun tested => ?_⟩
    · have joined := stored.load_join weight world.selected member
      rw [enrolled] at joined
      rw [Nat.add_right_cancel joined]
    · rw [← stored.tasks_eq tested]
      exact (Adjusts.refl middle connectionId tenant).tasks tested

/-- A connection that attaches uses the task that was reserved for it, or gives it back. -/
theorem attach_reserved {reserved : Sessions}
    (rest : reserved = { sessions with tenantQuotas := reserved.tenantQuotas })
    (counted : ∀ tested, reserved.tasks tested =
      sessions.tasks tested + if tested = tenant then 1 else 0)
    (fresh : sessions.inner.enrolled record.consumerId connectionId = false)
    (delivers : world.delivered = .ok ()) :
    Grows sessions connectionId tenant
      (orElse (attach record connectionId member world) (release tenant .task) reserved).1 := by
  have sameLoad : ∀ weight, reserved.load weight = sessions.load weight := by
    intro weight
    rw [rest]
    rfl
  have sameInner : reserved.inner = sessions.inner := by rw [rest]
  rcases attach_ends member world reserved with ⟨middle, failure, stored, ended⟩ |
    ⟨middle, stored, ended⟩
  · rw [orElse, ended]
    refine ⟨0, ?_, ?_, fun weight => ?_, fun tested => ?_⟩
    · change middle.access = _
      rw [stored.rest, rest]
    · change middle.nextConnectionId = _
      rw [stored.rest, rest]
    · rw [← sameLoad weight, ← stored.load_eq weight]
      rfl
    · rw [tasks_release, stored.tasks_eq, counted]
      simp only [TenantQuotaUsage.task]
      omega
  · rw [orElse, ended, delivers]
    refine ⟨1, ?_, ?_, fun weight => ?_, fun tested => ?_⟩
    · rw [stored.rest, rest]
    · rw [stored.rest, rest]
    · have joined := stored.load_join weight world.selected member
      rw [sameInner, fresh, sameLoad] at joined
      simpa using joined
    · have after := stored.tasks_eq tested
      rw [counted] at after
      simp only [ite_self]
      exact after

end Attaching

theorem subscribeDurable_grows {durableId : String} (start : StartPosition)
    {world : SubscribeWorld} (delivers : world.delivered = .ok () ∨
      sessions.inner.enrolled (consumerId durableId queue subject sid) connectionId = true) :
    Grows sessions connectionId client.quotaTenant
      (subscribeDurable connectionId client durableId subject queue sid start world
        sessions).1 := by
  refine after_await (.refl _ _ _) fun _ _ => ?_
  by_cases member : sessions.inner.enrolled (consumerId durableId queue subject sid)
      connectionId = true
  · rw [if_pos member]
    exact attach_enrolled client.quotaTenant member
  · rw [if_neg member]
    refine after_reserve fun reserved rest counted => ?_
    exact attach_reserved rest counted (by simpa using member) (delivers.resolve_right member)

/-! ### The end of subscriptions -/

theorem memberLoad_changeMembers (weight : ℕ → ℕ) (change : Consumer → Consumer) :
    (sessions.changeMembers connectionId sid change).inner.memberLoad weight =
      sessions.inner.consumers.total fun _ consumer =>
        (if membersWith connectionId sid consumer then change consumer
          else consumer).memberWeight weight :=
  total_mapValues (fun _ (consumer : Consumer) => consumer.memberWeight weight)
    sessions.inner.consumers fun _ consumer =>
      if membersWith connectionId sid consumer then change consumer else consumer

/-- A limit ends nothing yet. -/
theorem limitSubscriptions_load (weight : ℕ → ℕ) (limit : ℕ) :
    (sessions.limitSubscriptions connectionId sid limit).load weight = sessions.load weight := by
  have members : (sessions.limitSubscriptions connectionId sid limit).inner.memberLoad weight =
      sessions.inner.memberLoad weight := by
    refine (memberLoad_changeMembers weight _).trans (total_congr ?_)
    intro _ consumer _
    split
    · exact total_modify fun _ => rfl
    · rfl
  have transient : (sessions.limitSubscriptions connectionId sid limit).transient.total
      (fun key _ => weight key.1) = sessions.transient.total fun key _ => weight key.1 :=
    total_modify fun _ => rfl
  rw [load, load, members, transient]

/-- The consumers that a connection leaves when it gives up a subscription id. -/
def leaves (connectionId : ℕ) (sid : String) (sessions : Sessions) : ℕ :=
  sessions.inner.consumers.values.countP (membersWith connectionId sid)

theorem contains_of_membersWith {consumer : Consumer}
    (member : membersWith connectionId sid consumer = true) :
    consumer.members.contains connectionId = true := by
  rw [contains]
  cases found : consumer.members.get? connectionId with
  | none => simp [membersWith, found] at member
  | some other => rfl

theorem releaseTaskIf_rest (ended : Bool) (tenant : Option String) (sessions : Sessions) :
    sessions.releaseTaskIf ended tenant = { sessions with
      tenantQuotas := (sessions.releaseTaskIf ended tenant).tenantQuotas } := by
  unfold releaseTaskIf
  split <;> rfl

theorem releaseTaskIf_tasks (ended : Bool) (tenant tested : String) (sessions : Sessions) :
    (sessions.releaseTaskIf ended (some tenant)).tasks tested =
      sessions.tasks tested - if tested = tenant then (if ended then 1 else 0) else 0 := by
  cases ended with
  | false => simp [releaseTaskIf]
  | true => exact tasks_release sessions tenant .task tested

theorem withoutSid_members (sessions : Sessions) (connectionId : ℕ) (sid : String)
    (weight : ℕ → ℕ) :
    (sessions.withoutSid connectionId sid).inner.memberLoad weight +
      sessions.leaves connectionId sid * weight connectionId =
        sessions.inner.memberLoad weight := by
  have each : ∀ (_ : String) (consumer : Consumer),
      (if membersWith connectionId sid consumer then
          { consumer with members := consumer.members.erase connectionId }
        else consumer).memberWeight weight +
        (if membersWith connectionId sid consumer then weight connectionId else 0) =
      consumer.memberWeight weight := by
    intro _ consumer
    by_cases member : membersWith connectionId sid consumer = true
    · have erased := weight_of_erase weight connectionId consumer
      rw [if_pos (contains_of_membersWith member)] at erased
      rw [if_pos member, if_pos member]
      exact erased
    · rw [if_neg member, if_neg member, Nat.add_zero]
  rw [leaves, countP_values]
  refine (congrArg (· + _) (memberLoad_changeMembers weight _)).trans ?_
  exact total_add_count each

theorem withoutSid_transient (sessions : Sessions) (connectionId : ℕ) (sid : String)
    (weight : ℕ → ℕ) :
    (sessions.withoutSid connectionId sid).transient.total (fun key _ => weight key.1) +
      (if sessions.hasTransient connectionId sid then weight connectionId else 0) =
        sessions.transient.total fun key _ => weight key.1 := by
  have erased := total_erase (fun key _ => weight key.1) sessions.transient
    (toLex (connectionId, sid))
  rwa [weightAt_key fun key : ℕ ×ₗ String => weight key.1] at erased

/-- What ends is one transient subscription and a membership in each of the consumers. -/
theorem endSubscriptions_load (sessions : Sessions) (connectionId : ℕ) (sid : String)
    (weight : ℕ → ℕ) :
    (sessions.endSubscriptions connectionId sid).load weight +
        ((if sessions.hasTransient connectionId sid then 1 else 0) +
          sessions.leaves connectionId sid) * weight connectionId = sessions.load weight := by
  have same : (sessions.endSubscriptions connectionId sid).load weight =
      (sessions.withoutSid connectionId sid).load weight := by
    unfold endSubscriptions
    rw [releaseTaskIf_rest, releaseTaskIf_rest]
    rfl
  have members := withoutSid_members sessions connectionId sid weight
  have transient := withoutSid_transient sessions connectionId sid weight
  rw [same, load, load, Nat.add_mul]
  split at transient
  · rw [if_pos ‹_›]
    omega
  · rw [if_neg ‹_›]
    omega

theorem leaves_pos_iff :
    0 < sessions.leaves connectionId sid ↔ sessions.hasDurable connectionId sid = true := by
  rw [leaves, List.countP_pos_iff, hasDurable, List.any_eq_true]

/-- A connection that leaves at most one consumer gets back what it gives up. -/
theorem endSubscriptions_adjusts (found : sessions.access.clients.get? connectionId = some client)
    (single : sessions.leaves connectionId sid ≤ 1) :
    ∃ removed, Adjusts sessions connectionId client.quotaTenant 0 removed
      (sessions.endSubscriptions connectionId sid) := by
  have durable : sessions.leaves connectionId sid =
      if sessions.hasDurable connectionId sid then 1 else 0 := by
    by_cases member : sessions.hasDurable connectionId sid = true
    · have some_ := leaves_pos_iff.mpr member
      rw [if_pos member]
      omega
    · have none : ¬ 0 < sessions.leaves connectionId sid := fun some_ =>
        member (leaves_pos_iff.mp some_)
      rw [if_neg member]
      omega
  let removed := (if sessions.hasTransient connectionId sid then 1 else 0) +
    if sessions.hasDurable connectionId sid then 1 else 0
  refine ⟨removed, ?_, ?_, fun weight => ?_, fun tested => ?_⟩
  · unfold endSubscriptions
    rw [releaseTaskIf_rest, releaseTaskIf_rest]
    rfl
  · unfold endSubscriptions
    rw [releaseTaskIf_rest, releaseTaskIf_rest]
    rfl
  · have load := endSubscriptions_load sessions connectionId sid weight
    rw [durable] at load
    rw [Nat.zero_mul]
    exact load
  · unfold endSubscriptions
    rw [found, map_some, releaseTaskIf_tasks, releaseTaskIf_tasks]
    change sessions.tasks tested - _ - _ = _
    by_cases own : tested = client.quotaTenant
    · simp only [if_pos own]
      omega
    · simp only [if_neg own]
      omega

/-- A transient subscription that is not at its end goes on. -/
theorem decrementSubscription_load (continues : ∀ subscription remaining,
      sessions.transient.get? (toLex (connectionId, sid)) = some subscription →
      subscription.remainingDeliveries = some remaining → 1 < remaining) (weight : ℕ → ℕ) :
    (sessions.decrementSubscription connectionId sid).load weight = sessions.load weight := by
  cases found : sessions.transient.get? (toLex (connectionId, sid)) with
  | none => simp only [decrementSubscription, found]
  | some subscription =>
    have more : subscription.remainingDeliveries.map (· - 1) ≠ some 0 := by
      intro last
      obtain ⟨remaining, limited, ends⟩ := map_eq_some_iff.mp last
      have bound := continues subscription remaining found limited
      omega
    have inserted := load_insert_transient sessions weight (toLex (connectionId, sid))
      { subscription with remainingDeliveries := subscription.remainingDeliveries.map (· - 1) }
    rw [contains, found] at inserted
    simp only [decrementSubscription, found, if_neg more]
    exact Nat.add_right_cancel inserted

/-- A member that is not at its end stays. -/
theorem consumeDurableMember_load {consumerId : String} {payloadBytes : ℕ}
    (continues : ∀ consumer member remaining,
      sessions.inner.consumers.get? consumerId = some consumer →
      consumer.members.get? connectionId = some member →
      member.remainingDeliveries = some remaining → 1 < remaining) (weight : ℕ → ℕ) :
    (sessions.consumeDurableMember consumerId connectionId payloadBytes).load weight =
      sessions.load weight := by
  have members : (sessions.inner.consumeDurableMember consumerId connectionId
      payloadBytes).memberLoad weight = sessions.inner.memberLoad weight := by
    apply memberLoad_modifyConsumer
    intro consumer found
    cases joined : consumer.members.get? connectionId with
    | none => rfl
    | some member =>
      have more : member.remainingDeliveries.map (· - 1) ≠ some 0 := by
        intro last
        obtain ⟨remaining, limited, ends⟩ := map_eq_some_iff.mp last
        have bound := continues consumer member remaining found joined limited
        omega
      simp only [if_neg more]
      have inserted := weight_of_insert weight connectionId consumer
        { member with
          creditMessages := member.creditMessages - 1
          creditBytes := member.creditBytes - payloadBytes
          remainingDeliveries := member.remainingDeliveries.map (· - 1) }
      rw [contains, joined] at inserted
      exact Nat.add_right_cancel inserted
  rw [load, load, consumeDurableMember, members]

end Commands

end Sessions

end Morrow
