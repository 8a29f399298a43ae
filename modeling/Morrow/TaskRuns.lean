import Morrow.TaskAccounts

/-!
# The tasks of a tenant in every run

Connections come, subscribe, unsubscribe, are delivered messages and go. The tasks of a
tenant are the subscriptions that its connections hold, as long as no subscription ends
by its limit, no subscription id is given up that has several memberships, and no new
member is left behind by deliveries that fail.
-/

namespace Morrow

open Procedure GuardedRuns OrderedMap Option

namespace Sessions

/-- One, for the connections of a tenant. -/
def belongs (clients : OrderedMap ℕ Client) (tenant : String) (id : ℕ) : ℕ :=
  if (clients.get? id).map Client.quotaTenant = some tenant then 1 else 0

variable (sessions : Sessions)

/-- The transient subscriptions and the memberships that the connections of a tenant
hold. -/
def held (tenant : String) : ℕ :=
  sessions.load (belongs sessions.access.clients tenant)

/-- The tasks accounted to each tenant are the subscriptions its connections hold. -/
def Accounted : Prop :=
  ∀ tenant, sessions.tasks tenant = sessions.held tenant

/-- A connection that is not there, or not let in. -/
def Excluded (id : ℕ) : Prop :=
  ∀ client, sessions.access.clients.get? id = some client →
    sessions.access.auth.enabled = true ∧ client.authenticated = false

/-- Tasks are accounted for, and connections that are not let in hold nothing. -/
structure Settled (sessions : Sessions) : Prop where
  accounted : sessions.Accounted
  idle : ∀ id, sessions.Excluded id → sessions.load (only id) = 0
  fresh : ∀ id, sessions.nextConnectionId ≤ id → sessions.access.clients.get? id = none
  taskless : ∀ id client, sessions.access.clients.get? id = some client →
    client.quotaUsage.tasks = 0
  unconfigured : ∀ id client, sessions.access.clients.get? id = some client →
    client.configured = false → client.authenticated = false ∧ client.quotaTenant = defaultTenant

/-! ### Measures and connections -/

section Measures

variable {sessions : Sessions} {first second : ℕ → ℕ}

theorem memberLoad_congr {state : DurableBrokerState}
    (same : ∀ id, first id ≠ second id → state.memberLoad (only id) = 0) :
    state.memberLoad first = state.memberLoad second := by
  apply total_congr
  intro consumerId consumer found
  apply total_congr
  intro id member joined
  by_contra differ
  have none := same id differ
  have inside := weightAt_le_total
    (fun _ (consumer : Consumer) => consumer.memberWeight (only id)) state.consumers consumerId
  have one := weightAt_le_total (fun other (_ : SubscriptionMember) => only id other)
    consumer.members id
  rw [OrderedMap.weightAt, found, elim_some] at inside
  rw [OrderedMap.weightAt, joined, elim_some, only, if_pos rfl] at one
  rw [DurableBrokerState.memberLoad] at none
  rw [Consumer.memberWeight] at inside
  omega

/-- Only the weights of connections that hold something count. -/
theorem load_congr (same : ∀ id, first id ≠ second id → sessions.load (only id) = 0) :
    sessions.load first = sessions.load second := by
  have members : sessions.inner.memberLoad first = sessions.inner.memberLoad second := by
    apply memberLoad_congr
    intro id differ
    have none := same id differ
    rw [load] at none
    omega
  have transient : sessions.transient.total (fun key _ => first key.1) =
      sessions.transient.total fun key _ => second key.1 := by
    apply total_congr
    intro key subscription found
    by_contra differ
    have none := same key.1 differ
    have one := weightAt_le_total
      (fun other (_ : TransientSubscription) => only key.1 other.1) sessions.transient key
    rw [OrderedMap.weightAt, found, elim_some, only, if_pos rfl] at one
    rw [load] at none
    omega
  rw [load, load, members, transient]

theorem belongs_of_get? {clients : OrderedMap ℕ Client} {id : ℕ} {client : Client}
    (found : clients.get? id = some client) (tenant : String) :
    belongs clients tenant id = if tenant = client.quotaTenant then 1 else 0 := by
  rw [belongs, found, map_some]
  by_cases own : tenant = client.quotaTenant
  · rw [if_pos own, own, if_pos rfl]
  · rw [if_neg own, if_neg]
    exact fun same => own (some.inj same).symm

end Measures

section Steps

variable {sessions before after : Sessions} {connectionId : ℕ} {client : Client}

/-- What a connection adds and removes with its tasks leaves the sessions settled. -/
theorem Adjusts.settled {added removed : ℕ}
    (adjusts : Adjusts before connectionId client.quotaTenant added removed after)
    (settled : before.Settled) (found : before.access.clients.get? connectionId = some client)
    (admitted : added = 0 ∨ ¬ before.Excluded connectionId) : after.Settled := by
  have access := adjusts.access
  refine ⟨fun tenant => ?_, fun id excluded => ?_, ?_, ?_, ?_⟩
  · have counted := adjusts.tasks tenant
    have loaded := adjusts.load (belongs before.access.clients tenant)
    have same := settled.accounted tenant
    rw [belongs_of_get? found] at loaded
    rw [held] at same ⊢
    rw [access]
    by_cases own : tenant = client.quotaTenant
    · simp only [if_pos own] at counted loaded
      omega
    · simp only [if_neg own] at counted loaded
      omega
  · have excludedBefore : before.Excluded id := by
      unfold Excluded at excluded ⊢
      rwa [access] at excluded
    have none := settled.idle id excludedBefore
    have loaded := adjusts.load (only id)
    by_cases own : connectionId = id
    · rcases admitted with nothing | notExcluded
      · rw [nothing] at loaded
        omega
      · exact absurd (own ▸ excludedBefore) notExcluded
    · rw [only, if_neg own] at loaded
      omega
  · rw [access, adjusts.next]
    exact settled.fresh
  · rw [access]
    exact settled.taskless
  · rw [access]
    exact settled.unconfigured

/-- What keeps the loads and the tasks leaves the sessions settled. -/
theorem Settled.of_same (settled : before.Settled) (access : after.access = before.access)
    (next : after.nextConnectionId = before.nextConnectionId)
    (load : ∀ weight, after.load weight = before.load weight)
    (tasks : ∀ tenant, after.tasks tenant = before.tasks tenant) : after.Settled := by
  refine ⟨fun tenant => ?_, fun id excluded => ?_, ?_, ?_, ?_⟩
  · rw [tasks, held, load, access]
    exact settled.accounted tenant
  · rw [load]
    apply settled.idle
    unfold Excluded at excluded ⊢
    rwa [access] at excluded
  · rw [access, next]
    exact settled.fresh
  · rw [access]
    exact settled.taskless
  · rw [access]
    exact settled.unconfigured

/-- A connection that held nothing may be replaced by another one. -/
theorem Settled.of_clients (settled : before.Settled) {id : ℕ} {replaced : Option Client}
    (rest : after = before.setClients after.access.clients)
    (others : ∀ other, other ≠ id → after.access.clients.get? other =
      before.access.clients.get? other)
    (there : after.access.clients.get? id = replaced)
    (same : before.load (only id) ≠ 0 →
      (before.access.clients.get? id).map Client.quotaTenant = replaced.map Client.quotaTenant)
    (excluded : after.Excluded id → before.load (only id) = 0)
    (fresh : before.nextConnectionId ≤ id → replaced = none)
    (valid : ∀ client, replaced = some client → client.quotaUsage.tasks = 0 ∧
      (client.configured = false → client.authenticated = false ∧
        client.quotaTenant = defaultTenant)) : after.Settled := by
  have load : ∀ weight, after.load weight = before.load weight := by
    intro weight
    rw [rest]
    rfl
  have tasks : ∀ tenant, after.tasks tenant = before.tasks tenant := by
    intro tenant
    rw [rest]
    rfl
  have clientsSame : ∀ other client, after.access.clients.get? other = some client →
      other = id ∧ replaced = some client ∨ before.access.clients.get? other = some client := by
    intro other client found
    by_cases own : other = id
    · rw [own, there] at found
      exact .inl ⟨own, found⟩
    · rw [others other own] at found
      exact .inr found
  refine ⟨fun tenant => ?_, fun other shut => ?_, fun other late => ?_,
    fun other client found => ?_,
    fun other client found unset => ?_⟩
  · rw [tasks, held, load, settled.accounted tenant]
    apply load_congr
    intro other differ
    by_contra some_
    by_cases own : other = id
    · rw [own] at differ some_
      apply differ
      rw [belongs, belongs, there, same some_]
    · exact differ (by rw [belongs, belongs, others other own])
  · rw [load]
    by_cases own : other = id
    · rw [own] at shut ⊢
      exact excluded shut
    · apply settled.idle
      intro client found
      have outside := shut client ((others other own).trans found)
      rw [rest] at outside
      exact outside
  · have late : before.nextConnectionId ≤ other := by
      rw [rest] at late
      exact late
    by_cases own : other = id
    · rw [own] at late ⊢
      rw [there, fresh late]
    · rw [others other own]
      exact settled.fresh other late
  · rcases clientsSame other client found with ⟨_, new⟩ | old
    · exact (valid client new).1
    · exact settled.taskless other client old
  · rcases clientsSame other client found with ⟨_, new⟩ | old
    · exact (valid client new).2 unset
    · exact settled.unconfigured other client old unset

/-! ### Commands -/

variable {tenant : String} {usage : TenantQuotaUsage}

section

variable (settled : sessions.Settled)

include settled

theorem Settled.reserve_connection {message : String}
    (taskless : usage.tasks = 0) :
    ((reserve tenant usage message) sessions).1.Settled := by
  refine settled.of_same rfl rfl (fun _ => rfl) fun tested => ?_
  have counted := sessions.tenantQuotas.tasks_tryReserve tenant tested usage
  rw [taskless, ite_self] at counted
  exact counted

theorem Settled.release_connection (taskless : usage.tasks = 0) :
    (sessions.release tenant usage).Settled := by
  refine settled.of_same rfl rfl (fun _ => rfl) fun tested => ?_
  rw [tasks_release, taskless, ite_self, Nat.sub_zero]

/-- A connection that is not there yet is added. -/
theorem Settled.insert_client {id : ℕ}
    (absent : sessions.access.clients.get? id = none) (used : id < sessions.nextConnectionId)
    (taskless : usage.tasks = 0) :
    (sessions.setClients (sessions.access.clients.insert id
      ⟨false, none, false, 30000, 1024, 1, defaultTenant, usage⟩)).Settled := by
  have nothing : sessions.load (only id) = 0 := by
    apply settled.idle
    intro client found
    rw [absent] at found
    cases found
  refine settled.of_clients rfl (fun other distinct => get?_insert_of_ne _ _ distinct)
    (get?_insert_self _ _ _) (absurd nothing) (fun _ => nothing)
    (fun late => absurd used (Nat.not_lt.mpr late)) ?_
  intro client same
  cases same
  exact ⟨taskless, fun _ => ⟨rfl, rfl⟩⟩

theorem Settled.addClient : (addClient sessions).1.Settled := by
  let numbered := { sessions with nextConnectionId := sessions.nextConnectionId + 1 }
  have settledNumbered : numbered.Settled :=
    ⟨settled.accounted, settled.idle, fun id late => settled.fresh id (Nat.le_of_succ_le late),
      settled.taskless, settled.unconfigured⟩
  let usage : TenantQuotaUsage := ⟨1, sessions.quotas.maxOutboundBytesPerConnection, 0, 0, 0⟩
  have reservedSettled : ((reserve defaultTenant usage "tenant connection quota exceeded")
      numbered).1.Settled := settledNumbered.reserve_connection rfl
  rw [Sessions.addClient, read_bind, change_bind, read_bind]
  change ((reserve defaultTenant usage _ >>= _) numbered).1.Settled
  cases called : reserve defaultTenant usage "tenant connection quota exceeded" numbered with
  | mk reserved outcome =>
    have clients : reserved.access = sessions.access ∧
        reserved.nextConnectionId = sessions.nextConnectionId + 1 := by
      have first : _ = reserved := congrArg Prod.fst called
      rw [← first]
      exact ⟨rfl, rfl⟩
    rw [called] at reservedSettled
    cases outcome with
    | error failure =>
      rw [bind_of_error called]
      exact reservedSettled
    | ok done =>
      rw [bind_of_ok called, read_bind]
      split
      · exact reservedSettled.release_connection rfl
      · apply reservedSettled.insert_client _ _ rfl
        · rw [clients.1]
          exact settled.fresh _ le_rfl
        · rw [clients.2]
          exact Nat.lt_succ_self _

end

/-- Where clients have to authenticate, an identity is authenticated, and elsewhere it is
of the default tenant. -/
theorem identify_ok {access : AccessControl} {request : ConnectRequest} {identity : Identity}
    (identified : identify access request = .ok identity) :
    (access.auth.enabled = false → identity.quotaTenant = defaultTenant) ∧
      (access.auth.enabled = true → identity.authenticated = true) := by
  unfold identify at identified
  by_cases disabled : access.auth.enabled = false
  · rw [if_pos disabled] at identified
    cases identified
    exact ⟨fun _ => rfl, fun enabled => absurd (disabled.symm.trans enabled) (by decide)⟩
  · rw [if_neg disabled] at identified
    obtain ⟨auth, _, identified⟩ := bind_eq_ok.mp identified
    obtain ⟨config, _, identified⟩ := bind_eq_ok.mp identified
    obtain ⟨_, _, identified⟩ := bind_eq_ok.mp identified
    obtain ⟨_, _, identified⟩ := bind_eq_ok.mp identified
    obtain ⟨_, _, identified⟩ := bind_eq_ok.mp identified
    cases identified
    exact ⟨fun off => absurd off disabled, fun _ => rfl⟩

theorem transferClient_ends (sessions : Sessions) (client : Client) (tenant : String)
    (taskless : client.quotaUsage.tasks = 0) :
    ∃ moved outcome, transferClient client tenant sessions = (moved, outcome) ∧
      moved = { sessions with tenantQuotas := moved.tenantQuotas } ∧
      ∀ tested, moved.tasks tested = sessions.tasks tested := by
  unfold transferClient
  split
  · exact ⟨sessions, _, rfl, rfl, fun _ => rfl⟩
  · refine ⟨_, _, rfl, rfl, fun tested => ?_⟩
    exact sessions.tenantQuotas.tasks_transfer tested client.quotaUsage defaultTenant tenant
      taskless

theorem Settled.configureClient (settled : sessions.Settled) (id : ℕ)
    (request : ConnectRequest) : (configureClient id request sessions).1.Settled := by
  rw [Sessions.configureClient, read_bind]
  refine after_await settled fun _ _ => after_await settled fun _ _ =>
    after_await settled fun _ _ => after_await settled fun _ _ =>
    after_await settled fun _ _ => after_await settled fun _ _ => ?_
  rw [read_bind]
  refine after_await settled fun client found => after_await settled fun _ unset =>
    after_await settled fun identity identified => after_await settled fun _ _ => ?_
  have present := okOr_eq_ok.mp found
  have notYet := settled.unconfigured id client present (ensure_eq_ok.mp unset)
  have taskless := settled.taskless id client present
  obtain ⟨moved, outcome, called, rest, tasks⟩ := transferClient_ends sessions client
    identity.quotaTenant taskless
  have access : moved.access = sessions.access := by rw [rest]
  have movedSettled : moved.Settled :=
    settled.of_same access (by rw [rest]) (fun _ => by rw [rest]; rfl) tasks
  cases outcome with
  | error failure =>
    rw [bind_of_error called]
    exact movedSettled
  | ok done =>
    rw [bind_of_ok called]
    have found : moved.access.clients.get? id = some client := by rw [access]; exact present
    have holdsNothing : moved.access.auth.enabled = true → moved.load (only id) = 0 := by
      intro enabled
      apply movedSettled.idle
      intro other same
      rw [found] at same
      cases same
      exact ⟨enabled, notYet.1⟩
    rw [← access] at identified
    refine movedSettled.of_clients rfl
      (fun other distinct => get?_insert_of_ne _ _ distinct)
      (get?_insert_self _ _ _) ?_ ?_ ?_ ?_
    · intro some_
      have disabled : moved.access.auth.enabled = false := by
        by_contra enabled
        exact some_ (holdsNothing (by simpa using enabled))
      rw [found, map_some, map_some, notYet.2, (identify_ok identified).1 disabled]
    · intro shut
      exact holdsNothing (shut _ (get?_insert_self _ _ _)).1
    · intro late
      rw [movedSettled.fresh id late] at found
      cases found
    · intro other same
      cases same
      exact ⟨taskless, nofun⟩

variable {subject sid : String}

/-- A subscription is admitted for a connection that is let in. -/
theorem not_excluded_of_admitted {queue : Option String}
    (admitted : admitSubscription sessions.access connectionId subject queue sid = .ok client) :
    ¬ sessions.Excluded connectionId := by
  intro excluded
  have found := get?_of_admitted admitted
  obtain ⟨enabled, unknown⟩ := excluded client found
  obtain ⟨_, _, admitted⟩ := Morrow.bind_eq_ok.mp admitted
  obtain ⟨_, allowed, _⟩ := Morrow.bind_eq_ok.mp admitted
  rw [AccessControl.checkSubscribeAuthorization, AccessControl.checkAuthorization,
    if_neg (by simp [enabled]), found] at allowed
  obtain ⟨other, same, allowed⟩ := Morrow.bind_eq_ok.mp allowed
  cases same
  obtain ⟨_, authenticated, _⟩ := Morrow.bind_eq_ok.mp allowed
  rw [unknown] at authenticated
  cases authenticated

/-- No new member is left behind when the deliveries after a subscription fail. -/
def Delivers (connectionId : ℕ) (subject : String) (queue : Option String) (sid : String)
    (world : SubscribeWorld) (sessions : Sessions) : Prop :=
  world.delivered = .ok () ∨ ∃ client durableId,
    sessions.access.clients.get? connectionId = some client ∧ client.durableId = some durableId ∧
      sessions.inner.enrolled (consumerId durableId queue subject sid) connectionId = true

theorem Settled.subscribe (settled : sessions.Settled) {queue : Option String}
    (start : StartPosition) {world : SubscribeWorld}
    (delivers : sessions.Delivers connectionId subject queue sid world) :
    (subscribe connectionId subject queue sid start world sessions).1.Settled := by
  rcases subscribe_cases connectionId subject queue sid start world sessions with
    refused | ⟨client, admitted, transient | ⟨durableId, identity, durable⟩⟩
  · rw [refused]
    exact settled
  · rw [transient]
    obtain ⟨added, adjusts⟩ : Grows sessions connectionId client.quotaTenant
        (subscribeTransient connectionId client subject queue sid start sessions).1 :=
      subscribeTransient_grows start
    exact adjusts.settled settled (get?_of_admitted admitted)
      (.inr (not_excluded_of_admitted admitted))
  · rw [durable]
    have found := get?_of_admitted admitted
    have joined : world.delivered = .ok () ∨
        sessions.inner.enrolled (consumerId durableId queue subject sid) connectionId = true := by
      rcases delivers with ends | ⟨other, named, same, known, enrolled⟩
      · exact .inl ends
      · rw [found] at same
        cases same
        rw [identity] at known
        cases known
        exact .inr enrolled
    obtain ⟨added, adjusts⟩ : Grows sessions connectionId client.quotaTenant
        (subscribeDurable connectionId client durableId subject queue sid start world
          sessions).1 := subscribeDurable_grows start joined
    exact adjusts.settled settled found (.inr (not_excluded_of_admitted admitted))

theorem Settled.unsubscribe (settled : sessions.Settled) {maxMessages : Option ℕ}
    (single : maxMessages = none → sessions.leaves connectionId sid ≤ 1) :
    (unsubscribe connectionId sid maxMessages sessions).1.Settled := by
  rw [Sessions.unsubscribe]
  refine after_await settled fun _ _ => ?_
  rw [read_bind, change_bind]
  cases maxMessages with
  | some limit =>
    exact settled.of_same rfl rfl (fun weight => limitSubscriptions_load weight limit) fun _ => rfl
  | none =>
    change (sessions.endSubscriptions connectionId sid).Settled
    cases found : sessions.access.clients.get? connectionId with
    | some client =>
      obtain ⟨removed, adjusts⟩ := endSubscriptions_adjusts found (single rfl)
      exact adjusts.settled settled found (.inl rfl)
    | none =>
      have nothing : sessions.load (only connectionId) = 0 := by
        apply settled.idle
        intro client same
        rw [found] at same
        cases same
      have ended := endSubscriptions_load sessions connectionId sid
      have none : (if sessions.hasTransient connectionId sid then 1 else 0) +
          sessions.leaves connectionId sid = 0 := by
        have own := ended (only connectionId)
        rw [nothing, only, if_pos rfl, Nat.mul_one] at own
        omega
      have same : ∀ tested, (sessions.endSubscriptions connectionId sid).tasks tested =
          sessions.tasks tested := by
        intro tested
        unfold endSubscriptions
        rw [found]
        rfl
      refine settled.of_same ?_ ?_ (fun weight => ?_) same
      · rw [endSubscriptions, releaseTaskIf_rest, releaseTaskIf_rest]
        rfl
      · rw [endSubscriptions, releaseTaskIf_rest, releaseTaskIf_rest]
        rfl
      · have weighed := ended weight
        rw [none, Nat.zero_mul] at weighed
        exact weighed

/-! ### The end of a connection -/

/-- The subscriptions of a connection. -/
def heldBy (connectionId : ℕ) (sessions : Sessions) : ℕ :=
  sessions.transient.keys.countP (fun key => decide (key.1 = connectionId)) +
    sessions.inner.consumers.values.countP fun consumer => consumer.members.contains connectionId

/-- The sessions without the subscriptions of a connection. -/
def withoutSubscriptions (connectionId : ℕ) (sessions : Sessions) : Sessions :=
  { sessions with
    transient := sessions.transient.retain fun key _ => decide (key.1 ≠ connectionId)
    inner := { sessions.inner with
      consumers := sessions.inner.consumers.mapValues fun _ consumer =>
        { consumer with members := consumer.members.erase connectionId } } }

theorem withoutSubscriptions_members (sessions : Sessions) (connectionId : ℕ)
    (weight : ℕ → ℕ) :
    (sessions.withoutSubscriptions connectionId).inner.memberLoad weight +
      (sessions.inner.consumers.values.countP fun consumer =>
        consumer.members.contains connectionId) * weight connectionId =
      sessions.inner.memberLoad weight := by
  rw [countP_values]
  refine (congrArg (· + _) (total_mapValues
    (fun _ (consumer : Consumer) => consumer.memberWeight weight) _ _)).trans ?_
  exact total_add_count fun _ consumer =>
    DurableBrokerState.weight_of_erase weight connectionId consumer

theorem withoutSubscriptions_transient (sessions : Sessions) (connectionId : ℕ)
    (weight : ℕ → ℕ) :
    (sessions.withoutSubscriptions connectionId).transient.total (fun key _ => weight key.1) +
      (sessions.transient.keys.countP fun key => decide (key.1 = connectionId)) *
        weight connectionId =
      sessions.transient.total fun key _ => weight key.1 := by
  have retained := total_retain
    (fun (key : ℕ ×ₗ String) (_ : TransientSubscription) => weight key.1) sessions.transient
    fun key _ => decide (key.1 ≠ connectionId)
  have each : ∀ (key : ℕ ×ₗ String) (_ : TransientSubscription),
      (if decide (key.1 ≠ connectionId) = true then weight key.1 else 0) +
        (if decide (key.1 = connectionId) = true then weight connectionId else 0) =
      weight key.1 := by
    intro key _
    by_cases own : key.1 = connectionId
    · simp [own]
    · simp [own]
  rw [OrderedMap.keys, List.countP_map]
  exact (congrArg (· + _) retained).trans (total_add_count each)

theorem withoutSubscriptions_load (sessions : Sessions) (connectionId : ℕ) (weight : ℕ → ℕ) :
    (sessions.withoutSubscriptions connectionId).load weight +
      sessions.heldBy connectionId * weight connectionId = sessions.load weight := by
  have members := withoutSubscriptions_members sessions connectionId weight
  have transient := withoutSubscriptions_transient sessions connectionId weight
  rw [load, load, heldBy, Nat.add_mul]
  omega

/-- Nothing is left of a connection's subscriptions. -/
theorem withoutSubscriptions_only (sessions : Sessions) (connectionId : ℕ) :
    (sessions.withoutSubscriptions connectionId).load (only connectionId) = 0 := by
  have transient : (sessions.withoutSubscriptions connectionId).transient.total
      (fun key _ => only connectionId key.1) = 0 := by
    apply total_eq_zero
    intro key subscription found
    have kept := (get?_retain sessions.transient
      (fun key _ => decide (key.1 ≠ connectionId)) key).symm.trans found
    obtain ⟨_, other⟩ := filter_eq_some_iff.mp kept
    exact if_neg (by simpa using other)
  have members : (sessions.withoutSubscriptions connectionId).inner.memberLoad
      (only connectionId) = 0 := by
    apply total_eq_zero
    intro consumerId consumer found
    obtain ⟨old, _, rfl⟩ := map_eq_some_iff.mp ((get?_mapValues _ _ _).symm.trans found)
    apply total_eq_zero
    intro id member joined
    apply if_neg
    rintro rfl
    rw [get?_erase, if_pos rfl] at joined
    cases joined
  rw [load, transient, members]

/-- A connection goes with its subscriptions and its tasks. -/
theorem Settled.removeClient (settled : sessions.Settled) :
    (sessions.removeClient connectionId).Settled := by
  have erased : ∀ freed : Sessions, freed.Settled → freed.load (only connectionId) = 0 →
      (freed.setClients (freed.access.clients.erase connectionId)).Settled := by
    intro freed freedSettled nothing
    refine freedSettled.of_clients rfl
      (fun other distinct => by
        change (freed.access.clients.erase connectionId).get? other = _
        rw [get?_erase, if_neg distinct])
      ((get?_erase _ _ _).trans (if_pos rfl)) (absurd nothing) (fun _ => nothing)
      (fun _ => rfl) nofun
  have loaded := withoutSubscriptions_load sessions connectionId
  have nothing := withoutSubscriptions_only sessions connectionId
  unfold Sessions.removeClient
  cases found : sessions.access.clients.get? connectionId with
  | none =>
    have idle : sessions.load (only connectionId) = 0 := by
      apply settled.idle
      intro client same
      rw [found] at same
      cases same
    have none : sessions.heldBy connectionId = 0 := by
      have own := loaded (only connectionId)
      rw [only, if_pos rfl] at own
      omega
    refine erased (sessions.withoutSubscriptions connectionId) ?_ nothing
    refine settled.of_same rfl rfl (fun weight => ?_) fun _ => rfl
    have weighed := loaded weight
    rw [none, Nat.zero_mul] at weighed
    exact weighed
  | some client =>
    let freed := (((sessions.withoutSubscriptions connectionId).release client.quotaTenant
      client.quotaUsage).release client.quotaTenant { TenantQuotaUsage.none_ with
        tasks := sessions.transient.keys.countP fun key => decide (key.1 = connectionId) }).release
      client.quotaTenant { TenantQuotaUsage.none_ with
        tasks := sessions.inner.consumers.values.countP fun consumer =>
          consumer.members.contains connectionId }
    have adjusts : Adjusts sessions connectionId client.quotaTenant 0
        (sessions.heldBy connectionId) freed := by
      refine ⟨rfl, rfl, fun weight => ?_, fun tested => ?_⟩
      · rw [Nat.zero_mul]
        exact loaded weight
      · simp only [freed, tasks_release, heldBy, settled.taskless connectionId client found]
        change sessions.tasks tested - _ - _ - _ = _
        by_cases own : tested = client.quotaTenant
        · simp only [if_pos own]
          omega
        · simp only [if_neg own]
          omega
    exact erased freed (adjusts.settled settled found (.inl rfl)) nothing

end Steps

/-! ### Runs -/

end Sessions

/-- What happens to the sessions. -/
inductive SessionAction
  | connect
  | configure (connectionId : ℕ) (request : ConnectRequest)
  | subscribe (connectionId : ℕ) (subject : String) (queue : Option String) (sid : String)
    (start : StartPosition) (world : SubscribeWorld)
  | unsubscribe (connectionId : ℕ) (sid : String) (maxMessages : Option ℕ)
  | delivered (connectionId : ℕ) (sid : String)
  | consumed (consumerId : String) (connectionId payloadBytes : ℕ)
  | disconnect (connectionId : ℕ)

namespace Sessions

def next (sessions : Sessions) : SessionAction → Sessions
  | .connect => (addClient sessions).1
  | .configure connectionId request => (configureClient connectionId request sessions).1
  | .subscribe connectionId subject queue sid start world =>
    (subscribe connectionId subject queue sid start world sessions).1
  | .unsubscribe connectionId sid maxMessages =>
    (unsubscribe connectionId sid maxMessages sessions).1
  | .delivered connectionId sid => sessions.decrementSubscription connectionId sid
  | .consumed consumerId connectionId payloadBytes =>
    sessions.consumeDurableMember consumerId connectionId payloadBytes
  | .disconnect connectionId => sessions.removeClient connectionId

/-- A broker that has just started. -/
structure Started (sessions : Sessions) : Prop where
  clients : sessions.access.clients = ∅
  transient : sessions.transient = ∅
  members : ∀ id consumer, sessions.inner.consumers.get? id = some consumer → consumer.members = ∅
  tasks : ∀ tenant, sessions.tasks tenant = 0

/-- The steps that give back every task of a subscription that ends, and no other. -/
def GivesBack (sessions : Sessions) : SessionAction → Prop
  | .subscribe connectionId subject queue sid _ world =>
    sessions.Delivers connectionId subject queue sid world
  | .unsubscribe connectionId sid none => sessions.leaves connectionId sid ≤ 1
  | .delivered connectionId sid => ∀ subscription remaining,
    sessions.transient.get? (toLex (connectionId, sid)) = some subscription →
      subscription.remainingDeliveries = some remaining → 1 < remaining
  | .consumed consumerId connectionId _ => ∀ consumer member remaining,
    sessions.inner.consumers.get? consumerId = some consumer →
      consumer.members.get? connectionId = some member →
        member.remainingDeliveries = some remaining → 1 < remaining
  | _ => True

/-- In every run of such steps the tasks are accounted for. -/
def TasksMatch (guard : Sessions → SessionAction → Prop) : Prop :=
  ∀ start last, Started start → Reaches next guard start last → last.Accounted

theorem Started.settled {sessions : Sessions} (started : sessions.Started) :
    sessions.Settled := by
  have nothing : ∀ weight, sessions.load weight = 0 := by
    intro weight
    have members : sessions.inner.memberLoad weight = 0 := by
      apply total_eq_zero
      intro id consumer found
      rw [Consumer.memberWeight, started.members id consumer found]
      rfl
    rw [load, members, started.transient]
    rfl
  have absent : ∀ id, sessions.access.clients.get? id = none := by
    intro id
    rw [started.clients]
    rfl
  refine ⟨fun tenant => ?_, fun id _ => nothing _, fun id _ => absent id, ?_, ?_⟩
  · rw [started.tasks, held, nothing]
  · intro id client found
    rw [absent] at found
    cases found
  · intro id client found
    rw [absent] at found
    cases found

theorem Settled.step {sessions : Sessions} (action : SessionAction)
    (admitted : sessions.GivesBack action) (settled : sessions.Settled) :
    (sessions.next action).Settled := by
  cases action with
  | connect => exact settled.addClient
  | configure connectionId request => exact settled.configureClient connectionId request
  | subscribe connectionId subject queue sid start world => exact settled.subscribe start admitted
  | unsubscribe connectionId sid maxMessages =>
    apply settled.unsubscribe
    rintro rfl
    exact admitted
  | delivered connectionId sid =>
    refine settled.of_same ?_ ?_ (decrementSubscription_load admitted) fun tenant => ?_
    · simp only [next, decrementSubscription]
      split <;> rfl
    · simp only [next, decrementSubscription]
      split <;> rfl
    · simp only [next, decrementSubscription]
      split <;> rfl
  | consumed consumerId connectionId payloadBytes =>
    exact settled.of_same rfl rfl (consumeDurableMember_load admitted) fun _ => rfl
  | disconnect connectionId => exact settled.removeClient

/-- The tasks of every tenant are the subscriptions that its connections hold. -/
theorem tasks_eq_held {start last : Sessions} (started : start.Started)
    (run : Reaches next GivesBack start last) (tenant : String) :
    last.tasks tenant = last.held tenant := by
  have settled : last.Settled :=
    run.invariant Settled (fun _ action admitted held => held.step action admitted) started.settled
  exact settled.accounted tenant

/-- A broker for the examples, without authentication. -/
def quietBroker : Sessions where
  access := ⟨⟨false, ∅⟩, ⟨0, ∅, []⟩, ∅, 0⟩
  transient := ∅
  inner := .empty
  tenantQuotas := ⟨⟨8, 8, 8, 8, 8⟩, ∅, ∅⟩
  quotas := ⟨8, 8, 8, 8, 8, 8, 1, 30000, 1024⟩
  nextConnectionId := 0

theorem quietBroker_started : quietBroker.Started :=
  ⟨rfl, rfl, (fun _ _ found => nomatch found), fun _ => rfl⟩

def subscribeTo (connectionId : ℕ) (sid : String) (start : StartPosition) : SessionAction :=
  .subscribe connectionId "news" none sid start ⟨[], none, .ok ()⟩

def readerRequest : ConnectRequest := ⟨some "reader", none, none, none, none, none⟩

/-- A connection that subscribes. -/
def subscribed : List SessionAction := [.connect, subscribeTo 0 "1" .latest]

/-- Another one with an identity joins two consumers and leaves one of them, and the first
one goes away. -/
def joined : List SessionAction :=
  [.connect, .configure 1 readerRequest, subscribeTo 1 "1" .earliest,
    subscribeTo 1 "2" .earliest, .unsubscribe 1 "1" none, .disconnect 0]

theorem tasks_eq_held_subscribed :
    let last := (subscribed ++ joined).foldl next quietBroker
    last.held "default" = 1 ∧ last.tasks "default" = last.held "default" := by
  refine ⟨by decide +kernel, tasks_eq_held quietBroker_started ?_ "default"⟩
  refine .step .connect trivial (.step (subscribeTo 0 "1" .latest) (.inl rfl)
    (.step .connect trivial (.step (.configure 1 readerRequest) trivial
      (.step (subscribeTo 1 "1" .earliest) (.inl rfl)
        (.step (subscribeTo 1 "2" .earliest) (.inl rfl)
          (.step (.unsubscribe 1 "1" none) ?_ (.step (.disconnect 0) trivial (.refl _))))))))
  change leaves 1 "1" _ ≤ 1
  decide +kernel

/-- The task of a subscription that ends by its limit is not given back. -/
theorem limit_keeps_task : ¬ TasksMatch fun _ _ => True := by
  intro matches_
  let actions := subscribed ++ [.unsubscribe 0 "1" (some 1), .delivered 0 "1"]
  have counted := matches_ quietBroker _ quietBroker_started
    (.foldl actions quietBroker fun _ _ _ => trivial) "default"
  cases counted

end Sessions

end Morrow
