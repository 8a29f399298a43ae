import Morrow.DeliveryRuns
import Morrow.Sessions

/-!
# Who may acknowledge

A delivery is acknowledged for a consumer, and the broker lets a connection do so if it is
a member of that consumer. A connection becomes a member by subscribing. The consumer of a
client that fetches has no members, so nobody may acknowledge what was fetched. What was
pushed may be acknowledged by all connections that subscribed, also by those of another
identity if the consumers of the two identities have the same id.
-/

namespace Morrow

open List Procedure GuardedRuns DurableBrokerState OrderedMap Option

/-- What a fetching client's consumer is called, and the client's settings for it. -/
def pullConsumerContext (access : AccessControl) (connectionId : ℕ) (name : String) :
    Outcome (String × ℕ × ℕ) := do
  validateIdentifier "consumer name" name
  let client ← okOr "unknown connection" (access.clients.get? connectionId)
  ensure (client.configured = true) "CONN required"
  ensure (2 ≤ client.protocolVersion) "pull consumers require protocol version 2"
  let durableId ← okOr "durable identity required" client.durableId
  .ok (pullConsumerId durableId name, client.ackTimeoutMs, client.maxInFlight)

namespace Sessions

variable (sessions : Sessions) (connectionId : ℕ)

/-- The consumer that an acknowledgement is for: the one with that id, or the one that the
client fetches from under that name. -/
def ackConsumerId (name : String) : String :=
  if sessions.inner.consumers.contains name then name
  else match pullConsumerContext sessions.access connectionId name with
    | .ok context => context.1
    | .error _ => name

def authorizeAckPublish (consumerId : String) :
    Outcome Unit :=
  if sessions.access.auth.enabled = false then .ok ()
  else do
    let client ← okOr "unknown connection" (sessions.access.clients.get? connectionId)
    ensure (client.authenticated = true) "authentication required"
    let consumer ← okOr "ack consumer not found" (sessions.inner.consumers.get? consumerId)
    ensure (consumer.members.contains connectionId = true) "ack not authorized"

/-- The first part of an acknowledgement: whether the connection may give it. -/
def ackDelivery (name : String) : Outcome Unit :=
  sessions.authorizeAckPublish connectionId (sessions.ackConsumerId connectionId name)

/-- The checks before a consumer is created: its record, and the client it is for. -/
def admitPull (name filterSubject : String)
    (start : StartPosition) (retryPolicy : RetryPolicy) :
    Outcome (ConsumerRecord × Client) := do
  validateIdentifier "consumer name" name
  ensure (Subject.validateSubscription filterSubject = true) "invalid consumer filter subject"
  sessions.access.checkSubscribeAuthorization connectionId filterSubject
  let context ← pullConsumerContext sessions.access connectionId name
  let client ← okOr "unknown connection" (sessions.access.clients.get? connectionId)
  let identity ← okOr "durable identity required" client.durableId
  let own := sessions.inner.consumers.keys.countP fun id =>
    Text.startsWith id ("pull-" ++ hex (ByteCodec.utf8 identity) ++ "-")
  ensure (sessions.inner.consumers.entries.length < sessions.quotas.maxDurableConsumers ∧
    own < sessions.quotas.maxDurableConsumersPerIdentity) "durable consumer quota exceeded"
  .ok (⟨context.1, filterSubject, none, context.2.1, context.2.2, start, retryPolicy⟩, client)

def createPullConsumer (name filterSubject : String) (start : StartPosition)
    (retryPolicy : RetryPolicy) (selected : List StreamDefinition) :
    Procedure Sessions Unit := do
  let sessions ← .read id
  let admitted ← .await (sessions.admitPull connectionId name filterSubject start retryPolicy)
  let record := admitted.1
  let cursors := ConsumerCursorSet.new start record.maxInFlight selected sessions.inner.messages
  .await (ensure (cursors.partitions.entries ≠ [])
    "consumer filter has no durable stream binding")
  .await (ensure (sessions.inner.consumers.contains record.consumerId = false)
    "consumer already exists")
  reserve admitted.2.quotaTenant { TenantQuotaUsage.none_ with backgroundTasks := 1 }
    "tenant background task quota exceeded"
  onInner (DurableBrokerState.createPullConsumer record selected)

end Sessions

/-! ### Who is a member -/

namespace DurableBrokerState

/-- The members of the consumers, with the number of deliveries each is still to get. -/
def roll (state : DurableBrokerState) (id : String) (connectionId : ℕ) : Option (Option ℕ) :=
  ((state.consumers.get? id).bind (·.members.get? connectionId)).map (·.remainingDeliveries)

/-- No membership ends by itself. -/
def Unlimited (roll : String → ℕ → Option (Option ℕ)) : Prop :=
  ∀ id connectionId limit, roll id connectionId = some limit → limit = none

theorem enrolled_iff_roll {state : DurableBrokerState} {id : String} {connectionId : ℕ} :
    state.enrolled id connectionId = true ↔ (state.roll id connectionId).isSome = true := by
  unfold enrolled roll OrderedMap.contains
  cases state.consumers.get? id with
  | none => rfl
  | some consumer => simp only [any_some, bind_some, isSome_map]

variable {given : String → ℕ → Option (Option ℕ)} {state : DurableBrokerState} {id : String}

theorem roll_insert (consumer : Consumer)
    (same : ∀ connectionId, (consumer.members.get? connectionId).map (·.remainingDeliveries) =
      state.roll id connectionId) :
    roll { state with consumers := state.consumers.insert id consumer } = state.roll := by
  funext other connectionId
  by_cases own : other = id
  · subst own
    rw [← same connectionId, roll, get?_insert_self, bind_some]
  · rw [roll, roll, get?_insert_of_ne _ _ own]

theorem roll_modifyConsumer {update : Consumer → Consumer}
    (same : ∀ consumer, state.consumers.get? id = some consumer → ∀ connectionId,
      ((update consumer).members.get? connectionId).map (·.remainingDeliveries) =
        (consumer.members.get? connectionId).map (·.remainingDeliveries)) :
    (state.modifyConsumer id update).roll = state.roll := by
  rw [modifyConsumer, OrderedMap.modify]
  cases found : state.consumers.get? id with
  | none => rfl
  | some consumer =>
    apply roll_insert
    intro connectionId
    rw [same consumer found, roll, found, bind_some]

variable (record : ConsumerRecord) (selected : List StreamDefinition)

theorem roll_upsertConsumer :
    (state.upsertConsumer record selected).roll = state.roll := by
  apply roll_insert
  intro connectionId
  unfold roll
  cases state.consumers.get? record.consumerId with
  | none => rfl
  | some existing => rfl

/-- The consumer is not there yet, and is there without members afterwards. -/
theorem keeps_createPullConsumer_roll :
    (createPullConsumer record selected).Keeps (·.roll = given) := by
  apply Triple.keeps
  refine .read_bind fun known => .read_bind fun cursors => ?_
  refine .await_bind (fun _ _ _ held => held.1.1) fun _ _ => ?_
  refine .await_bind (fun _ _ _ held => held.1.1) fun _ absent => ?_
  have unknown : known = false := by
    cases known with
    | false => rfl
    | true => cases absent
  let Free : DurableBrokerState → Prop := fun state =>
    state.roll = given ∧ state.consumers.contains record.consumerId = false
  have append_free : ∀ written, (append written).Keeps Free := fun _ =>
    keeps_write (fun _ _ held => held) _
  refine .strengthen ?_ (fun state held => (⟨held.1.1, held.1.2.trans unknown⟩ : Free state))
  refine (Triple.of_keeps (append_free _) fun _ _ held => held.1).bind fun _ => ?_
  refine (Triple.of_keeps (append_free _) fun _ _ held => held.1).bind fun _ => ?_
  refine .change_bind (·.roll = given) (fun state held => ?_) ?_
  · rw [← held.1]
    apply roll_insert
    intro connectionId
    rw [roll, isNone_iff_eq_none.mp (isSome_eq_false_iff.mp held.2)]
    rfl
  · apply Triple.of_keeps
    · refine .bind (.change fun state held => ?_) fun _ => keeps_write (fun _ _ held => held) id
      rw [← held]
      unfold roll
      rw [markConsumerReady_consumers]
    · exact fun _ _ held => held

theorem roll_consumeDurableMember (unlimited : Unlimited state.roll) (connectionId bytes : ℕ) :
    (state.consumeDurableMember id connectionId bytes).roll = state.roll := by
  apply roll_modifyConsumer
  intro consumer found other
  cases member : consumer.members.get? connectionId with
  | none => rfl
  | some known =>
    have endless : known.remainingDeliveries = none := by
      apply unlimited id connectionId
      rw [roll, found, bind_some, member, map_some]
    simp only [endless, map_none, reduceCtorEq, if_false]
    by_cases own : other = connectionId
    · rw [own, get?_insert_self, member, map_some, map_some, endless]
    · rw [get?_insert_of_ne _ _ own]

/-- Deliveries to members without a limit take nobody off the roll. -/
theorem undisturbed_roll (unlimited : Unlimited given) : Undisturbed (·.roll = given) where
  wal := fun _ _ held => held
  deadlines := fun _ _ held => held
  consumer := by
    intro state id update same held
    rw [← held]
    exact roll_modifyConsumer fun consumer found _ => by rw [same consumer found]
  consumed := by
    intro state id connectionId bytes held
    rw [← held] at unlimited
    exact (roll_consumeDurableMember unlimited connectionId bytes).trans held

/-- A push goes to a member. -/
theorem enrolled_of_nextDeliveryFor {connections : Finset ℕ} {world : DeliveryWorld}
    {push : PushDelivery}
    (found : (nextDeliveryFor id connections world state).2 = .ok (some push)) :
    state.enrolled id push.connectionId = true := by
  have goes : (nextDeliveryFor id connections world).Triple (· = state)
      (fun found _ => ∀ push, found = some push → state.enrolled id push.connectionId = true)
      fun _ _ => True := by
    refine .read_bind fun known => ?_
    split
    · exact .pure fun _ _ _ none => nomatch none
    · rename_i consumer
      split
      · exact .pure fun _ _ _ none => nomatch none
      · refine .answer_bind (fun _ _ => state.consumers.get? id = some consumer) ?_ fun seq => ?_
        · rintro _ ⟨rfl, present⟩
          exact present
        refine .read_bind fun metadata => ?_
        split
        · split
          · exact .pure fun _ _ _ none => nomatch none
          · refine .await_bind (fun _ _ _ _ => trivial) fun message _ => ?_
            split
            · exact .pure fun _ _ _ none => nomatch none
            · rename_i connectionId member chosen
              refine .pure fun _ present push same => ?_
              rw [← some.inj same, enrolled, present.1]
              have listed := mem_of_find?_eq_some chosen
              rw [any_some, OrderedMap.contains, mem_entries.mp listed]
              rfl
        · exact .pure fun _ _ _ none => nomatch none
  exact goes.ok rfl (Prod.ext rfl found) push rfl

end DurableBrokerState

namespace Sessions

section Joining

variable {access : AccessControl} {given : String → ℕ → Option (Option ℕ)} {id : String}
  {connectionId : ℕ}

/-- The roll with one member more, who stays. -/
def enrol (given : String → ℕ → Option (Option ℕ)) (id : String) (connectionId : ℕ) :
    String → ℕ → Option (Option ℕ) := fun other tested =>
  if other = id ∧ tested = connectionId then some none else given other tested

/-- The members are those given, or the connection has joined the consumer besides. -/
structure Joins (access : AccessControl) (given : String → ℕ → Option (Option ℕ)) (id : String)
    (connectionId : ℕ) (sessions : Sessions) : Prop where
  access : sessions.access = access
  roll : sessions.inner.roll = given ∨ sessions.inner.roll = enrol given id connectionId

variable {state : DurableBrokerState} {member : SubscriptionMember}

variable (record : ConsumerRecord)

theorem roll_join (selected : List StreamDefinition) (stays : member.remainingDeliveries = none) :
    (join record selected connectionId member state).roll =
      enrol state.roll record.consumerId connectionId := by
  let stored := state.upsertConsumer record selected
  have present : ∃ consumer, stored.consumers.get? record.consumerId = some consumer :=
    ⟨_, get?_insert_self _ _ _⟩
  obtain ⟨consumer, found⟩ := present
  have before : stored.roll = state.roll := roll_upsertConsumer record selected
  funext other tested
  rw [← before, roll, join, markConsumerReady_consumers, modifyConsumer, get?_modify, enrol, roll]
  by_cases own : other = record.consumerId
  · rw [if_pos own, own, show (state.upsertConsumer record selected).consumers.get?
      record.consumerId = some consumer from found]
    simp only [map_some, bind_some, true_and, get?_insert]
    by_cases same : tested = connectionId
    · rw [if_pos same, if_pos same, map_some, stays]
    · rw [if_neg same, if_neg same]
  · rw [if_neg own, if_neg fun both => own both.1]

/-- A call that leaves the roll alone. -/
theorem keeps_onInner_joins {α : Type} {call : Procedure DurableBrokerState α}
    (kept : ∀ roll, call.Keeps (·.roll = roll)) :
    (onInner call).Keeps (Joins access given id connectionId) := by
  intro sessions joins
  have same := kept _ sessions.inner rfl
  exact ⟨joins.access, joins.roll.imp same.trans same.trans⟩

theorem keeps_attach_joins {record : ConsumerRecord} (stays : member.remainingDeliveries = none)
    (world : SubscribeWorld) :
    (attach record connectionId member world).Keeps
      (Joins access given record.consumerId connectionId) := by
  have written : ∀ update (roll : String → ℕ → Option (Option ℕ)),
      (write update).Keeps (·.roll = roll) :=
    fun update _ => keeps_write (fun _ _ held => held) update
  refine .bind ?_ fun _ => .bind ?_ fun _ => .bind ?_ fun _ => .await _
  · unfold agreeOnConsumer
    split
    · exact .await _
    · apply keeps_onInner_joins
      intro roll
      refine .bind (written _ roll) fun _ => .bind (.change fun state held => ?_)
        fun _ => .bind (.read _) fun cursors => ?_
      · exact (roll_upsertConsumer _ _).trans held
      · split
        · exact written _ roll
        · exact .pure _
  · exact keeps_onInner_joins (written id)
  · intro sessions joins
    refine ⟨joins.access, .inr ((roll_join record world.selected stays).trans ?_)⟩
    rcases joins.roll with same | added
    · rw [same]
    · rw [added]
      funext other tested
      unfold enrol
      split <;> rfl

theorem keeps_subscribeDurable_joins (client : Client) (durableId subject sid : String)
    (start : StartPosition) (world : SubscribeWorld) :
    (subscribeDurable connectionId client durableId subject none sid start world).Keeps
      (Joins access given (consumerId durableId none subject sid) connectionId) := by
  have attached : ∀ (record : ConsumerRecord) (member : SubscriptionMember),
      record.consumerId = consumerId durableId none subject sid →
      member.remainingDeliveries = none → (attach record connectionId member world).Keeps
        (Joins access given (consumerId durableId none subject sid) connectionId) := by
    intro record member same stays
    rw [← same]
    exact keeps_attach_joins stays world
  refine .bind (.read _) fun _ => .bind (.read _) fun enrolled => .bind (.read _) fun _ => ?_
  refine .bind (.await _) fun _ => ?_
  by_cases joined : enrolled = true
  · simp only [joined]
    exact attached _ _ rfl rfl
  · simp only [joined]
    exact .bind (fun _ joins => ⟨joins.access, joins.roll⟩)
      fun _ => keeps_orElse (attached _ _ rfl rfl) fun _ joins => ⟨joins.access, joins.roll⟩

theorem keeps_subscribeTransient_inner {inner : DurableBrokerState} (client : Client)
    (subject sid : String) (start : StartPosition) :
    (subscribeTransient connectionId client subject none sid start).Keeps
      fun sessions => sessions.access = access ∧ sessions.inner = inner := by
  refine .bind (.await _) fun _ => .bind (.await _) fun _ => .bind (.read _) fun known => ?_
  split
  · refine .bind (.read _) fun _ => .bind (.await _) fun _ => .bind ?_ fun _ => ?_
    · exact fun _ held => held
    · exact .change fun _ held => held
  · exact .change fun _ held => held

theorem keeps_createPullConsumer_roll (connectionId : ℕ) (name filterSubject : String)
    (start : StartPosition) (retryPolicy : RetryPolicy) (selected : List StreamDefinition) :
    (createPullConsumer connectionId name filterSubject start retryPolicy selected).Keeps
      fun sessions => sessions.access = access ∧ sessions.inner.roll = given := by
  refine .bind (.read _) fun _ => .bind (.await _) fun _ => .bind (.await _) fun _ => ?_
  refine .bind (.await _) fun _ => .bind (fun _ held => held) fun _ => ?_
  intro sessions held
  exact ⟨held.1, DurableBrokerState.keeps_createPullConsumer_roll _ _ sessions.inner held.2⟩

/-- Whoever joins by subscribing without a queue group may subscribe, and joins the
consumer of its own identity. -/
theorem subscribe_joins (connectionId : ℕ) (subject sid : String) (start : StartPosition)
    (world : SubscribeWorld) (sessions : Sessions) :
    let after := (subscribe connectionId subject none sid start world sessions).1
    after.access = sessions.access ∧ (after.inner.roll = sessions.inner.roll ∨
      ∃ client identity,
        admitSubscription sessions.access connectionId subject none sid = .ok client ∧
        client.durableId = some identity ∧ after.inner.roll =
          enrol sessions.inner.roll (consumerId identity none subject sid) connectionId) := by
  rcases subscribe_cases connectionId subject none sid start world sessions with
    same | ⟨client, admitted, same | ⟨identity, known, same⟩⟩
  · exact ⟨congrArg Sessions.access same, .inl (congrArg (·.inner.roll) same)⟩
  · obtain ⟨accessSame, innerSame⟩ :=
      keeps_subscribeTransient_inner client subject sid start sessions ⟨rfl, rfl⟩
    rw [← same] at accessSame innerSame
    exact ⟨accessSame, .inl (congrArg roll innerSame)⟩
  · obtain ⟨accessSame, members⟩ := keeps_subscribeDurable_joins client identity subject sid start
      world sessions ⟨rfl, .inl rfl⟩
    rw [← same] at accessSame members
    refine ⟨accessSame, members.imp_right fun joined => ?_⟩
    exact ⟨client, identity, admitted, known, joined⟩

end Joining

end Sessions

/-! ### Runs -/

/-- A connection has been handed a delivery for a consumer. -/
structure Receipt where
  consumerId : String
  deliveryId : ℕ
  connectionId : ℕ
  deriving DecidableEq

/-- The sessions and the fetches under way, with the connections they are for. The identity
that each consumer was made for and who has received what are not recorded by the broker. -/
structure AckRun where
  sessions : Sessions
  fetches : OrderedMap ℕ (ℕ × Fetch)
  owner : OrderedMap String String
  received : List Receipt

inductive AckAction
  | subscribe (connectionId : ℕ) (subject sid : String) (start : StartPosition)
    (world : SubscribeWorld)
  | create (connectionId : ℕ) (name filterSubject : String) (start : StartPosition)
    (retryPolicy : RetryPolicy) (selected : List StreamDefinition)
  | startFetch (id connectionId : ℕ) (name : String) (maxMessages maxBytes maxEncodedBytes : ℕ)
    (partitions : Option (Finset ℕ))
  | advanceFetch (id : ℕ) (world : DeliveryWorld)
  | push (consumerId : String) (world : DeliveryWorld)

namespace AckRun

variable (run : AckRun)

/-- The identity of a connection. -/
def identity (connectionId : ℕ) : Option String :=
  (run.sessions.access.clients.get? connectionId).bind Client.durableId

variable (identity : Option String)

/-- A consumer that is there now and has no owner was made for the identity. -/
def assign (id : String → String) (run : AckRun) : AckRun :=
  match identity with
  | none => run
  | some identity =>
    if run.sessions.inner.consumers.contains (id identity) = true ∧
        run.owner.contains (id identity) = false then
      { run with owner := run.owner.insert (id identity) identity }
    else run

/-- The connections that pushes go to. -/
def connections : Finset ℕ := run.sessions.access.clients.keys.toFinset

/-- What a step of a fetch hands to its connection. -/
def fetched (connectionId : ℕ) (before after : Fetch) : List Receipt :=
  match before.phase, after.phase with
  | .committing, .returned (.batch batch) => batch.deliveries.map fun delivery =>
    ⟨before.consumerId, delivery.lease.deliveryId, connectionId⟩
  | _, _ => []

/-- What a push hands to the member it is for. -/
def pushed (consumerId : String) (world : DeliveryWorld) : List Receipt :=
  let delivered := deliverNext consumerId run.connections world run.sessions.inner
  match (nextDeliveryFor consumerId run.connections world run.sessions.inner).2, delivered.2 with
  | .ok (some push), .ok _ => (delivered.1.lease? consumerId push.seq).toList.map fun lease =>
    ⟨consumerId, lease.deliveryId, push.connectionId⟩
  | _, _ => []

def next : AckAction → AckRun
  | .subscribe connectionId subject sid start world =>
    let ended := Sessions.subscribe connectionId subject none sid start world run.sessions
    assign (run.identity connectionId) (fun identity => consumerId identity none subject sid)
      { run with sessions := ended.1 }
  | .create connectionId name filterSubject start retryPolicy selected =>
    let ended := Sessions.createPullConsumer connectionId name filterSubject start retryPolicy
      selected run.sessions
    assign (run.identity connectionId) (fun identity => pullConsumerId identity name)
      { run with sessions := ended.1 }
  | .startFetch id connectionId name maxMessages maxBytes maxEncodedBytes partitions =>
    match pullConsumerContext run.sessions.access connectionId name with
    | .error _ => run
    | .ok context =>
      let fetch := Fetch.start context.1 maxMessages maxBytes maxEncodedBytes partitions
      if run.fetches.contains id then run
      else { run with fetches := run.fetches.insert id (connectionId, fetch) }
  | .advanceFetch id world =>
    match run.fetches.get? id with
    | none => run
    | some (connectionId, fetch) =>
      let advanced := fetch.advance world run.sessions.inner
      { run with
        sessions := { run.sessions with inner := advanced.1 }
        fetches := run.fetches.insert id (connectionId, advanced.2)
        received := run.received ++ fetched connectionId fetch advanced.2 }
  | .push consumerId world =>
    let delivered := deliverNext consumerId run.connections world run.sessions.inner
    { run with
      sessions := { run.sessions with inner := delivered.1 }
      received := run.received ++ run.pushed consumerId world }

/-- An authenticated connection and its identity. -/
structure Speaks (access : AccessControl) (connectionId : ℕ) (identity : String) : Prop where
  known : (access.clients.get? connectionId).bind Client.durableId = some identity
  authenticated : (access.clients.get? connectionId).any Client.authenticated = true

/-- The connection has received the delivery, or is subscribed to the consumer. -/
def Concerned (consumerId : String) (deliveryId connectionId : ℕ) : Prop :=
  ⟨consumerId, deliveryId, connectionId⟩ ∈ run.received ∨
    run.sessions.inner.enrolled consumerId connectionId = true

/-- The acknowledgement of a live lease is allowed to the connections of the consumer's
identity that have received the delivery, and refused to those of other identities,
whatever name they use for the consumer. -/
def Authority : Prop :=
  ∀ consumerId seq lease, run.sessions.inner.lease? consumerId seq = some lease →
    ∀ connectionId identity, Speaks run.sessions.access connectionId identity → ∀ name,
      run.sessions.ackConsumerId connectionId name = consumerId →
        if run.owner.get? consumerId = some identity then
          run.Concerned consumerId lease.deliveryId connectionId →
            run.sessions.ackDelivery connectionId name = .ok ()
        else run.sessions.ackDelivery connectionId name ≠ .ok ()

/-- A broker that asks for authentication, whose consumers have owners, but no members
yet. -/
structure Started (run : AckRun) : Prop where
  enabled : run.sessions.access.auth.enabled = true
  owned : ∀ id, run.sessions.inner.consumers.contains id = true → run.owner.contains id = true
  members : ∀ id consumer, run.sessions.inner.consumers.get? id = some consumer →
    consumer.members = ∅
  received : run.received = []

/-- A subscription does not lead to a consumer of another identity, and no fetch hands out
a message, for its connection would have to be subscribed to the consumer, and nobody is
to a pull consumer. -/
def Careful : AckAction → Prop
  | .subscribe connectionId subject sid _ _ => ∀ identity,
    run.identity connectionId = some identity → ∀ owner,
      run.owner.get? (consumerId identity none subject sid) = some owner → owner = identity
  | .advanceFetch id _ => ∀ connectionId fetch, run.fetches.get? id = some (connectionId, fetch) →
    fetch.phase = .committing → fetch.prepared ≠ [] →
      run.sessions.inner.enrolled fetch.consumerId connectionId = true
  | _ => True

/-! ### What runs keep -/

/-- The members of a consumer are connections of its owner and stay members, and whoever
has received something for it is a member. -/
structure Sound (run : AckRun) : Prop where
  enabled : run.sessions.access.auth.enabled = true
  members : ∀ id connectionId limit, run.sessions.inner.roll id connectionId = some limit →
    limit = none ∧ ∃ identity, run.owner.get? id = some identity ∧
      Speaks run.sessions.access connectionId identity
  received : ∀ receipt ∈ run.received,
    run.sessions.inner.enrolled receipt.consumerId receipt.connectionId = true

variable {run : AckRun}

theorem Started.sound (started : run.Started) : run.Sound := by
  constructor
  · exact started.enabled
  · intro id connectionId limit member
    obtain ⟨known, found, -⟩ := map_eq_some_iff.mp member
    obtain ⟨consumer, present, joined⟩ := bind_eq_some_iff.mp found
    rw [started.members id consumer present] at joined
    cases joined
  · rw [started.received]
    exact fun _ member => nomatch member

/-- A step that changes neither the members nor the owners. -/
theorem Sound.of_same {after : AckRun} (sound : run.Sound)
    (access : after.sessions.access = run.sessions.access)
    (roll : after.sessions.inner.roll = run.sessions.inner.roll) (owner : after.owner = run.owner)
    (received : ∀ receipt ∈ after.received, receipt ∈ run.received ∨
      run.sessions.inner.enrolled receipt.consumerId receipt.connectionId = true) :
    after.Sound := by
  constructor
  · rw [access]
    exact sound.enabled
  · rw [access, roll, owner]
    exact sound.members
  · intro receipt member
    rw [enrolled_iff_roll, roll, ← enrolled_iff_roll]
    rcases received receipt member with old | joined
    · exact sound.received receipt old
    · exact joined

/-- Only a consumer without an owner gets one. -/
theorem owner_assign {identity : Option String} {id : String → String} {consumerId owner : String}
    (owned : run.owner.get? consumerId = some owner) :
    (run.assign identity id).owner.get? consumerId = some owner := by
  unfold assign
  split
  · exact owned
  · rename_i identity
    split
    · rename_i free
      have other : consumerId ≠ id identity := by
        rintro rfl
        have taken : run.owner.contains (id identity) = true :=
          contains_iff.mpr ⟨owner, owned⟩
        rw [free.2] at taken
        cases taken
      exact (get?_insert_of_ne _ _ other).trans owned
    · exact owned

theorem assign_sessions (id : String → String) :
    (run.assign identity id).sessions = run.sessions ∧
      (run.assign identity id).received = run.received := by
  unfold assign
  split
  · exact ⟨rfl, rfl⟩
  · split <;> exact ⟨rfl, rfl⟩

theorem Sound.assign (sound : run.Sound) (identity : Option String) (id : String → String) :
    (run.assign identity id).Sound := by
  obtain ⟨sessions, received⟩ := run.assign_sessions identity id
  constructor
  · rw [sessions]
    exact sound.enabled
  · rw [sessions]
    intro id connectionId limit member
    obtain ⟨stays, owner, owned, speaks⟩ := sound.members id connectionId limit member
    exact ⟨stays, owner, owner_assign owned, speaks⟩
  · rw [sessions, received]
    exact sound.received

/-- With a consumer that is there, the connection's identity is its owner, unless another
one was before. -/
theorem owner_of_assign {identity : String} {id : String → String}
    (present : run.sessions.inner.consumers.contains (id identity) = true)
    (own : ∀ owner, run.owner.get? (id identity) = some owner → owner = identity) :
    (run.assign (some identity) id).owner.get? (id identity) = some identity := by
  cases owned : run.owner.get? (id identity) with
  | none =>
    have free : run.owner.contains (id identity) = false := by
      rw [OrderedMap.contains, owned]
      rfl
    simp only [AckRun.assign, present, free]
    exact get?_insert_self _ _ _
  | some owner => rw [owner_assign owned, own owner owned]

variable {connectionId : ℕ} {subject sid : String}

/-- Who may subscribe is authenticated. -/
theorem speaks_of_admitted {access : AccessControl} (enabled : access.auth.enabled = true)
    {identity : String} {client : Client}
    (admitted : Sessions.admitSubscription access connectionId subject none sid = .ok client)
    (known : client.durableId = some identity) : Speaks access connectionId identity := by
  have found := Sessions.get?_of_admitted admitted
  obtain ⟨_, _, admitted⟩ := bind_eq_ok.mp admitted
  obtain ⟨_, allowed, _⟩ := bind_eq_ok.mp admitted
  rw [AccessControl.checkSubscribeAuthorization, AccessControl.checkAuthorization,
    if_neg (by simp [enabled])] at allowed
  obtain ⟨connection, looked, allowed⟩ := bind_eq_ok.mp allowed
  obtain ⟨_, authenticated, _⟩ := bind_eq_ok.mp allowed
  obtain rfl := some.inj (found.symm.trans (okOr_eq_ok.mp looked))
  constructor
  · rw [found, bind_some, known]
  · rw [found]
    exact ensure_eq_ok.mp authenticated

/-- The check is about membership only. -/
theorem ackDelivery_iff (enabled : run.sessions.access.auth.enabled = true) {identity : String}
    (speaks : Speaks run.sessions.access connectionId identity) (name : String) :
    run.sessions.ackDelivery connectionId name = .ok () ↔
      run.sessions.inner.enrolled (run.sessions.ackConsumerId connectionId name) connectionId =
        true := by
  cases found : run.sessions.access.clients.get? connectionId with
  | none =>
    have nobody := speaks.authenticated
    rw [found] at nobody
    cases nobody
  | some client =>
    have authenticated := speaks.authenticated
    rw [found, any_some] at authenticated
    rw [Sessions.ackDelivery, Sessions.authorizeAckPublish, if_neg (by simp [enabled]), found,
      enrolled]
    simp only [okOr, ensure_of authenticated, ok_bind]
    cases run.sessions.inner.consumers.get? (run.sessions.ackConsumerId connectionId name) with
    | none => simp
    | some consumer => simp only [ok_bind, ensure_eq_ok, any_some]

theorem Sound.authority (sound : run.Sound) : run.Authority := by
  intro consumerId seq lease leased connectionId identity speaks name named
  have allowed := ackDelivery_iff sound.enabled speaks name
  rw [named] at allowed
  split
  · intro concerned
    apply allowed.mpr
    rcases concerned with got | joined
    · exact sound.received _ got
    · exact joined
  · rename_i foreign
    intro accepted
    have joined := allowed.mp accepted
    rw [enrolled_iff_roll, isSome_iff_exists] at joined
    obtain ⟨limit, member⟩ := joined
    obtain ⟨-, owner, owned, other⟩ := sound.members consumerId connectionId limit member
    have same : owner = identity := some.inj (other.known.symm.trans speaks.known)
    exact foreign (same ▸ owned)

theorem Sound.subscribe (sound : run.Sound) (start : StartPosition) (world : SubscribeWorld)
    (careful : run.Careful (.subscribe connectionId subject sid start world)) :
    (run.next (.subscribe connectionId subject sid start world)).Sound := by
  obtain ⟨access, kept | ⟨client, identity, admitted, known, joined⟩⟩ :=
    Sessions.subscribe_joins connectionId subject sid start world run.sessions
  · apply Sound.assign
    apply sound.of_same
    · exact access
    · exact kept
    · rfl
    · exact fun receipt => .inl
  · have speaks := speaks_of_admitted sound.enabled admitted known
    have identified : run.identity connectionId = some identity := speaks.known
    let stored : AckRun := { run with
      sessions := (Sessions.subscribe connectionId subject none sid start world run.sessions).1 }
    let id := consumerId identity none subject sid
    have present : stored.sessions.inner.consumers.contains id = true := by
      have member : stored.sessions.inner.roll id connectionId = some none := by
        rw [joined, Sessions.enrol, if_pos ⟨rfl, rfl⟩]
      obtain ⟨_, known, -⟩ := map_eq_some_iff.mp member
      obtain ⟨consumer, found, -⟩ := bind_eq_some_iff.mp known
      exact contains_iff.mpr ⟨consumer, found⟩
    have owned : (stored.assign (some identity) fun identity =>
        consumerId identity none subject sid).owner.get? id = some identity :=
      owner_of_assign present (careful identity identified)
    simp only [AckRun.next, identified]
    obtain ⟨sessions, received⟩ := stored.assign_sessions (some identity) fun identity =>
      consumerId identity none subject sid
    constructor
    · rw [sessions]
      exact access ▸ sound.enabled
    · rw [sessions, access]
      intro other tested limit member
      rw [joined, Sessions.enrol] at member
      split at member
      · rename_i own
        refine ⟨(some.inj member).symm, identity, ?_, ?_⟩
        · rw [own.1]
          exact owned
        · rw [own.2]
          exact speaks
      · obtain ⟨stays, owner, before, speaks⟩ := sound.members other tested limit member
        exact ⟨stays, owner, owner_assign before, speaks⟩
    · rw [sessions, received]
      intro receipt member
      have old := sound.received receipt member
      rw [enrolled_iff_roll] at old ⊢
      rw [joined, Sessions.enrol]
      split
      · rfl
      · exact old

/-- A push is for a member. -/
theorem enrolled_of_pushed {consumerId : String} {world : DeliveryWorld} {receipt : Receipt}
    (new : receipt ∈ run.pushed consumerId world) :
    run.sessions.inner.enrolled receipt.consumerId receipt.connectionId = true := by
  simp only [pushed] at new
  split at new
  · rename_i push _ found _
    obtain ⟨lease, -, rfl⟩ := mem_map.mp new
    exact enrolled_of_nextDeliveryFor found
  · cases new

/-- A fetch with nothing to hand out hands out nothing. -/
theorem enrolled_of_fetched {id : ℕ} {world : DeliveryWorld} {fetch : Fetch} {receipt : Receipt}
    (careful : run.Careful (.advanceFetch id world))
    (found : run.fetches.get? id = some (connectionId, fetch))
    (new : receipt ∈ fetched connectionId fetch (fetch.advance world run.sessions.inner).2) :
    run.sessions.inner.enrolled receipt.consumerId receipt.connectionId = true := by
  unfold fetched at new
  split at new
  · rename_i batch committing returned
    obtain ⟨delivery, handed, rfl⟩ := mem_map.mp new
    apply careful connectionId fetch found committing
    intro nothing
    simp only [Fetch.advance, committing, Fetch.commit, nothing, if_true, Fetch.handOut] at returned
    split at returned
    · cases returned
    · obtain rfl := FetchExit.batch.inj (FetchPhase.returned.inj returned)
      cases handed
  · cases new

theorem Sound.next (sound : run.Sound) (action : AckAction) (careful : run.Careful action) :
    (run.next action).Sound := by
  have undisturbed := undisturbed_roll fun id connectionId limit member =>
    (sound.members id connectionId limit member).1
  cases action with
  | subscribe connectionId subject sid start world =>
    exact sound.subscribe start world careful
  | create connectionId name filterSubject start retryPolicy selected =>
    apply Sound.assign
    obtain ⟨access, roll⟩ := Sessions.keeps_createPullConsumer_roll connectionId name filterSubject
      start retryPolicy selected run.sessions ⟨rfl, rfl⟩
    apply sound.of_same
    · exact access
    · exact roll
    · rfl
    · exact fun receipt => .inl
  | startFetch id connectionId name maxMessages maxBytes maxEncodedBytes partitions =>
    simp only [AckRun.next]
    split
    · exact sound
    · split
      · exact sound
      · exact sound.of_same rfl rfl rfl fun receipt => .inl
  | advanceFetch id world =>
    simp only [AckRun.next]
    split
    · exact sound
    · rename_i connectionId fetch found
      apply sound.of_same
      · rfl
      · exact undisturbed.advance fetch world rfl
      · rfl
      · intro receipt member
        refine (mem_append.mp member).imp_right fun new => ?_
        exact enrolled_of_fetched careful found new
  | push consumerId world =>
    apply sound.of_same
    · rfl
    · exact undisturbed.deliverNext run.connections world run.sessions.inner rfl
    · rfl
    · intro receipt member
      exact (mem_append.mp member).imp_right enrolled_of_pushed

/-- Acknowledgements are allowed and refused as they should be in every state that a
careful run leads to. -/
def AuthorityMatches (guard : AckRun → AckAction → Prop) : Prop :=
  ∀ start last, Started start → Reaches next guard start last → Authority last

/-- In every careful run, from a broker whose consumers have owners, the acknowledgement of
a live lease is allowed to whom it was delivered and refused to other identities. -/
theorem authority_of_careful {start last : AckRun} (started : start.Started)
    (run : Reaches next Careful start last) : last.Authority := by
  have sound : last.Sound := run.invariant Sound
    (fun _ action careful held => held.next action careful) started.sound
  exact sound.authority

/-- What the owner's connection has received it may acknowledge. -/
theorem Authority.acknowledges (authority : run.Authority) {consumerId name identity : String}
    {seq deliveryId : ℕ}
    (leased : (run.sessions.inner.lease? consumerId seq).map (·.deliveryId) = some deliveryId)
    (received : ⟨consumerId, deliveryId, connectionId⟩ ∈ run.received)
    (speaks : Speaks run.sessions.access connectionId identity)
    (owned : run.owner.get? consumerId = some identity)
    (named : run.sessions.ackConsumerId connectionId name = consumerId) :
    run.sessions.ackDelivery connectionId name = .ok () := by
  obtain ⟨lease, found, delivery⟩ := map_eq_some_iff.mp leased
  have allowed := authority consumerId seq lease found connectionId identity speaks name named
  rw [if_pos owned, delivery] at allowed
  exact allowed (.inl received)

/-- Connections of a reader and of somebody else, and a consumer of the reader with two
messages. -/
def reading (id : String) (protocolVersion : ℕ) : AckRun where
  sessions :=
    { access :=
        { ordersAccess with
          auth := ⟨true, .ofList (["reader", "other"].map fun identity =>
            (identity, ⟨none, "default", "default", none, none⟩))⟩
          clients := .ofList ([(1, "reader"), (2, "other")].map fun (connectionId, identity) =>
            (connectionId, ⟨true, some identity, true, 30000, 16, protocolVersion, "default",
              ⟨1, 0, 0, 0, 0⟩⟩)) }
      transient := ∅
      inner :=
        { (DeliveryRun.twoPending 16).broker with
          consumers := OrderedMap.insert ∅ id { Consumer.fresh
            ⟨id, "orders/*", none, 30000, 16, .earliest, .default⟩ .default with
              pending := {1, 2} } }
      tenantQuotas := ⟨⟨8, 8, 8, 8, 8⟩, ∅, ∅⟩
      quotas := ⟨8, 8, 8, 8, 8, 8, 1, 30000, 1024⟩
      nextConnectionId := 3 }
  fetches := ∅
  owner := OrderedMap.insert ∅ id "reader"
  received := []

theorem reading_started (id : String) (protocolVersion : ℕ) :
    (reading id protocolVersion).Started := by
  have only : ∀ other consumer,
      (reading id protocolVersion).sessions.inner.consumers.get? other = some consumer →
        other = id ∧ consumer.members = ∅ := by
    intro other consumer found
    rcases get?_insert_eq_some.mp found with ⟨own, rfl⟩ | ⟨-, absent⟩
    · exact ⟨own, rfl⟩
    · cases absent
  constructor
  · rfl
  · intro other present
    obtain ⟨consumer, found⟩ := contains_iff.mp present
    rw [(only other consumer found).1]
    exact contains_iff.mpr ⟨"reader", get?_insert_self _ _ _⟩
  · exact fun other consumer found => (only other consumer found).2
  · rfl

/-- The reader's connection subscribes and is sent a message, which it may acknowledge, and
nobody else. -/
theorem authority_of_careful_push :
    let id := consumerId "reader" none "orders/*" "1"
    let subscribed := (reading id 1).next (.subscribe 1 "orders/*" "1" .earliest ⟨[], none, .ok ()⟩)
    let last := subscribed.next (.push id DeliveryRun.stillWorld)
    last.received = [⟨id, 1, 1⟩] ∧ last.sessions.ackDelivery 1 id = .ok () ∧
      last.sessions.ackDelivery 2 id ≠ .ok () := by
  intro id subscribed last
  have own : (reading id 1).Careful (.subscribe 1 "orders/*" "1" .earliest ⟨[], none, .ok ()⟩) := by
    intro identity known owner owned
    obtain rfl : "reader" = identity := some.inj known
    exact (some.inj ((get?_insert_self _ _ _).symm.trans owned)).symm
  have authority : last.Authority := authority_of_careful (reading_started id 1)
    (.step (.subscribe 1 "orders/*" "1" .earliest ⟨[], none, .ok ()⟩) own
      (.step (.push id DeliveryRun.stillWorld) trivial (.refl _)))
  have received : last.received = [⟨id, 1, 1⟩] := by decide +kernel
  have leased : (last.sessions.inner.lease? id 1).map (·.deliveryId) = some 1 := by decide +kernel
  have named : last.sessions.ackConsumerId 1 id = id := by decide +kernel
  have owned : last.owner.get? id = some "reader" := by decide +kernel
  have speaks : Speaks last.sessions.access 1 "reader" := ⟨by decide +kernel, by decide +kernel⟩
  have listed : ⟨id, 1, 1⟩ ∈ last.received := received ▸ mem_singleton_self _
  refine ⟨received, authority.acknowledges leased listed speaks owned named, ?_⟩
  obtain ⟨lease, found, -⟩ := map_eq_some_iff.mp leased
  have refused := authority id 1 lease found 2 "other" ⟨by decide +kernel, by decide +kernel⟩ id
    (by decide +kernel)
  rw [owned] at refused
  exact refused

/-- What a fetch hands out may not be acknowledged, not even by the connection that has
fetched it. -/
theorem fetched_not_acknowledged : ¬ AuthorityMatches fun _ _ => True := by
  intro matches_
  let id := pullConsumerId "reader" "jobs"
  let actions : List AckAction := .startFetch 0 1 "jobs" 1 100 1000 none ::
    replicate 4 (.advanceFetch 0 DeliveryRun.stillWorld)
  let last := actions.foldl next (reading id 2)
  have authority : last.Authority := matches_ _ _ (reading_started id 2)
    (.foldl actions _ fun _ _ _ => trivial)
  have received : ⟨id, 1, 1⟩ ∈ last.received := by decide +kernel
  have leased : (last.sessions.inner.lease? id 1).map (·.deliveryId) = some 1 := by decide +kernel
  have named : last.sessions.ackConsumerId 1 "jobs" = id := by decide +kernel
  have owned : last.owner.get? id = some "reader" := by decide +kernel
  have speaks : Speaks last.sessions.access 1 "reader" := ⟨by decide +kernel, by decide +kernel⟩
  have refused : last.sessions.ackDelivery 1 "jobs" ≠ .ok () := by decide +kernel
  exact refused (authority.acknowledges leased received speaks owned named)

end AckRun

end Morrow
