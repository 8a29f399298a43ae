import Morrow.Authorization
import Morrow.BrokerAdmin
import Morrow.Deliveries
import Morrow.Frames

/-!
# Connections and their subscriptions

A connection is added, configured by its first command, subscribes and unsubscribes, and
is removed in the end. Without a durable identity, and for inboxes, a subscription is
transient and belongs to the connection. Otherwise it makes the connection a member of a
durable consumer, which stays when the connection goes. Every transient subscription and
every membership is a task of the tenant.
-/

namespace Morrow

open ByteCodec

/-- `validate_identifier` of the protocol. -/
def validateIdentifier (name value : String) : Outcome Unit :=
  ensure (value ≠ "" ∧ '.' ∉ value.toList ∧ value.toList.any Text.isWhitespace = false ∧
      Text.startsWith value "_" = false)
    (name ++ " must be non-empty and must not contain '.', whitespace, or start with '_'")

/-- The consumer of a subscription: one for all members of a queue group, or one for each
subscription of an identity. -/
def consumerId (durableId : String) (queue : Option String) (subject sid : String) : String :=
  match queue with
  | some queue => "queue-" ++ queue ++ "-" ++ hex (utf8 subject)
  | none => "durable-" ++ durableId ++ "-" ++ sid

structure TransientSubscription where
  subject : String
  sid : String
  remainingDeliveries : Option ℕ

/-- The limits of the broker as a whole. -/
structure ResourceQuotas where
  maxConnections : ℕ
  maxConnectionsPerIdentity : ℕ
  maxTransientSubscriptions : ℕ
  maxTransientSubscriptionsPerIdentity : ℕ
  maxDurableConsumers : ℕ
  maxDurableConsumersPerIdentity : ℕ
  maxOutboundBytesPerConnection : ℕ
  maxAckTimeoutMs : ℕ
  maxInFlight : ℕ

structure Sessions where
  access : AccessControl
  transient : OrderedMap (ℕ ×ₗ String) TransientSubscription
  inner : DurableBrokerState
  tenantQuotas : TenantQuotaRuntime
  quotas : ResourceQuotas
  nextConnectionId : ℕ

/-- The client id of a connect request, and whether its signature is one of that client's
key for the nonce of the connection. -/
structure ConnectAuth where
  clientId : String
  verified : Bool

structure ConnectRequest where
  durableId : Option String
  ackTimeoutMs : Option ℕ
  maxInFlight : Option ℕ
  protocolVersion : Option ℕ
  ackContractVersion : Option ℕ
  auth : Option ConnectAuth

/-- What a subscription meets outside of the sessions: the streams of its filter, the
cluster's answer if there is a cluster, and how the deliveries that follow it end. -/
structure SubscribeWorld where
  selected : List StreamDefinition
  cluster : Option (Outcome Unit)
  delivered : Outcome Unit

/-- The connection is a member of the consumer. -/
def DurableBrokerState.enrolled (consumerId : String) (connectionId : ℕ)
    (state : DurableBrokerState) : Bool :=
  (state.consumers.get? consumerId).any (·.members.contains connectionId)

theorem DurableBrokerState.markConsumerReady_consumers (consumerId : String)
    (state : DurableBrokerState) :
    (state.markConsumerReady consumerId).consumers = state.consumers := by
  unfold markConsumerReady
  split <;> rfl

namespace Sessions

/-- A call on the durable state. -/
def onInner {α : Type} (call : Procedure DurableBrokerState α) : Procedure Sessions α :=
  fun sessions =>
    let ended := call sessions.inner
    ({ sessions with inner := ended.1 }, ended.2)

variable (clients : OrderedMap ℕ Client)

def setClients (sessions : Sessions) : Sessions :=
  { sessions with access := { sessions.access with clients := clients } }

def reserve (tenant : String) (request : TenantQuotaUsage) (message : String) :
    Procedure Sessions Unit := fun sessions =>
  let reserved := sessions.tenantQuotas.tryReserve tenant request
  ({ sessions with tenantQuotas := reserved.1 }, ensure (reserved.2 = true) message)

def release (tenant : String) (request : TenantQuotaUsage) (sessions : Sessions) : Sessions :=
  { sessions with tenantQuotas := sessions.tenantQuotas.release tenant request }

/-! ### Connections -/

/-- The reservation is given back if the connection is not taken. -/
def addClient : Procedure Sessions Unit := do
  let id ← .read nextConnectionId
  .change fun sessions => { sessions with nextConnectionId := id + 1 }
  let quotas ← .read quotas
  let usage : TenantQuotaUsage :=
    ⟨1, quotas.maxOutboundBytesPerConnection, 0, 0, 0⟩
  reserve defaultTenant usage "tenant connection quota exceeded"
  let count ← .read fun sessions => sessions.access.clients.entries.length
  if quotas.maxConnections ≤ count then do
    .change (release defaultTenant usage)
    .await (.error (.error "connection quota exceeded"))
  else
    .change fun sessions => sessions.setClients (sessions.access.clients.insert id
      ⟨false, none, false, 30000, 1024, 1, defaultTenant, usage⟩)

/-- Who a connect request is from. -/
structure Identity where
  durableId : Option String
  authenticated : Bool
  quotaTenant : String

def identify (access : AccessControl) (request : ConnectRequest) : Outcome Identity :=
  if access.auth.enabled = false then .ok ⟨request.durableId, false, defaultTenant⟩
  else do
    let auth ← okOr "CONN client_id and signature are required" request.auth
    let config ← okOr "unknown client_id" (access.auth.clients.get? auth.clientId)
    ensure (config.expiresAtMs.all (access.nowMs < ·) = true) "client credential has expired"
    ensure (auth.verified = true) "invalid public key signature"
    ensure (request.durableId.all (· = auth.clientId) = true)
      "CONN durable_id must match authenticated client_id"
    .ok ⟨some auth.clientId, true, config.tenant⟩

/-- The connections of an identity that are configured. -/
def identityConnections (identity : String) : ℕ :=
  clients.values.countP fun client => client.configured && client.durableId = some identity

/-- The client's connection is accounted to its tenant from now on. -/
def transferClient (client : Client) (tenant : String) : Procedure Sessions Unit :=
  fun sessions =>
    if tenant = defaultTenant then (sessions, .ok ())
    else
      let moved := sessions.tenantQuotas.transfer defaultTenant tenant client.quotaUsage
      ({ sessions with tenantQuotas := moved.1 },
        ensure (moved.2 = true) "tenant connection quota exceeded for authenticated tenant")

def configureClient (id : ℕ) (request : ConnectRequest) : Procedure Sessions Unit := do
  let ackTimeoutMs := request.ackTimeoutMs.getD 30000
  let maxInFlight := request.maxInFlight.getD 1024
  let protocolVersion := request.protocolVersion.getD 1
  let quotas ← .read quotas
  .await (ensure (0 < ackTimeoutMs) "CONN ack_timeout_ms must be greater than zero")
  .await (ensure (ackTimeoutMs ≤ quotas.maxAckTimeoutMs)
    ("CONN ack_timeout_ms exceeds server limit " ++ decimal quotas.maxAckTimeoutMs))
  .await (ensure (0 < maxInFlight) "CONN max_in_flight must be greater than zero")
  .await (ensure (maxInFlight ≤ quotas.maxInFlight)
    ("CONN max_in_flight exceeds server limit " ++ decimal quotas.maxInFlight))
  .await (ensure (protocolVersion = 1 ∨ protocolVersion = 2)
    ("unsupported protocol version " ++ decimal protocolVersion ++
      "; supported versions are 1 and 2"))
  .await (ensure (request.ackContractVersion.all (· = 1) = true)
    "unsupported acknowledgement contract version")
  let access ← .read access
  let client ← .await (okOr "unknown connection" (access.clients.get? id))
  .await (ensure (client.configured = false) "CONN already received")
  let identity ← .await (identify access request)
  .await (ensure (identity.durableId.all (fun durableId => decide
      (identityConnections access.clients durableId < quotas.maxConnectionsPerIdentity)) = true)
    "connection quota exceeded for identity")
  transferClient client identity.quotaTenant
  .change fun sessions => sessions.setClients (sessions.access.clients.insert id
    ⟨true, identity.durableId, identity.authenticated, ackTimeoutMs, maxInFlight,
      protocolVersion, identity.quotaTenant, client.quotaUsage⟩)

/-! ### Subscribing -/

variable (connectionId : ℕ)

/-- The transient subscriptions that count for a client's identity, or for its connection
if it has none. -/
def transientOf (client : Client) (sessions : Sessions) : ℕ :=
  sessions.transient.keys.countP fun key =>
    match client.durableId with
    | some identity =>
      decide ((sessions.access.clients.get? key.1).bind Client.durableId = some identity)
    | none => decide (key.1 = connectionId)

def subscribeTransient (client : Client) (subject : String)
    (queue : Option String) (sid : String) (start : StartPosition) : Procedure Sessions Unit := do
  .await (ensure (start = .latest) "transient subscriptions only support @latest")
  .await (ensure (queue = none) "transient subscriptions do not support queue groups")
  let key := toLex (connectionId, sid)
  let known ← .read (·.transient.contains key)
  if known = false then do
    let crowded ← .read fun sessions =>
      decide (sessions.quotas.maxTransientSubscriptions ≤ sessions.transient.entries.length ∨
        sessions.quotas.maxTransientSubscriptionsPerIdentity ≤
          sessions.transientOf connectionId client)
    .await (ensure (crowded = false) "transient subscription quota exceeded")
    reserve client.quotaTenant .task "tenant foreground task quota exceeded"
    .change fun sessions =>
      { sessions with transient := sessions.transient.insert key ⟨subject, sid, none⟩ }
  else
    .change fun sessions =>
      { sessions with transient := sessions.transient.insert key ⟨subject, sid, none⟩ }

/-- The consumers with a member of an identity. -/
def consumersOf (durableId : String) (sessions : Sessions) : ℕ :=
  sessions.inner.consumers.values.countP fun consumer => consumer.members.keys.any fun member =>
    decide ((sessions.access.clients.get? member).bind Client.durableId = some durableId)

variable (record : ConsumerRecord) (selected : List StreamDefinition)

/-- The consumer as it is stored before the connection joins it. -/
def storeConsumer :
    Procedure DurableBrokerState Unit := do
  DurableBrokerState.append (.consumerUpsert record)
  .change (DurableBrokerState.upsertConsumer record selected)
  let cursors ← .read fun state =>
    (state.consumers.get? record.consumerId).map Consumer.cursors
  match cursors with
  | some cursors => DurableBrokerState.append (.consumerCursor ⟨record.consumerId, cursors⟩)
  | none => pure ()

/-- The connection is a member of the consumer, under its subscription id. -/
def join (connectionId : ℕ)
    (member : SubscriptionMember) (state : DurableBrokerState) : DurableBrokerState :=
  ((state.upsertConsumer record selected).modifyConsumer record.consumerId fun consumer =>
    { consumer with members := consumer.members.insert connectionId member }).markConsumerReady
      record.consumerId

/-- In a cluster the consumer is stored by the other brokers as well. -/
def agreeOnConsumer (world : SubscribeWorld) : Procedure Sessions Unit :=
  match world.cluster with
  | some answer => .await answer
  | none => onInner (storeConsumer record world.selected)

/-- Store the consumer, join it, and deliver what is pending. -/
def attach (connectionId : ℕ) (member : SubscriptionMember)
    (world : SubscribeWorld) : Procedure Sessions Unit := do
  agreeOnConsumer record world
  onInner DurableBrokerState.flushDue
  onInner (.change (join record world.selected connectionId member))
  .await world.delivered

/-- A call after whose failure something is put back. -/
def orElse (call : Procedure Sessions Unit) (putBack : Sessions → Sessions) :
    Procedure Sessions Unit := fun sessions =>
  match call sessions with
  | (ended, .ok ()) => (ended, .ok ())
  | (ended, .error failure) => (putBack ended, .error failure)

theorem keeps_orElse {holds : Sessions → Prop} {call : Procedure Sessions Unit}
    {putBack : Sessions → Sessions} (kept : call.Keeps holds)
    (also : ∀ sessions, holds sessions → holds (putBack sessions)) :
    (orElse call putBack).Keeps holds := by
  intro sessions held
  have after := kept sessions held
  unfold orElse
  cases called : call sessions with
  | mk ended outcome =>
    rw [called] at after
    cases outcome with
    | ok done => exact after
    | error failure => exact also ended after

def subscribeDurable (client : Client) (durableId subject : String)
    (queue : Option String) (sid : String) (start : StartPosition) (world : SubscribeWorld) :
    Procedure Sessions Unit := do
  let id := consumerId durableId queue subject sid
  let known ← .read (·.inner.consumers.contains id)
  let enrolled ← .read (·.inner.enrolled id connectionId)
  let crowded ← .read fun sessions =>
    decide (sessions.quotas.maxDurableConsumers ≤ sessions.inner.consumers.entries.length ∨
      sessions.quotas.maxDurableConsumersPerIdentity ≤ sessions.consumersOf durableId)
  .await (ensure (known = false → crowded = false) "durable consumer quota exceeded")
  let record : ConsumerRecord :=
    ⟨id, subject, queue, client.ackTimeoutMs, client.maxInFlight, start, .default⟩
  let credit := if 2 ≤ client.protocolVersion then 0 else u64Max
  let member : SubscriptionMember := ⟨sid, none, credit, credit⟩
  if enrolled = true then
    attach record connectionId member world
  else do
    reserve client.quotaTenant .task "tenant foreground task quota exceeded"
    orElse (attach record connectionId member world) (release client.quotaTenant .task)

/-- The client of a subscription that is allowed and has valid names. -/
def admitSubscription (access : AccessControl) (connectionId : ℕ) (subject : String)
    (queue : Option String)
    (sid : String) : Outcome Client := do
  ensure (Subject.validateSubscription subject = true) "invalid subscription subject"
  access.checkSubscribeAuthorization connectionId subject
  validateIdentifier "sid" sid
  (queue.map (validateIdentifier "queue group")).getD (.ok ())
  okOr "unknown connection" (access.clients.get? connectionId)

def subscribe (subject : String) (queue : Option String) (sid : String)
    (start : StartPosition) (world : SubscribeWorld) : Procedure Sessions Unit := do
  let access ← .read access
  let client ← .await (admitSubscription access connectionId subject queue sid)
  match client.durableId, isInboxSubscription subject with
  | some durableId, false =>
    subscribeDurable connectionId client durableId subject queue sid start world
  | _, _ => subscribeTransient connectionId client subject queue sid start

theorem get?_of_admitted {access : AccessControl} {connectionId : ℕ} {subject : String}
    {queue : Option String} {sid : String} {client : Client}
    (admitted : admitSubscription access connectionId subject queue sid = .ok client) :
    access.clients.get? connectionId = some client := by
  obtain ⟨_, _, admitted⟩ := bind_eq_ok.mp admitted
  obtain ⟨_, _, admitted⟩ := bind_eq_ok.mp admitted
  obtain ⟨_, _, admitted⟩ := bind_eq_ok.mp admitted
  obtain ⟨_, _, admitted⟩ := bind_eq_ok.mp admitted
  exact okOr_eq_ok.mp admitted

/-- A subscription is refused and nothing changes, or it is one of the two kinds. -/
theorem subscribe_cases (subject : String) (queue : Option String)
    (sid : String) (start : StartPosition) (world : SubscribeWorld) (sessions : Sessions) :
    (subscribe connectionId subject queue sid start world sessions).1 = sessions ∨
    ∃ client, admitSubscription sessions.access connectionId subject queue sid = .ok client ∧
      (subscribe connectionId subject queue sid start world sessions =
          subscribeTransient connectionId client subject queue sid start sessions ∨
        ∃ durableId, client.durableId = some durableId ∧
          subscribe connectionId subject queue sid start world sessions =
            subscribeDurable connectionId client durableId subject queue sid start world
              sessions) := by
  rw [subscribe, Procedure.read_bind]
  cases admitted : admitSubscription sessions.access connectionId subject queue sid with
  | error failure => exact .inl rfl
  | ok client =>
    refine .inr ⟨client, rfl, ?_⟩
    rw [Procedure.await_ok_bind]
    cases identity : client.durableId with
    | none => exact .inl rfl
    | some durableId =>
      cases isInboxSubscription subject with
      | true => exact .inl rfl
      | false => exact .inr ⟨durableId, rfl, rfl⟩

/-! ### The end of subscriptions -/

variable (sid : String)

def membersWith (consumer : Consumer) : Bool :=
  (consumer.members.get? connectionId).any (·.sid = sid)

/-- Change the memberships of a connection under a subscription id. -/
def changeMembers (change : Consumer → Consumer)
    (sessions : Sessions) : Sessions :=
  { sessions with inner := { sessions.inner with
      consumers := sessions.inner.consumers.mapValues fun _ consumer =>
        if membersWith connectionId sid consumer then change consumer else consumer } }

/-- The subscriptions end after some more messages. -/
def limitSubscriptions (limit : ℕ) (sessions : Sessions) :
    Sessions :=
  { sessions.changeMembers connectionId sid fun consumer =>
      { consumer with members := consumer.members.modify connectionId fun member =>
          { member with remainingDeliveries := some limit } } with
    transient := sessions.transient.modify (toLex (connectionId, sid)) fun subscription =>
      { subscription with remainingDeliveries := some limit } }

def hasTransient (sessions : Sessions) : Bool :=
  sessions.transient.contains (toLex (connectionId, sid))

def hasDurable (sessions : Sessions) : Bool :=
  sessions.inner.consumers.values.any (membersWith connectionId sid)

/-- Give back one task if there is something to give back for. -/
def releaseTaskIf (ended : Bool) (tenant : Option String) (sessions : Sessions) : Sessions :=
  match tenant, ended with
  | some tenant, true => sessions.release tenant .task
  | _, _ => sessions

/-- The subscriptions after an end, before tasks are given back for it. -/
def withoutSid (sessions : Sessions) : Sessions :=
  { sessions.changeMembers connectionId sid fun consumer =>
      { consumer with members := consumer.members.erase connectionId } with
    transient := sessions.transient.erase (toLex (connectionId, sid)) }

/-- The subscriptions end at once. One task is given back for the transient one, and one
for the memberships, however many consumers the connection leaves. -/
def endSubscriptions (sessions : Sessions) : Sessions :=
  let tenant := (sessions.access.clients.get? connectionId).map Client.quotaTenant
  let ended := sessions.withoutSid connectionId sid
  (ended.releaseTaskIf (sessions.hasTransient connectionId sid) tenant).releaseTaskIf
    (sessions.hasDurable connectionId sid) tenant

def unsubscribe (maxMessages : Option ℕ) :
    Procedure Sessions Unit := do
  .await (ensure (maxMessages.all (0 < ·) = true) "UNSUB max_messages must be greater than zero")
  let found ← .read fun sessions =>
    sessions.hasTransient connectionId sid || sessions.hasDurable connectionId sid
  .change fun sessions => match maxMessages with
    | some limit => sessions.limitSubscriptions connectionId sid limit
    | none => sessions.endSubscriptions connectionId sid
  .await (ensure (found = true) "unknown sid")

/-- A transient subscription has been delivered a message, and is removed after its
last one. -/
def decrementSubscription (sessions : Sessions) : Sessions :=
  let key := toLex (connectionId, sid)
  match sessions.transient.get? key with
  | none => sessions
  | some subscription =>
    let remaining := subscription.remainingDeliveries.map (· - 1)
    { sessions with
      transient := if remaining = some 0 then sessions.transient.erase key
        else sessions.transient.insert key { subscription with remainingDeliveries := remaining } }

/-- A member of a durable consumer has been delivered a message. -/
def consumeDurableMember (consumerId : String) (connectionId payloadBytes : ℕ)
    (sessions : Sessions) : Sessions :=
  { sessions with
    inner := sessions.inner.consumeDurableMember consumerId connectionId payloadBytes }

def removeClient (sessions : Sessions) : Sessions :=
  let client := sessions.access.clients.get? connectionId
  let transientTasks := sessions.transient.keys.countP fun key => decide (key.1 = connectionId)
  let durableTasks := sessions.inner.consumers.values.countP fun consumer =>
    consumer.members.contains connectionId
  let removed := { sessions.setClients (sessions.access.clients.erase connectionId) with
    transient := sessions.transient.retain fun key _ => decide (key.1 ≠ connectionId)
    inner := { sessions.inner with
      consumers := sessions.inner.consumers.mapValues fun _ consumer =>
        { consumer with members := consumer.members.erase connectionId } } }
  match client with
  | none => removed
  | some client =>
    ((removed.release client.quotaTenant client.quotaUsage).release client.quotaTenant
      { TenantQuotaUsage.none_ with tasks := transientTasks }).release client.quotaTenant
      { TenantQuotaUsage.none_ with tasks := durableTasks }

end Sessions

end Morrow
