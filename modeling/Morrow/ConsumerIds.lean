import Morrow.Sessions

/-!
# The ids of consumers

A consumer's id is put together from the names of its subscription. A subscription only
changes the consumer with its own id, so consumers are as separate as their ids. Ids of
the three kinds differ in their first letter. Two identities that subscribe without a
queue group can have the same id, since the dash between identity and subscription id may
also be part of either.
-/

namespace Morrow

structure Subscription where
  durableId : String
  queue : Option String
  subject : String
  sid : String

namespace Subscription

def consumerId (subscription : Subscription) : String :=
  Morrow.consumerId subscription.durableId subscription.queue subscription.subject
    subscription.sid

/-- The names are ones that the protocol takes. -/
structure Accepted (subscription : Subscription) : Prop where
  durableId : validateIdentifier "durable_id" subscription.durableId = .ok ()
  queue : ∀ queue, subscription.queue = some queue → validateIdentifier "queue group" queue = .ok ()
  subject : Subject.validateSubscription subscription.subject = true
  sid : validateIdentifier "sid" subscription.sid = .ok ()

/-- Two subscriptions that are not for one consumer: both are without a queue group and
differ in identity or subscription id, or one is with a queue group and one without. -/
def Different (first second : Subscription) : Prop :=
  match first.queue, second.queue with
  | none, none => first.durableId ≠ second.durableId ∨ first.sid ≠ second.sid
  | some _, none => True
  | none, some _ => True
  | some _, some _ => False

/-- The dash can be read at two places. -/
def Confused (first second : Subscription) : Prop :=
  first.queue = none ∧ second.queue = none ∧ ∃ middle,
    second.durableId = first.durableId ++ "-" ++ middle ∧ first.sid = middle ++ "-" ++ second.sid ∨
    first.durableId = second.durableId ++ "-" ++ middle ∧ second.sid = middle ++ "-" ++ first.sid

/-- The second subscription has another consumer than the first and than every fetching
consumer, and leaves those alone. The deliveries after it are steps of their own. -/
structure Apart (first second : Subscription) : Prop where
  ids : second.consumerId ≠ first.consumerId
  pull : ∀ identity name, second.consumerId ≠ pullConsumerId identity name
  unchanged : ∀ (sessions : Sessions) connectionId start world,
    (sessions.access.clients.get? connectionId).bind Client.durableId = some second.durableId →
    ∀ id, (id = first.consumerId ∨ ∃ identity name, id = pullConsumerId identity name) →
      (Sessions.subscribe connectionId second.subject second.queue second.sid start world
        sessions).1.inner.consumers.get? id = sessions.inner.consumers.get? id

end Subscription

/-! ### Other consumers -/

namespace DurableBrokerState

variable {id : String} {found : Option Consumer} {record : ConsumerRecord}
  {selected : List StreamDefinition}

theorem upsertConsumer_other (other : id ≠ record.consumerId) (state : DurableBrokerState) :
    (state.upsertConsumer record selected).consumers.get? id = state.consumers.get? id :=
  OrderedMap.get?_insert_of_ne _ _ other

theorem keeps_append_consumers (walRecord : WalRecord) :
    (append walRecord).Keeps fun state => state.consumers.get? id = found :=
  keeps_write (fun _ _ held => held) _

end DurableBrokerState

namespace Sessions

open Procedure

variable {id : String} {found : Option Consumer} {record : ConsumerRecord}
  {selected : List StreamDefinition}

/-- A consumer as it is found. -/
def Finds (id : String) (found : Option Consumer) (sessions : Sessions) : Prop :=
  sessions.inner.consumers.get? id = found

theorem keeps_onInner {α : Type} {call : Procedure DurableBrokerState α}
    (kept : call.Keeps fun state => state.consumers.get? id = found) :
    (onInner call).Keeps (Finds id found) := fun sessions held => kept sessions.inner held

theorem keeps_storeConsumer (other : id ≠ record.consumerId) :
    (storeConsumer record selected).Keeps fun state => state.consumers.get? id = found := by
  refine .bind (DurableBrokerState.keeps_append_consumers _) fun _ => .bind ?_ fun _ =>
    .bind (.read _) fun cursors => ?_
  · exact .change fun state held => (DurableBrokerState.upsertConsumer_other other state).trans held
  · cases cursors with
    | none => exact .pure ()
    | some cursors => exact DurableBrokerState.keeps_append_consumers _

theorem join_other (other : id ≠ record.consumerId) (connectionId : ℕ)
    (member : SubscriptionMember) (state : DurableBrokerState) :
    (join record selected connectionId member state).consumers.get? id =
      state.consumers.get? id := by
  rw [join, DurableBrokerState.markConsumerReady_consumers, DurableBrokerState.modifyConsumer]
  rw [OrderedMap.get?_modify, if_neg other, DurableBrokerState.upsertConsumer_other other]

theorem keeps_attach (other : id ≠ record.consumerId) (connectionId : ℕ)
    (member : SubscriptionMember) (world : SubscribeWorld) :
    (attach record connectionId member world).Keeps (Finds id found) := by
  refine .bind ?_ fun _ => .bind ?_ fun _ => .bind ?_ fun _ => .await _
  · unfold agreeOnConsumer
    split
    · exact .await _
    · exact keeps_onInner (keeps_storeConsumer other)
  · exact keeps_onInner (DurableBrokerState.keeps_write (fun _ _ held => held) _)
  · exact keeps_onInner (.change fun state held =>
      (join_other other connectionId member state).trans held)

theorem keeps_subscribeTransient (connectionId : ℕ) (client : Client) (subject : String)
    (queue : Option String) (sid : String) (start : StartPosition) :
    (subscribeTransient connectionId client subject queue sid start).Keeps (Finds id found) := by
  refine .bind (.await _) fun _ => .bind (.await _) fun _ => .bind (.read _) fun known => ?_
  by_cases fresh : known = false
  · rw [if_pos fresh]
    exact .bind (.read _) fun _ => .bind (.await _) fun _ => .bind (fun _ held => held) fun _ =>
      .change fun _ held => held
  · rw [if_neg fresh]
    exact .change fun _ held => held

theorem keeps_subscribeDurable {durableId subject sid : String} {queue : Option String}
    (other : id ≠ consumerId durableId queue subject sid) (connectionId : ℕ) (client : Client)
    (start : StartPosition) (world : SubscribeWorld) :
    (subscribeDurable connectionId client durableId subject queue sid start world).Keeps
      (Finds id found) := by
  refine .bind (.read _) fun _ => .bind (.read _) fun enrolled => .bind (.read _) fun _ =>
    .bind (.await _) fun _ => ?_
  by_cases joined : enrolled = true
  · rw [if_pos joined]
    exact keeps_attach other connectionId _ world
  · rw [if_neg joined]
    exact .bind (fun _ held => held) fun _ =>
      keeps_orElse (keeps_attach other connectionId _ world) fun _ held => held

/-- A subscription leaves all consumers alone but its own. -/
theorem subscribe_other {sessions : Sessions} {connectionId : ℕ} {durableId : String}
    (identity : (sessions.access.clients.get? connectionId).bind Client.durableId = some durableId)
    (subject : String) (queue : Option String) (sid : String) (start : StartPosition)
    (world : SubscribeWorld) (other : id ≠ consumerId durableId queue subject sid) :
    (subscribe connectionId subject queue sid start world sessions).1.inner.consumers.get? id =
      sessions.inner.consumers.get? id := by
  rcases subscribe_cases connectionId subject queue sid start world sessions with
    refused | ⟨client, admitted, transient | ⟨named, known, durable⟩⟩
  · rw [refused]
  · rw [transient]
    exact keeps_subscribeTransient connectionId client subject queue sid start sessions rfl
  · rw [get?_of_admitted admitted, Option.bind_some, known] at identity
    rw [durable, Option.some.inj identity]
    exact keeps_subscribeDurable other connectionId client start world sessions rfl

end Sessions

/-! ### Separate ids -/

theorem dash : "-".toList = ['-'] := rfl

/-- A dash between two texts can be read at one place, unless one of them goes on with a
dash where the other ends. -/
theorem dashed_eq_iff {first second third fourth : String} :
    first ++ "-" ++ second = third ++ "-" ++ fourth ↔
      first = third ∧ second = fourth ∨
      ∃ middle, third = first ++ "-" ++ middle ∧ second = middle ++ "-" ++ fourth ∨
        first = third ++ "-" ++ middle ∧ fourth = middle ++ "-" ++ second := by
  simp only [← String.toList_inj, String.toList_append, List.append_assoc, dash,
    List.singleton_append]
  rw [List.append_eq_append_iff]
  constructor
  · rintro (⟨between, longer, rest⟩ | ⟨between, longer, rest⟩)
    · cases between with
      | nil => exact .inl ⟨by simpa using longer.symm, (List.cons.inj rest).2⟩
      | cons letter middle =>
        obtain ⟨rfl, rest⟩ := List.cons.inj rest
        exact .inr ⟨String.ofList middle, .inl ⟨by simpa using longer, by simpa using rest⟩⟩
    · cases between with
      | nil => exact .inl ⟨by simpa using longer, (List.cons.inj rest).2.symm⟩
      | cons letter middle =>
        obtain ⟨rfl, rest⟩ := List.cons.inj rest
        exact .inr ⟨String.ofList middle, .inr ⟨by simpa using longer, by simpa using rest⟩⟩
  · rintro (⟨same, rest⟩ | ⟨middle, ⟨longer, rest⟩ | ⟨longer, rest⟩⟩)
    · exact .inl ⟨[], by simpa using same.symm, by simpa using rest⟩
    · exact .inl ⟨'-' :: middle.toList, by simpa using longer, by simpa using rest⟩
    · exact .inr ⟨'-' :: middle.toList, by simpa using longer, by simpa using rest⟩

namespace Subscription

variable {first second : Subscription} (subscription : Subscription)

/-- The first letter of an id tells queue groups from identities. -/
theorem head?_consumerId :
    subscription.consumerId.toList.head? = if subscription.queue = none then 'd' else 'q' := by
  unfold consumerId Morrow.consumerId
  cases subscription.queue with
  | none => simp
  | some queue => simp

theorem consumerId_of_none (plain : first.queue = none) :
    first.consumerId = "durable-" ++ (first.durableId ++ "-" ++ first.sid) := by
  rw [consumerId, plain, Morrow.consumerId, String.append_assoc, String.append_assoc,
    String.append_assoc]

theorem consumerId_eq_iff (different : Different first second) :
    second.consumerId = first.consumerId ↔ Confused first second := by
  have heads := fun same : second.consumerId = first.consumerId =>
    congrArg (·.toList.head?) same
  simp only [head?_consumerId] at heads
  unfold Different at different
  cases plain : first.queue with
  | some queue =>
    cases other : second.queue with
    | some name => simp [plain, other] at different
    | none =>
      refine iff_of_false (fun same => ?_) (fun confused => ?_)
      · exact absurd (heads same) (by simp [plain, other])
      · rw [confused.1] at plain
        cases plain
  | none =>
    cases other : second.queue with
    | some name =>
      refine iff_of_false (fun same => ?_) (fun confused => ?_)
      · exact absurd (heads same) (by simp [plain, other])
      · rw [confused.2.1] at other
        cases other
    | none =>
      rw [consumerId_of_none plain, consumerId_of_none other, String.append_right_inj,
        eq_comm, dashed_eq_iff, Confused]
      simp only [plain, other] at different
      have distinct : ¬ (first.durableId = second.durableId ∧ first.sid = second.sid) := by
        rintro ⟨sameIdentity, sameSid⟩
        rcases different with identity | sid
        · exact identity sameIdentity
        · exact sid sameSid
      simp only [distinct, false_or, plain, other, true_and]

theorem consumerId_ne_pull (identity name : String) :
    subscription.consumerId ≠ pullConsumerId identity name := by
  intro same
  have heads := congrArg (·.toList.head?) same
  rw [head?_consumerId] at heads
  cases plain : subscription.queue with
  | none => simp [plain, pullConsumerId] at heads
  | some queue => simp [plain, pullConsumerId] at heads

/-- Different subscriptions are apart exactly if the dash in their ids has one place. -/
theorem apart_iff_not_confused (different : Different first second) :
    Apart first second ↔ ¬ Confused first second := by
  constructor
  · intro apart confused
    exact apart.ids ((consumerId_eq_iff different).mpr confused)
  · intro clear
    have ids : second.consumerId ≠ first.consumerId := fun same =>
      clear ((consumerId_eq_iff different).mp same)
    refine ⟨ids, consumerId_ne_pull second, ?_⟩
    intro sessions connectionId start world identity id another
    apply Sessions.subscribe_other identity
    rcases another with rfl | ⟨owner, name, rfl⟩
    · exact ids.symm
    · exact (consumerId_ne_pull second owner name).symm

theorem apart_plain : Apart ⟨"alice", none, "orders/*", "1"⟩ ⟨"bob", none, "orders/*", "1"⟩ := by
  have different : Different ⟨"alice", none, "orders/*", "1"⟩ ⟨"bob", none, "orders/*", "1"⟩ :=
    .inl (by decide)
  refine (apart_iff_not_confused different).mpr fun confused => ?_
  exact absurd ((consumerId_eq_iff different).mpr confused) (by decide)

/-- The identity `a` with `b-c` and the identity `a-b` with `c` share a consumer. -/
theorem dashes_collide :
    let first : Subscription := ⟨"a", none, "orders/*", "b-c"⟩
    let second : Subscription := ⟨"a-b", none, "payments/*", "c"⟩
    Accepted first ∧ Accepted second ∧ Different first second ∧ ¬ Apart first second := by
  intro first second
  refine ⟨⟨by decide, by simp [first], by decide, by decide⟩,
    ⟨by decide, by simp [second], by decide, by decide⟩, .inl (by decide), ?_⟩
  intro apart
  exact apart.ids (by decide)

end Subscription

end Morrow
