import Morrow.LeaseSweep

/-!
# Dead letters

A consumer may keep a message it has given up as a dead letter. The dead letters of all
consumers are kept by the message's number, so the one of a second consumer takes the
place of the first; and its payload is that of the message in memory, which is gone if
the message is stored in a stream. A dead letter is what it should be, and stays, if
neither matters.
-/

namespace Morrow

open GuardedRuns Procedure DurableBrokerState ByteCodec OrderedMap List DeliveryRun Option

namespace DurableBrokerState

variable {given state : DurableBrokerState} {consumerId : String} {seq : ℕ}

/-- The dead letters are as given, and there are no new messages. -/
def Kept (given state : DurableBrokerState) : Prop :=
  (∀ seq message, state.messages.get? seq = some message →
    given.messages.get? seq = some message) ∧ state.deadLetters = given.deadLetters

namespace Kept

theorem refl (state : DurableBrokerState) : state.Kept state := ⟨fun _ _ known => known, rfl⟩

/-! ### Calls that have nothing to do with dead letters -/

theorem markConsumerReady (kept : given.Kept state) :
    given.Kept (state.markConsumerReady consumerId) := by
  simp only [DurableBrokerState.markConsumerReady]
  split <;> exact kept

theorem undisturbed : Undisturbed given.Kept :=
  ⟨fun _ _ kept => kept, fun _ _ kept => kept, fun _ _ _ _ kept => kept, fun _ _ _ _ kept => kept⟩

theorem moveCursor (kept : given.Kept state) (message : PublishRecord) :
    given.Kept (moveCursor consumerId message state).1 := by
  simp only [DurableBrokerState.moveCursor]
  split
  · exact kept
  · split <;> exact kept

/-- Acknowledged messages may be forgotten. -/
theorem cleanupAckedMessages (kept : given.Kept state) : given.Kept state.cleanupAckedMessages := by
  refine ⟨fun seq message known => kept.1 seq message ?_, kept.2⟩
  simp only [DurableBrokerState.cleanupAckedMessages, get?_retain,
    filter_eq_some_iff] at known
  exact known.1

theorem keeps_ackInner (seq deliveryId : ℕ) :
    (ackInner consumerId seq deliveryId).Keeps given.Kept :=
  undisturbed.calm.ackInner (fun _ _ kept => kept.moveCursor _) (fun _ _ kept => kept)
    (fun _ _ kept => kept) (fun _ kept => kept.markConsumerReady)
    (fun _ kept => kept.cleanupAckedMessages) deliveryId

theorem keeps_createPullConsumer (record : ConsumerRecord) (selected : List StreamDefinition) :
    (createPullConsumer record selected).Keeps given.Kept := by
  refine .bind (.read _) fun _ => .bind (.read _) fun cursors => .bind (.await _) fun _ => ?_
  refine .bind (.await _) fun _ => .bind (undisturbed.append _) fun _ =>
    .bind (undisturbed.append _) fun _ => ?_
  refine .bind (.change fun _ kept => kept) fun _ => ?_
  exact .bind (.change fun _ kept => kept.markConsumerReady) fun _ => undisturbed.calm.flushDue

theorem keeps_deletePullConsumer (consumerId : String) :
    (deletePullConsumer consumerId).Keeps given.Kept :=
  .bind (.read _) fun _ => .bind (.await _) fun _ => .bind (undisturbed.append _) fun _ =>
    .bind (.change fun _ kept => kept) fun _ => undisturbed.calm.flushDue

end Kept

/-! ### Giving up a message -/

/-- A due lease is the last attempt, and the message is to be kept as a dead letter. -/
def GivesUp (now : ℕ) (state : DurableBrokerState) (consumerId : String) (seq : ℕ) : Prop :=
  ∃ consumer lease, state.consumers.get? consumerId = some consumer ∧
    consumer.inFlight.get? seq = some lease ∧ lease.deadlineMs ≤ now ∧
    exhausted consumer.record.retryPolicy lease = true ∧
    consumer.record.retryPolicy.terminalAction = .deadLetter

/-- The consumer keeps what it gives up. -/
def KeepsLetters (state : DurableBrokerState) (consumerId : String) : Prop :=
  ∃ consumer, state.consumers.get? consumerId = some consumer ∧
    consumer.record.retryPolicy.terminalAction = .deadLetter

/-- There is a dead letter of the consumer for the message, with the given payload. -/
def HasLetter (state : DurableBrokerState) (consumerId : String) (seq : ℕ)
    (payload : Bytes) : Prop :=
  ∃ id letter, state.deadLetters.get? id = some letter ∧ letter.consumerId = consumerId ∧
    letter.sourceSeq = seq ∧ letter.payload = payload

/-- The dead letter under the message's number is of the consumer. -/
def HoldsLetter (state : DurableBrokerState) (consumerId : String) (seq : ℕ)
    (payload : Bytes) : Prop :=
  ∃ letter, state.deadLetters.get? seq = some letter ∧ letter.consumerId = consumerId ∧
    letter.sourceSeq = seq ∧ letter.payload = payload

/-- Whoever gives up a message is the only one to, and the message is known. -/
def GivesUpAlone (now : ℕ) (state : DurableBrokerState) : Prop :=
  ∀ consumerId seq, state.GivesUp now consumerId seq →
    (∃ message, state.messages.get? seq = some message) ∧
    ∀ other, state.GivesUp now other seq → other = consumerId

/-- A message was given up, and its consumer has the dead letter. -/
def GaveUp (now : ℕ) (given state : DurableBrokerState) (consumerId : String) (seq : ℕ) : Prop :=
  ∃ message, given.GivesUp now consumerId seq ∧ given.messages.get? seq = some message ∧
    state.HoldsLetter consumerId seq message.payload

/-- What a sweep has done so far. -/
structure Swept (now : ℕ) (given state : DurableBrokerState) : Prop where
  messages : state.messages = given.messages
  records : ∀ consumerId consumer, state.consumers.get? consumerId = some consumer →
    ∃ old, given.consumers.get? consumerId = some old ∧ old.record = consumer.record
  leases : ∀ consumerId seq lease, state.lease? consumerId seq = some lease →
    lease.retryWaiting = true ∨ given.lease? consumerId seq = some lease
  letters : ∀ seq, state.deadLetters.get? seq = given.deadLetters.get? seq ∨
    ∃ consumerId, GaveUp now given state consumerId seq
  journal : ∃ added, state.wal.journal = given.wal.journal ++ added ∧
    ∀ ack, WalRecord.ack ack ∈ added → given.KeepsLetters ack.consumerId →
      GaveUp now given state ack.consumerId ack.seq

namespace Swept

variable {now : ℕ}

theorem refl (state : DurableBrokerState) : Swept now state state where
  messages := rfl
  records := fun _ consumer found => ⟨consumer, found, rfl⟩
  leases := fun _ _ _ held => .inr held
  letters := fun _ => .inl rfl
  journal := ⟨[], (append_nil _).symm, fun _ member => absurd member not_mem_nil⟩

/-- A change of the queue, or of anything else that a sweep's result does not depend on. -/
theorem frame {after : DurableBrokerState} (swept : Swept now given state)
    (messages : after.messages = state.messages) (consumers : after.consumers = state.consumers)
    (letters : after.deadLetters = state.deadLetters) (wal : after.wal = state.wal) :
    Swept now given after := by
  obtain ⟨sameMessages, records, leases, kept, journal⟩ := swept
  refine ⟨messages.trans sameMessages, ?_, ?_, ?_, ?_⟩
  · rwa [consumers]
  · simp only [lease?, consumers]
    exact leases
  · simp only [GaveUp, HoldsLetter, letters]
    exact kept
  · simp only [GaveUp, HoldsLetter, letters, wal]
    exact journal

theorem modifyConsumer (swept : Swept now given state) {changed : String}
    {update : Consumer → Consumer}
    (records : ∀ consumer, (update consumer).record = consumer.record)
    (leases : ∀ consumer seq lease, (update consumer).inFlight.get? seq = some lease →
      lease.retryWaiting = true ∨ consumer.inFlight.get? seq = some lease) :
    Swept now given (state.modifyConsumer changed update) where
  messages := swept.messages
  letters := swept.letters
  journal := swept.journal
  records := by
    intro consumerId consumer found
    simp only [DurableBrokerState.modifyConsumer, get?_modify] at found
    split at found
    · obtain ⟨old, known, rfl⟩ := map_eq_some_iff.mp found
      obtain ⟨first, start, same⟩ := swept.records _ old known
      exact ⟨first, start, same.trans (records old).symm⟩
    · exact swept.records _ consumer found
  leases := by
    intro consumerId seq lease held
    obtain ⟨consumer, found, leased⟩ := (lease?_modifyConsumer changed update).mp held
    split at leased
    · rcases leases consumer seq lease leased with waiting | old
      · exact .inl waiting
      · exact swept.leases _ _ _ (lease?_eq_some.mpr ⟨consumer, found, old⟩)
    · exact swept.leases _ _ _ (lease?_eq_some.mpr ⟨consumer, found, leased⟩)

/-- Another record that is not an acknowledgement, or is one of a message that the
consumer has as a dead letter. -/
theorem write (swept : Swept now given state) (record : WalRecord) (wal : BrokerWal)
    (appended : wal.journal = state.wal.journal ++ [record])
    (held : ∀ ack, record = .ack ack → given.KeepsLetters ack.consumerId →
      GaveUp now given state ack.consumerId ack.seq) :
    Swept now given { state with wal := wal } where
  messages := swept.messages
  records := swept.records
  leases := swept.leases
  letters := swept.letters
  journal := by
    obtain ⟨added, same, all⟩ := swept.journal
    refine ⟨added ++ [record], ?_, ?_⟩
    · rw [← append_assoc, ← same]
      exact appended
    · intro ack member keeps
      rcases mem_append.mp member with old | new
      · exact all ack old keeps
      · exact held ack (mem_singleton.mp new).symm keeps

theorem append (record : WalRecord) (pre : DurableBrokerState → Prop)
    (ignores : ∀ state wal, pre state → pre { state with wal := wal })
    (held : ∀ state ack, pre state → record = .ack ack → given.KeepsLetters ack.consumerId →
      GaveUp now given state ack.consumerId ack.seq) :
    (append record).Triple (fun state => Swept now given state ∧ pre state)
      (fun _ state => Swept now given state ∧ pre state) fun _ => Swept now given := by
  rintro state ⟨swept, more⟩
  simp only [DurableBrokerState.append, DurableBrokerState.write]
  split
  · rename_i changed value done
    split at done
    · obtain ⟨rfl, -⟩ := Prod.mk.inj done
      exact ⟨swept.write record _ rfl (held state · more), ignores _ _ more⟩
    · cases (Prod.mk.inj done).2
  · rename_i changed failure done
    split at done
    · cases (Prod.mk.inj done).2
    · obtain ⟨rfl, -⟩ := Prod.mk.inj done
      exact ⟨swept.messages, swept.records, swept.leases, swept.letters, swept.journal⟩

theorem appendOther (record : WalRecord) (other : ∀ ack, record ≠ .ack ack) :
    (DurableBrokerState.append record).Triple (Swept now given) (fun _ => Swept now given)
      fun _ => Swept now given := by
  have written : (DurableBrokerState.append record).Triple
      (fun state => Swept now given state ∧ True) (fun _ state => Swept now given state ∧ True)
      fun _ => Swept now given :=
    append record (fun _ => True) (fun _ _ _ => trivial) fun _ ack _ same => absurd same (other ack)
  exact (written.relax fun _ _ done => done.1).strengthen fun _ swept => ⟨swept, trivial⟩

/-- A dead letter for a message that nobody else gives up. -/
theorem insertLetter (swept : Swept now given state) (alone : given.GivesUpAlone now)
    (letter : DeadLetterRecord) {message : PublishRecord}
    (givesUp : given.GivesUp now letter.consumerId letter.sourceSeq)
    (known : given.messages.get? letter.sourceSeq = some message)
    (payload : letter.payload = message.payload) :
    Swept now given { state with
      deadLetters := state.deadLetters.insert letter.sourceSeq letter } where
  messages := swept.messages
  records := swept.records
  leases := swept.leases
  letters := by
    intro seq
    simp only [GaveUp, HoldsLetter, get?_insert]
    split
    · rename_i own
      subst own
      exact .inr ⟨letter.consumerId, message, givesUp, known, letter, rfl, rfl, rfl, payload⟩
    · exact swept.letters seq
  journal := by
    obtain ⟨added, same, all⟩ := swept.journal
    refine ⟨added, same, fun ack member keeps => ?_⟩
    obtain ⟨found, gaveUp, stored, held⟩ := all ack member keeps
    refine ⟨found, gaveUp, stored, ?_⟩
    simp only [HoldsLetter, get?_insert]
    split
    · rename_i own
      rw [own] at gaveUp stored
      rw [known] at stored
      refine ⟨letter, rfl, ?_, own.symm, payload.trans (congrArg _ (some.inj stored))⟩
      exact ((alone _ _ givesUp).2 _ gaveUp).symm
    · exact held

/-- What is known of a lease that was taken. -/
structure Taken (now : ℕ) (given : DurableBrokerState) (record : ConsumerRecord)
    (deadline : LeaseDeadline) (lease : InFlight) : Prop where
  consumer : ∃ consumer, given.consumers.get? deadline.consumerId = some consumer ∧
    consumer.record = record
  due : lease.deadlineMs ≤ now
  unchanged : lease.retryWaiting = true ∨ given.lease? deadline.consumerId deadline.seq = some lease

theorem Taken.givesUp {record : ConsumerRecord} {deadline : LeaseDeadline} {lease : InFlight}
    (taken : Taken now given record deadline lease)
    (last : exhausted record.retryPolicy lease = true)
    (keeps : given.KeepsLetters deadline.consumerId) :
    given.GivesUp now deadline.consumerId deadline.seq := by
  obtain ⟨consumer, found, rfl⟩ := taken.consumer
  obtain ⟨same, foundAgain, action⟩ := keeps
  rw [found] at foundAgain
  obtain rfl := some.inj foundAgain
  rcases taken.unchanged with waiting | held
  · simp only [exhausted, waiting] at last
    cases last
  · obtain ⟨other, known, leased⟩ := lease?_eq_some.mp held
    rw [found] at known
    obtain rfl := some.inj known
    exact ⟨consumer, lease, found, leased, taken.due, last, action⟩

variable {record : ConsumerRecord} {deadline : LeaseDeadline} {lease : InFlight}

/-- A consumer that keeps what it gives up has the dead letter. -/
def LetterKept (now : ℕ) (given : DurableBrokerState) (deadline : LeaseDeadline)
    (state : DurableBrokerState) : Prop :=
  given.KeepsLetters deadline.consumerId → GaveUp now given state deadline.consumerId deadline.seq

theorem keepDeadLetter (alone : given.GivesUpAlone now)
    (taken : Taken now given record deadline lease)
    (last : exhausted record.retryPolicy lease = true) :
    (keepDeadLetter record deadline lease (given.messages.get? deadline.seq)).Triple
      (Swept now given) (fun _ state => Swept now given state ∧ LetterKept now given deadline state)
      fun _ => Swept now given := by
  unfold DurableBrokerState.keepDeadLetter
  split
  · rename_i message action known
    have keeps : given.KeepsLetters deadline.consumerId := by
      obtain ⟨consumer, found, same⟩ := taken.consumer
      exact ⟨consumer, found, by rw [same, action]⟩
    have givesUp := taken.givesUp last keeps
    refine (appendOther (.deadLetter _) fun _ => nofun).bind fun _ => .change fun state swept => ?_
    have inserted := swept.insertLetter alone (deadLetter record deadline lease message) givesUp
      known rfl
    refine ⟨inserted, fun _ => ⟨message, givesUp, known, ?_⟩⟩
    exact ⟨deadLetter record deadline lease message, get?_insert_self _ _ _, rfl, rfl, rfl⟩
  · rename_i other
    refine .pure fun state swept => ⟨swept, fun keeps => ?_⟩
    obtain ⟨message, known⟩ := (alone _ _ (taken.givesUp last keeps)).1
    obtain ⟨consumer, found, same⟩ := taken.consumer
    obtain ⟨again, foundAgain, action⟩ := keeps
    rw [found] at foundAgain
    obtain rfl := some.inj foundAgain
    rw [same] at action
    exact absurd known (other message action)

theorem finishDelivery (alone : given.GivesUpAlone now)
    (taken : Taken now given record deadline lease)
    (last : exhausted record.retryPolicy lease = true) :
    (finishDelivery record deadline lease).Triple (Swept now given) (fun _ => Swept now given)
      fun _ => Swept now given := by
  refine .read_bind fun message => ?_
  refine .strengthen (.of_fact fun same : message = given.messages.get? deadline.seq => ?_)
    fun state (held : Swept now given state ∧ _) =>
      ⟨held.1, by rw [← held.1.messages]; exact held.2.symm⟩
  rw [same]
  refine (keepDeadLetter alone taken last).bind fun _ => ?_
  have acked := append (.ack ⟨deadline.seq, deadline.consumerId, lease.deliveryId⟩)
    (LetterKept now given deadline) (fun _ _ kept => kept) fun state ack kept own => by
      rw [← WalRecord.ack.inj own]
      exact kept
  refine (acked.relax fun _ _ done => done.1).bind fun _ => ?_
  refine .read_bind fun cursors => .change_bind (Swept now given) (fun state held => ?_) ?_
  · refine held.1.modifyConsumer (fun consumer => ?_) fun consumer seq lease leased => .inr ?_
    · cases cursors <;> rfl
    · rwa [settle_inFlight] at leased
  · split
    · exact appendOther (.consumerCursor _) fun _ => nofun
    · exact .pure fun _ swept => swept

theorem retryDelivery (record : ConsumerRecord) (deadline : LeaseDeadline) (lease : InFlight) :
    (retryDelivery now record deadline lease).Triple (Swept now given) (fun _ => Swept now given)
      fun _ => Swept now given := by
  unfold DurableBrokerState.retryDelivery
  split
  · refine .change fun state swept => ?_
    have requeued : Swept now given (state.modifyConsumer deadline.consumerId fun consumer =>
        { consumer with
          pending := insert deadline.seq consumer.pending
          pendingAttempts := consumer.pendingAttempts.insert deadline.seq
            (if lease.retryWaiting then lease.attempt else nextAttempt lease.attempt) }) :=
      swept.modifyConsumer (fun _ => rfl) fun _ _ _ held => .inr held
    exact requeued.frame rfl rfl rfl rfl
  · split
    · exact .await fun _ swept => swept
    · refine (appendOther (.deliveryAttempt _) fun _ => nofun).bind fun _ => ?_
      refine .change_bind (Swept now given) (fun state swept => ?_) (.change fun state swept => ?_)
      · refine swept.modifyConsumer (fun _ => rfl) fun consumer seq other held => ?_
        rcases get?_insert_eq_some.mp held with ⟨-, rfl⟩ | ⟨-, old⟩
        · exact .inl rfl
        · exact .inr old
      · simp only [scheduleLease, compactStaleDeadlines]
        split
        · exact swept.frame rfl rfl rfl rfl
        · split <;> exact swept.frame rfl rfl rfl rfl

theorem expireLease (alone : given.GivesUpAlone now)
    (taken : Taken now given record deadline lease) :
    (expireLease now record deadline lease).Triple (Swept now given) (fun _ => Swept now given)
      fun _ => Swept now given := by
  unfold DurableBrokerState.expireLease
  split
  · rename_i last
    exact finishDelivery alone taken last
  · exact retryDelivery record deadline lease

/-- A lease is taken as it was, with its consumer's record. -/
theorem take (swept : Swept now given state) (live : state.stale deadline = false)
    (due : deadline.deadlineMs ≤ now) :
    ∃ taken, (state.takeLease deadline).2 = some taken ∧
      Swept now given (state.takeLease deadline).1 ∧ Taken now given taken.1 deadline taken.2 := by
  obtain ⟨lease, held, entry⟩ := lease?_of_not_stale live
  obtain ⟨consumer, known, leased⟩ := lease?_eq_some.mp held
  simp only [takeLease, known, leased]
  refine ⟨_, rfl, ?_, swept.records _ consumer known, ?_, swept.leases _ _ _ held⟩
  · refine swept.modifyConsumer (fun _ => rfl) fun consumer seq lease leased => .inr ?_
    exact (get?_erase_eq_some.mp leased).2
  · rw [entry] at due
    exact due

theorem keeps_expireDueLeases (alone : given.GivesUpAlone now) (limit : ℕ) :
    (expireDueLeases now limit).Keeps (Swept now given) := by
  induction limit with
  | zero => exact .pure _
  | succ limit ih =>
    have expired : (expireDueLeases now (limit + 1)).Triple (Swept now given)
        (fun _ => Swept now given) fun _ => Swept now given := by
      refine .change_bind (fun state => Swept now given state ∧ ∀ deadline,
        state.leaseDeadlines.peek? = some deadline → state.stale deadline = false) ?_ ?_
      · exact fun state swept => ⟨swept.frame rfl rfl rfl rfl,
          fun _ top => PriorityQueue.peek?_discard top⟩
      refine .read_bind fun next => ?_
      cases next with
      | none => exact .pure fun state held => held.1.1
      | some deadline =>
        dsimp only
        split
        · exact .pure fun state held => held.1.1
        · rename_i due
          refine .change_bind (fun state => Swept now given state ∧ state.stale deadline = false)
            (fun state held => ?_) ?_
          · exact ⟨held.1.1.frame rfl rfl rfl rfl, held.1.2 deadline held.2⟩
          refine .answer_bind (fun answer state => ∃ taken, answer = some taken ∧
            Swept now given state ∧ Taken now given taken.1 deadline taken.2)
            (fun state held => held.1.take held.2 (not_lt.mp due)) fun answer => ?_
          cases answer with
          | none =>
            rintro state ⟨taken, impossible, -⟩
            cases impossible
          | some taken =>
            have swept : (expireDueLeases now limit >>= fun count => pure (count + 1)).Keeps
                (Swept now given) := .bind ih fun _ => .pure _
            rintro state ⟨same, found, held, known⟩
            obtain rfl := some.inj found
            exact ((expireLease alone known).bind fun _ =>
              .of_keeps swept fun _ _ kept => kept) state held
    exact expired.keeps

end Swept

/-! ### Purging and replaying -/

/-- The messages are as given, and so are the dead letters but for one. -/
def AllBut (id : ℕ) (given state : DurableBrokerState) : Prop :=
  state.messages = given.messages ∧
    ∀ other, other ≠ id → state.deadLetters.get? other = given.deadLetters.get? other

namespace AllBut

variable {id : ℕ}

theorem keeps_append (record : WalRecord) : (append record).Keeps (AllBut id given) :=
  keeps_write (fun _ _ kept => kept) _

theorem eraseLetter (kept : AllBut id given state) :
    AllBut id given { state with deadLetters := state.deadLetters.erase id } := by
  refine ⟨kept.1, fun other different => ?_⟩
  rw [get?_erase, if_neg different]
  exact kept.2 other different

theorem keeps_purgeDeadLetter (id : ℕ) : (purgeDeadLetter id).Keeps (AllBut id given) := by
  refine .bind (.read _) fun known => ?_
  split
  · exact .bind (keeps_append _) fun _ => .bind (.change fun _ => eraseLetter) fun _ => .pure _
  · exact .pure _

theorem keeps_replayDeadLetter (id : ℕ) : (replayDeadLetter id).Keeps (AllBut id given) := by
  refine .bind (.read _) fun letter => ?_
  split
  · exact .pure _
  · refine .bind (.read _) fun possible => ?_
    split
    · refine .bind (keeps_append _) fun _ => .bind (.change fun _ => eraseLetter) fun _ => ?_
      refine .bind (.change fun _ kept => kept) fun _ => .bind (.change fun state kept => ?_)
        fun _ => .pure _
      simp only [markConsumerReady]
      split <;> exact kept
    · exact .pure _

end AllBut

end DurableBrokerState

/-! ### Whole runs -/

/-- A message in memory has the payload that was published, unless it is in a stream. -/
def Resident (published : ℕ → Bytes) (messages : OrderedMap ℕ PublishRecord) : Prop :=
  ∀ seq message, messages.get? seq = some message →
    message.payload = if message.stream.isSome then [] else published seq

namespace DeliveryRun

variable {published : ℕ → Bytes} {run : DeliveryRun} {action : DeliveryAction}
  {consumerId : String} {seq : ℕ}

/-- The payloads are the published ones. -/
def Publishes (published : ℕ → Bytes) : DeliveryAction → Prop
  | .publish record => record.payload = published record.seq
  | .sync messages _ => Resident published messages
  | _ => True

/-- A dead letter is neither purged nor replayed. -/
def Spares (consumerId : String) (seq : ℕ) (run : DeliveryRun) : DeliveryAction → Prop
  | .purge id | .replay id => ∀ letter, run.broker.deadLetters.get? id = some letter →
    ¬ (letter.consumerId = consumerId ∧ letter.sourceSeq = seq)
  | _ => True

/-- The attempts of a consumer that keeps dead letters end in a sweep, which journals
that the consumer is done with the message. -/
def Exhausts (now limit : ℕ) (state : DurableBrokerState) (consumerId : String) (seq : ℕ) : Prop :=
  state.KeepsLetters consumerId ∧ ∃ deliveryId, .ack ⟨seq, consumerId, deliveryId⟩ ∈
    (expireDueLeases now limit state).1.wal.journal.drop state.wal.journal.length

/-- A message that is given up is known, and it has no payload if it is in a stream; no
other consumer gives it up in the same sweep or has a dead letter for it. -/
def Independent (published : ℕ → Bytes) (run : DeliveryRun) : DeliveryAction → Prop
  | .expire now _ => ∀ consumerId seq, run.broker.GivesUp now consumerId seq →
    (∃ message, run.broker.messages.get? seq = some message ∧
      (message.stream.isSome → published seq = [])) ∧
    (∀ other, run.broker.GivesUp now other seq → other = consumerId) ∧
    ∀ letter, run.broker.deadLetters.get? seq = some letter → letter.consumerId = consumerId
  | _ => True

variable {now limit : ℕ}

theorem Independent.alone (independent : run.Independent published (.expire now limit)) :
    run.broker.GivesUpAlone now := by
  intro consumerId seq givesUp
  obtain ⟨⟨message, known, -⟩, only, -⟩ := independent consumerId seq givesUp
  exact ⟨⟨message, known⟩, only⟩

theorem Independent.swept (independent : run.Independent published (.expire now limit)) :
    Swept now run.broker (expireDueLeases now limit run.broker).1 :=
  Swept.keeps_expireDueLeases independent.alone limit run.broker (.refl _)

/-- Actions that have nothing to do with dead letters. -/
def Ordinary : DeliveryAction → Prop
  | .publish _ | .expire .. | .sync .. | .purge _ | .replay _ => False
  | _ => True

theorem kept_next (run : DeliveryRun) (ordinary : Ordinary action) :
    run.broker.Kept (run.next action).broker := by
  have start := Kept.refl run.broker
  cases action with
  | push consumerId connections world =>
    exact Kept.undisturbed.deliverNext connections world _ start
  | startFetch id consumerId maxMessages maxBytes maxEncodedBytes partitions =>
    simp only [next]
    split <;> exact start
  | advanceFetch id world =>
    simp only [next, advanceFetch]
    split
    · exact start
    · exact Kept.undisturbed.advance _ world start
  | updateLease consumerId seq deliveryId deadlineMs =>
    exact Kept.undisturbed.updatePullLease seq deliveryId deadlineMs _ start
  | ack consumerId seq deliveryId => exact Kept.keeps_ackInner seq deliveryId _ start
  | nextDeadline => exact start
  | upsert record selected => exact start
  | create record selected => exact Kept.keeps_createPullConsumer record selected _ start
  | delete consumerId => exact Kept.keeps_deletePullConsumer consumerId _ start
  | publish | expire | sync | purge | replay => exact ordinary.elim

variable {state : DurableBrokerState}

theorem Kept.resident {given : DurableBrokerState} (kept : given.Kept state)
    (resident : Resident published given.messages) : Resident published state.messages :=
  fun seq message known => resident seq message (kept.1 seq message known)

theorem resident_publish {record : PublishRecord} (same : record.payload = published record.seq)
    (resident : Resident published state.messages) :
    Resident published (publishRecord record state).1.messages := by
  have kept : (publishRecord record).Keeps fun state => Resident published state.messages := by
    refine .bind (keeps_write (fun _ _ held => held) _) fun _ => .change fun state resident => ?_
    intro seq message known
    simp only [showRecord, markSubjectReady, observePublishedRecord, get?_insert] at known
    split at known
    · rename_i own
      rw [← some.inj known, own]
      simp only [PublishRecord.intoResidentMetadata]
      split
      · rfl
      · exact same
    · exact resident seq message known
  exact kept state resident

theorem deadLetters_publish (record : PublishRecord) (state : DurableBrokerState) :
    (publishRecord record state).1.deadLetters = state.deadLetters := by
  have kept : (publishRecord record).Keeps (·.deadLetters = state.deadLetters) :=
    .bind (keeps_write (fun _ _ held => held) _) fun _ => .change fun _ held => held
  exact kept state rfl

theorem allBut_purge (id : ℕ) (state : DurableBrokerState) :
    AllBut id state (purgeDeadLetter id state).1 :=
  AllBut.keeps_purgeDeadLetter id state ⟨rfl, fun _ _ => rfl⟩

theorem allBut_replay (id : ℕ) (state : DurableBrokerState) :
    AllBut id state (replayDeadLetter id state).1 :=
  AllBut.keeps_replayDeadLetter id state ⟨rfl, fun _ _ => rfl⟩

/-- What one action preserves of the messages. -/
theorem resident_next (publishes : Publishes published action)
    (independent : run.Independent published action)
    (resident : Resident published run.broker.messages) :
    Resident published (run.next action).broker.messages := by
  cases action with
  | publish record => exact resident_publish publishes resident
  | expire now limit =>
    have same := independent.swept.messages
    simp only [next, same]
    exact resident
  | sync messages consumers => exact publishes
  | purge id =>
    simp only [next, (allBut_purge id run.broker).1]
    exact resident
  | replay id =>
    simp only [next, (allBut_replay id run.broker).1]
    exact resident
  | push | startFetch | advanceFetch | updateLease | ack | nextDeadline | upsert | create
  | delete =>
    refine Kept.resident (kept_next run ?_) resident
    trivial

/-- A dead letter that is not purged or replayed. -/
theorem holdsLetter_allBut {id : ℕ} {payload : Bytes}
    (spares : ∀ letter, run.broker.deadLetters.get? id = some letter →
      ¬ (letter.consumerId = consumerId ∧ letter.sourceSeq = seq))
    (kept : AllBut id run.broker state) (held : run.broker.HoldsLetter consumerId seq payload) :
    state.HoldsLetter consumerId seq payload := by
  obtain ⟨letter, found, own, source, same⟩ := held
  refine ⟨letter, ?_, own, source, same⟩
  rw [kept.2 seq, found]
  rintro rfl
  exact spares letter found ⟨own, source⟩

/-- The payload of a dead letter that a sweep makes. -/
theorem payload_of_givesUp {message : PublishRecord}
    (independent : run.Independent published (.expire now limit))
    (resident : Resident published run.broker.messages)
    (givesUp : run.broker.GivesUp now consumerId seq)
    (known : run.broker.messages.get? seq = some message) : message.payload = published seq := by
  obtain ⟨⟨same, knownSame, empty⟩, -⟩ := independent consumerId seq givesUp
  rw [known] at knownSame
  obtain rfl := some.inj knownSame
  have payload := resident seq message known
  split at payload
  · rename_i inStream
    rw [payload, empty inStream]
  · exact payload

theorem holdsLetter_expire (independent : run.Independent published (.expire now limit))
    (resident : Resident published run.broker.messages)
    (held : run.broker.HoldsLetter consumerId seq (published seq)) :
    (expireDueLeases now limit run.broker).1.HoldsLetter consumerId seq (published seq) := by
  rcases independent.swept.letters seq with same | ⟨other, message, givesUp, known, letter⟩
  · rw [HoldsLetter, same]
    exact held
  · obtain ⟨letter, found, own, -⟩ := held
    obtain rfl : consumerId = other := by
      rw [← own]
      exact (independent other seq givesUp).2.2 letter found
    rwa [payload_of_givesUp independent resident givesUp known] at letter

/-- What one action preserves of a dead letter. -/
theorem holdsLetter_next (independent : run.Independent published action)
    (spares : run.Spares consumerId seq action)
    (resident : Resident published run.broker.messages)
    (held : run.broker.HoldsLetter consumerId seq (published seq)) :
    (run.next action).broker.HoldsLetter consumerId seq (published seq) := by
  cases action with
  | publish record =>
    rw [HoldsLetter, next, deadLetters_publish]
    exact held
  | expire now limit => exact holdsLetter_expire independent resident held
  | sync messages consumers => exact held
  | purge id => exact holdsLetter_allBut spares (allBut_purge id run.broker) held
  | replay id => exact holdsLetter_allBut spares (allBut_replay id run.broker) held
  | push | startFetch | advanceFetch | updateLease | ack | nextDeadline | upsert | create
  | delete =>
    rw [HoldsLetter, (kept_next run ?_).2]
    · exact held
    · trivial

/-- In every run of admitted actions, a message that a consumer with the dead-letter
action has given up is kept as a dead letter of that consumer with the payload that was
published, until that dead letter is purged or replayed. -/
def LettersFaithful (guard : (ℕ → Bytes) → DeliveryRun → DeliveryAction → Prop) : Prop :=
  ∀ (published : ℕ → Bytes) (start before last : DeliveryRun) (now limit : ℕ)
    (consumerId : String) (seq : ℕ), Resident published start.broker.messages →
    Reaches next (fun run action => Publishes published action ∧
      guard published run action) start before →
    guard published before (.expire now limit) →
    Exhausts now limit before.broker consumerId seq →
    Reaches next (fun run action => Publishes published action ∧
      guard published run action ∧ run.Spares consumerId seq action)
      (before.next (.expire now limit)) last →
    last.broker.HasLetter consumerId seq (published seq)

/-- Dead letters are kept as long as no two consumers give up one message. -/
theorem lettersFaithful_of_independent {published : ℕ → Bytes} {start before last : DeliveryRun}
    {now limit : ℕ} {consumerId : String} {seq : ℕ}
    (started : Resident published start.broker.messages)
    (first : Reaches next (fun run action => Publishes published action ∧
      run.Independent published action) start before)
    (independent : before.Independent published (.expire now limit))
    (exhausts : Exhausts now limit before.broker consumerId seq)
    (second : Reaches next (fun run action => Publishes published action ∧
      run.Independent published action ∧ run.Spares consumerId seq action)
      (before.next (.expire now limit)) last) :
    last.broker.HasLetter consumerId seq (published seq) := by
  have resident : Resident published before.broker.messages :=
    first.invariant (fun run => Resident published run.broker.messages)
      (fun _ _ admitted held => resident_next admitted.1 admitted.2 held) started
  have made : (before.next (.expire now limit)).broker.HoldsLetter consumerId seq
      (published seq) := by
    obtain ⟨keeps, deliveryId, listed⟩ := exhausts
    obtain ⟨added, journal, all⟩ := independent.swept.journal
    rw [journal, drop_left] at listed
    obtain ⟨message, givesUp, known, letter⟩ := all _ listed keeps
    rwa [payload_of_givesUp independent resident givesUp known] at letter
  have afterwards : Resident published (before.next (.expire now limit)).broker.messages :=
    resident_next trivial independent resident
  have held := second.invariant (fun run => Resident published run.broker.messages ∧
      run.broker.HoldsLetter consumerId seq (published seq))
    (fun _ _ admitted held => ⟨resident_next admitted.1 admitted.2.1 held.1,
      holdsLetter_next admitted.2.1 admitted.2.2 held.1 held.2⟩) ⟨afterwards, made⟩
  exact ⟨seq, held.2⟩

/-- A broker with two consumers that have one attempt for each message and keep dead
letters, and a message for both of them. -/
def twoReaders : DeliveryRun :=
  let policy : RetryPolicy := { RetryPolicy.default with
    maxAttempts := 1
    terminalAction := .deadLetter }
  let reader (name : String) : String × Consumer :=
    (name, { Consumer.fresh ⟨name, "orders.*", none, 30000, 16, .earliest, policy⟩ .default with
      pending := {1} })
  ⟨{ empty with
      consumers := .ofList [reader "c", reader "d"]
      messages := .ofList [(1, ⟨1, "", none, none, none, "orders.a", none, [], 0, none, [104, 105],
        0, 0⟩)] }, ∅⟩

theorem twoReaders_resident : Resident (fun _ => [104, 105]) twoReaders.broker.messages := by
  intro seq message known
  have all : ∀ entry ∈ twoReaders.broker.messages.entries,
      entry.2.payload = if entry.2.stream.isSome then [] else [104, 105] := by decide
  exact all (seq, message) (mem_entries.mpr known)

/-- Only the first consumer fetches the message. -/
def oneFetches : List DeliveryAction :=
  .startFetch 0 "c" 1 100 1000 none :: [0, 0, 0, 0].map fun id => .advanceFetch id stillWorld

/-- The first consumer gives the message up and keeps it as a dead letter. -/
theorem lettersFaithful_single :
    ((oneFetches.foldl next twoReaders).next (.expire 30000 10)).broker.HasLetter
      "c" 1 [104, 105] := by
  let before := oneFetches.foldl next twoReaders
  have fetching : ∀ action ∈ oneFetches, ∀ run : DeliveryRun,
      Publishes (fun _ => [104, 105]) action ∧ run.Independent (fun _ => [104, 105]) action := by
    intro action listed _
    simp only [oneFetches, mem_cons, List.mem_map] at listed
    rcases listed with rfl | ⟨id, -, rfl⟩ <;> exact ⟨trivial, trivial⟩
  have leases : ∀ entry ∈ before.broker.consumers.entries, ∀ lease ∈ entry.2.inFlight.entries,
      entry.1 = "c" ∧ lease.1 = 1 := by decide +kernel
  have known : (before.broker.messages.get? 1).map (·.stream) = some none := by decide +kernel
  have letters : before.broker.deadLetters.entries = [] := by decide +kernel
  have journaled : WalRecord.ack ⟨1, "c", 1⟩ ∈
      (expireDueLeases 30000 10 before.broker).1.wal.journal.drop
        before.broker.wal.journal.length := by decide +kernel
  have keeps : (before.broker.consumers.get? "c").any (fun consumer => decide
      (consumer.record.retryPolicy.terminalAction = .deadLetter)) = true := by decide +kernel
  have run : Reaches next (fun run action => Publishes (fun _ => [104, 105]) action ∧
      run.Independent (fun _ => [104, 105]) action) twoReaders before :=
    .foldl oneFetches twoReaders fetching
  simp only [Option.any_eq_true, decide_eq_true_eq] at keeps
  refine lettersFaithful_of_independent twoReaders_resident run ?_ ⟨keeps, 1, journaled⟩ (.refl _)
  have only : ∀ consumerId seq, before.broker.GivesUp 30000 consumerId seq →
      consumerId = "c" ∧ seq = 1 := by
    rintro consumerId seq ⟨consumer, lease, found, held, -⟩
    exact leases (consumerId, consumer) (mem_entries.mpr found) (seq, lease) (mem_entries.mpr held)
  intro consumerId seq givesUp
  obtain ⟨rfl, rfl⟩ := only consumerId seq givesUp
  obtain ⟨message, stored, outside⟩ := Option.map_eq_some_iff.mp known
  refine ⟨⟨message, stored, fun inside => ?_⟩, fun other also => (only other 1 also).1,
    fun letter kept => ?_⟩
  · simp [outside] at inside
  · have listed := mem_entries.mpr kept
    rw [letters] at listed
    cases listed

/-- Both consumers fetch the message. -/
def bothFetch : List DeliveryAction :=
  [.startFetch 0 "c" 1 100 1000 none, .startFetch 1 "d" 1 100 1000 none] ++
    [0, 0, 0, 0, 1, 1, 1, 1].map fun id => .advanceFetch id stillWorld

/-- Both consumers give up the message in one sweep, and one of them has no dead
letter. -/
theorem second_letter_replaces_first : ¬ LettersFaithful fun _ _ _ => True := by
  intro faithful
  have fetching : ∀ action ∈ bothFetch, DeliveryRun → Publishes (fun _ => [104, 105]) action ∧
      True := by
    intro action listed _
    simp only [bothFetch, cons_append, nil_append, mem_cons, List.mem_map] at listed
    rcases listed with rfl | rfl | ⟨id, -, rfl⟩ <;> exact ⟨trivial, trivial⟩
  have run : Reaches next (fun _ action => Publishes (fun _ => [104, 105]) action ∧
      True) twoReaders (bothFetch.foldl next twoReaders) :=
    .foldl bothFetch twoReaders fetching
  let before := (bothFetch.foldl next twoReaders).broker
  let after := (expireDueLeases 30000 10 before).1
  have journaled : WalRecord.ack ⟨1, "c", 1⟩ ∈
      after.wal.journal.drop before.wal.journal.length := by
    decide +kernel
  have keeps : (before.consumers.get? "c").any (fun consumer => decide
      (consumer.record.retryPolicy.terminalAction = .deadLetter)) = true := by decide +kernel
  simp only [Option.any_eq_true, decide_eq_true_eq] at keeps
  obtain ⟨id, letter, found, own, -⟩ := faithful (fun _ => [104, 105]) twoReaders _ _ 30000 10 "c" 1
    twoReaders_resident run trivial ⟨keeps, 1, journaled⟩ (.refl _)
  have none : after.deadLetters.entries.all (fun entry => decide (entry.2.consumerId ≠ "c")) =
      true := by decide +kernel
  have other := all_eq_true.mp none (id, letter) (mem_entries.mpr found)
  exact of_decide_eq_true other own

end DeliveryRun

end Morrow
