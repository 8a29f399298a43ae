import Morrow.ProducerSequences

/-!
# Publishing under a producer sequence

A durable publish asks for its producer sequence first. It then stores its message,
records the sequence, and tells the publisher and the consumers. Storing and telling
are made of calls into the partition logs, the cluster, the write-ahead log, the views,
the middleware and the connections. What those calls return is given with the publish;
this module follows what each outcome does to the producers the broker knows.
-/

namespace Morrow

inductive AckLevel
  | accepted
  | durable
  | highDurability
  | clusterDurable
deriving DecidableEq

/-- The acknowledgement a publisher asks for, with its number of the publish. -/
structure ProducerAckRequest where
  level : AckLevel
  producer : Option ProducerSequence

/-- What the calls of one publish return. -/
structure PublishCalls where
  acquireStorage : Outcome Unit
  appendEnvelope : Outcome PublishRecord
  appendPartitionAppend : Outcome Unit
  replicatePartition : Outcome PublishRecord
  enforceRetention : Outcome Unit
  applyClusterPartition : Outcome Unit
  advanceRetention : Outcome Unit
  applyRetentionChanges : Outcome Unit
  applyMaterializedViews : Outcome Unit
  appendProducerSequence : Outcome Unit
  runAfterCommitMiddleware : Outcome Unit
  flushPartitionsGrouped : Outcome Unit
  flushGrouped : Outcome Unit
  sendProducerAck : Outcome Unit
  deliverPending : Outcome Unit
  sendOk : Outcome Unit

namespace PublishCalls

variable (calls : PublishCalls)

/-- Store the message on this broker alone. -/
def storeStandalone : Outcome PublishRecord := do
  calls.acquireStorage
  let record ← calls.appendEnvelope
  calls.appendPartitionAppend
  calls.advanceRetention
  calls.applyRetentionChanges
  pure record

/-- Store the message on the replicas of its partition. -/
def storeClustered : Outcome PublishRecord := do
  let record ← calls.replicatePartition
  calls.enforceRetention
  calls.applyClusterPartition
  calls.advanceRetention
  calls.applyRetentionChanges
  calls.applyMaterializedViews
  pure record

variable (ack : Option ProducerAckRequest) (verbose : Bool)

/-- The end of a publish: answer the publisher and serve the consumers. -/
def answer : Outcome Unit := do
  if ack.any (·.level ≠ .accepted) then
    calls.sendProducerAck
  calls.deliverPending
  if ack.isNone ∧ verbose then
    calls.sendOk

def announceStandalone : Outcome Unit := do
  calls.applyMaterializedViews
  calls.runAfterCommitMiddleware
  if ack.all (·.level = .highDurability) then
    calls.flushPartitionsGrouped
    calls.flushGrouped
  calls.answer ack verbose

def announceClustered : Outcome Unit := do
  calls.runAfterCommitMiddleware
  calls.answer ack verbose

def store (clustered : Bool) : Outcome PublishRecord :=
  if clustered then calls.storeClustered else calls.storeStandalone

def announce (clustered : Bool) (ack : Option ProducerAckRequest) (verbose : Bool) : Outcome Unit :=
  if clustered then calls.announceClustered ack verbose else calls.announceStandalone ack verbose

variable (state : ProducerState)

/-- The sequence is journaled, and then completed. -/
def recordSequence (producer : Option ProducerSequence)
    (fingerprint : ℕ) (record : PublishRecord) : ProducerState × Outcome Unit :=
  match producer, calls.appendProducerSequence with
  | none, _ => (state, .ok ())
  | some _, .error failure => (state, .error failure)
  | some producer, .ok () =>
    (state.completeProducerSequence producer fingerprint record, .ok ())

/-- The publish once its sequence was admitted. -/
def publishAdmitted (clustered : Bool) (ack : Option ProducerAckRequest)
    (verbose : Bool) (fingerprint : ℕ) : ProducerState × Outcome Unit :=
  match calls.store clustered with
  | .error failure => (state, .error failure)
  | .ok record =>
    match calls.recordSequence state (ack.bind (·.producer)) fingerprint record with
    | (recorded, .error failure) => (recorded, .error failure)
    | (recorded, .ok ()) => (recorded, calls.announce clustered ack verbose)

/-- The durable part of a publish. A repeated sequence is acknowledged and not stored. -/
def publishDurable (clustered : Bool) (ack : Option ProducerAckRequest)
    (verbose : Bool) (fingerprint : ℕ) : ProducerState × Outcome Unit :=
  match ack.bind (·.producer) with
  | none => calls.publishAdmitted state clustered ack verbose fingerprint
  | some producer =>
    match state.beginProducerSequence producer fingerprint with
    | (begun, .error failure) => (begun, .error failure)
    | (begun, .ok (.duplicate, some _)) => (begun, calls.sendProducerAck)
    | (begun, .ok _) => calls.publishAdmitted begun clustered ack verbose fingerprint

/-- Every call up to the one that journals the sequence returns without an error. -/
def Recorded (clustered : Bool) : Prop :=
  (if clustered then
    (∃ record, calls.replicatePartition = .ok record) ∧ calls.enforceRetention = .ok () ∧
      calls.applyClusterPartition = .ok () ∧ calls.advanceRetention = .ok () ∧
      calls.applyRetentionChanges = .ok () ∧ calls.applyMaterializedViews = .ok ()
  else
    calls.acquireStorage = .ok () ∧ (∃ record, calls.appendEnvelope = .ok record) ∧
      calls.appendPartitionAppend = .ok () ∧ calls.advanceRetention = .ok () ∧
      calls.applyRetentionChanges = .ok ()) ∧
  calls.appendProducerSequence = .ok ()

end PublishCalls

/-- The sequence is not in progress, and the same publish may be made again. -/
def ProducerState.Retriable (state : ProducerState) (producer : ProducerSequence)
    (fingerprint : ℕ) : Prop :=
  producer ∉ state.producerInFlight ∧ state.Accepts producer fingerprint

namespace PublishCalls

variable {calls : PublishCalls} {clustered : Bool}

theorem storeStandalone_eq_ok :
    (∃ record, calls.storeStandalone = .ok record) ↔
      calls.acquireStorage = .ok () ∧ (∃ record, calls.appendEnvelope = .ok record) ∧
        calls.appendPartitionAppend = .ok () ∧ calls.advanceRetention = .ok () ∧
        calls.applyRetentionChanges = .ok () := by
  simp only [storeStandalone, bind_eq_ok]
  constructor
  · rintro ⟨stored, ⟨⟩, acquired, record, appended, ⟨⟩, journaled, ⟨⟩, advanced, ⟨⟩, applied, -⟩
    exact ⟨acquired, ⟨record, appended⟩, journaled, advanced, applied⟩
  · rintro ⟨acquired, ⟨record, appended⟩, journaled, advanced, applied⟩
    exact ⟨record, (), acquired, record, appended, (), journaled, (), advanced, (), applied, rfl⟩

theorem storeClustered_eq_ok :
    (∃ record, calls.storeClustered = .ok record) ↔
      (∃ record, calls.replicatePartition = .ok record) ∧ calls.enforceRetention = .ok () ∧
        calls.applyClusterPartition = .ok () ∧ calls.advanceRetention = .ok () ∧
        calls.applyRetentionChanges = .ok () ∧ calls.applyMaterializedViews = .ok () := by
  simp only [storeClustered, bind_eq_ok]
  constructor
  · rintro ⟨stored, record, replicated, ⟨⟩, enforced, ⟨⟩, mirrored, ⟨⟩, advanced, ⟨⟩, applied,
      ⟨⟩, viewed, -⟩
    exact ⟨⟨record, replicated⟩, enforced, mirrored, advanced, applied, viewed⟩
  · rintro ⟨⟨record, replicated⟩, enforced, mirrored, advanced, applied, viewed⟩
    exact ⟨record, record, replicated, (), enforced, (), mirrored, (), advanced, (), applied,
      (), viewed, rfl⟩

theorem recorded_iff : calls.Recorded clustered ↔
    (∃ record, calls.store clustered = .ok record) ∧ calls.appendProducerSequence = .ok () := by
  unfold Recorded store
  cases clustered with
  | true => simp only [if_true, storeClustered_eq_ok]
  | false => simp only [Bool.false_eq_true, if_false, storeStandalone_eq_ok]

variable {state : ProducerState} {ack : ProducerAckRequest} {verbose : Bool}
  {producer : ProducerSequence} {fingerprint : ℕ}

/-- A publish whose calls do not come to record the sequence leaves it in progress;
one that records it leaves it completed, whatever the later calls return. -/
theorem publishAdmitted_state (numbered : ack.producer = some producer) :
    (¬ calls.Recorded clustered ∧
      (calls.publishAdmitted state clustered (some ack) verbose fingerprint).1 = state) ∨
    (calls.Recorded clustered ∧ ∃ record,
      (calls.publishAdmitted state clustered (some ack) verbose fingerprint).1 =
        state.completeProducerSequence producer fingerprint record) := by
  rw [recorded_iff]
  simp only [publishAdmitted, Option.bind_some, numbered, recordSequence]
  cases stored : calls.store clustered with
  | error failure => simp
  | ok record =>
    cases journaled : calls.appendProducerSequence with
    | error failure => simp
    | ok done => exact .inr ⟨⟨⟨record, rfl⟩, rfl⟩, record, rfl⟩

/-- A completed sequence may be published again. -/
theorem retriable_complete (record : PublishRecord) :
    (state.completeProducerSequence producer fingerprint record).Retriable producer
      fingerprint := by
  constructor
  · exact Finset.notMem_erase _ _
  · have found : (state.completeProducerSequence producer fingerprint record).producerSequences.get?
        producer = some ⟨fingerprint, record⟩ := OrderedMap.get?_insert_self _ _ _
    exact ⟨_, congrArg Prod.snd (ProducerState.begin_known found)⟩

theorem publishDurable_of_new (numbered : ack.producer = some producer)
    (admitted : (state.beginProducerSequence producer fingerprint).2 = .ok (.new, none)) :
    calls.publishDurable state clustered (some ack) verbose fingerprint =
      calls.publishAdmitted (state.beginProducerSequence producer fingerprint).1 clustered
        (some ack) verbose fingerprint := by
  cases answered : state.beginProducerSequence producer fingerprint with
  | mk begun decision =>
    rw [answered] at admitted
    obtain rfl : decision = .ok (.new, none) := admitted
    simp only [publishDurable, Option.bind_some, numbered, answered]

/-- A publish that was admitted as new leaves a sequence that can be retried exactly
when it came to record the sequence, wherever it then fails. -/
theorem retriable_iff (calls : PublishCalls) (clustered verbose : Bool)
    (state : ProducerState) (ack : ProducerAckRequest) (producer : ProducerSequence)
    (fingerprint : ℕ) (numbered : ack.producer = some producer)
    (admitted : (state.beginProducerSequence producer fingerprint).2 = .ok (.new, none)) :
    (calls.publishDurable state clustered (some ack) verbose fingerprint).1.Retriable producer
      fingerprint ↔ calls.Recorded clustered := by
  rw [publishDurable_of_new numbered admitted]
  rcases publishAdmitted_state numbered with ⟨notRecorded, same⟩ | ⟨recorded, record, same⟩
  · rw [same]
    constructor
    · exact fun retriable => absurd (ProducerState.inFlight_of_new admitted) retriable.1
    · exact fun recorded => absurd recorded notRecorded
  · rw [same]
    exact ⟨fun _ => recorded, fun _ => retriable_complete record⟩

/-- The calls of a publish of which all succeed. -/
def sampleCalls : PublishCalls :=
  let record : PublishRecord :=
    ⟨0, "", none, none, none, "", none, [], 0, none, [], 0, 0⟩
  ⟨.ok (), .ok record, .ok (), .ok record, .ok (), .ok (), .ok (), .ok (), .ok (), .ok (),
    .ok (), .ok (), .ok (), .ok (), .ok (), .ok ()⟩

/-- A publish that fails to reach the disk after it was recorded can be retried. -/
theorem retriable_after_failed_flush :
    let calls : PublishCalls :=
      { sampleCalls with flushGrouped := .error (.error "fsyncing") }
    let final := calls.publishDurable ProducerState.empty false
      (some ⟨.highDurability, some ⟨"p", 0, 0⟩⟩) false 7
    final.2 = .error (.error "fsyncing") ∧ final.1.Retriable ⟨"p", 0, 0⟩ 7 := by
  intro calls final
  constructor
  · rfl
  · apply (retriable_iff calls false false ProducerState.empty ⟨.highDurability, some ⟨"p", 0, 0⟩⟩
      ⟨"p", 0, 0⟩ 7 rfl (by rfl)).mpr
    exact ⟨⟨rfl, ⟨_, rfl⟩, rfl, rfl, rfl⟩, rfl⟩

/-- After a failed append the sequence stays in progress, and it is refused from then on. -/
theorem failed_append_blocks_sequence :
    let calls : PublishCalls :=
      { sampleCalls with appendEnvelope := .error (.error "no space left on device") }
    let final := calls.publishDurable ProducerState.empty false
      (some ⟨.highDurability, some ⟨"p", 0, 0⟩⟩) false 7
    (ProducerState.empty.beginProducerSequence ⟨"p", 0, 0⟩ 7).2 = .ok (.new, none) ∧
      final.2 = .error (.error "no space left on device") ∧
      ¬ final.1.Retriable ⟨"p", 0, 0⟩ 7 ∧
      (final.1.beginProducerSequence ⟨"p", 0, 0⟩ 7).2 =
        .error (.error "producer sequence is already in progress") := by
  intro calls final
  refine ⟨rfl, rfl, ?_, rfl⟩
  rintro ⟨gone, -⟩
  exact gone (by decide +kernel)

end PublishCalls

end Morrow
