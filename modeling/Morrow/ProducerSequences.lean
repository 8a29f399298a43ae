import Morrow.BrokerRecords
import Morrow.GuardedRuns

/-!
# Producer sequences

A producer numbers its publishes within an epoch. The broker remembers what it has
stored, so that a repeated publish is answered from memory, and the epoch of every
producer, so that an earlier incarnation can be refused. A publish begins its
sequence before it is stored and completes it afterwards; the two calls of one
publish may be interleaved with those of others.
-/

namespace Morrow

open OrderedMap Option

/-- The number of a publish. It is also the key under which the publish is known. -/
structure ProducerSequence where
  producerId : String
  epoch : ℕ
  sequence : ℕ
deriving DecidableEq

namespace ProducerSequence

/-- Sequences are ordered by producer, then epoch, then number. -/
def rank (producer : ProducerSequence) : String ×ₗ ℕ ×ₗ ℕ :=
  toLex (producer.producerId, toLex (producer.epoch, producer.sequence))

theorem rank_injective : Function.Injective rank := by
  rintro ⟨leftId, leftEpoch, leftSequence⟩ ⟨rightId, rightEpoch, rightSequence⟩ same
  obtain ⟨rfl, rest⟩ := Prod.mk.inj (toLex.injective same)
  obtain ⟨rfl, rfl⟩ := Prod.mk.inj (toLex.injective rest)
  rfl

instance : LinearOrder ProducerSequence := LinearOrder.lift' rank rank_injective

end ProducerSequence

structure ProducerDedupEntry where
  fingerprint : ℕ
  record : PublishRecord
deriving DecidableEq

inductive ProducerSequenceDecision
  | new
  | duplicate
deriving DecidableEq

/-- The largest number of sequences remembered for one epoch of a producer. -/
def maxProducerSequencesPerProducer : ℕ := 4096

/-- What the broker knows about its producers. -/
structure ProducerState where
  producerEpochs : OrderedMap String ℕ
  producerSequences : OrderedMap ProducerSequence ProducerDedupEntry
  producerInFlight : Finset ProducerSequence
deriving DecidableEq

namespace ProducerState

/-- A broker that has not heard from any producer. -/
def empty : ProducerState := ⟨∅, ∅, ∅⟩

variable (state : ProducerState) (producer : ProducerSequence)

/-- The remembered sequences of a producer's epoch. -/
def known : List ProducerSequence :=
  state.producerSequences.keys.filter fun identity =>
    identity.producerId = producer.producerId ∧ identity.epoch = producer.epoch

/-- A newer epoch is recorded, and the sequences of the producer are forgotten. -/
def fence : ProducerState :=
  { state with
    producerEpochs := state.producerEpochs.insert producer.producerId producer.epoch
    producerSequences := state.producerSequences.retain fun identity _ =>
      identity.producerId ≠ producer.producerId }

/-- The sequence has to continue what is remembered of its epoch. -/
def checkNext : Option ℕ → Outcome Unit
  | none => ensure (producer.sequence ≤ 1) "producer sequence gap"
  | some last =>
    if producer.sequence ≤ last then
      ensure (producer.sequence = saturatingSucc last)
        "producer sequence is outside the deduplication frontier"
    else ensure (producer.sequence = saturatingSucc last) "producer sequence gap"

/-- A sequence that is not remembered may begin. -/
def checkNew : Outcome Unit := do
  ensure (∀ identity ∈ state.producerInFlight, ¬ (identity.producerId = producer.producerId ∧
    identity.epoch = producer.epoch ∧ identity.sequence ≠ producer.sequence))
    "producer has another sequence in progress"
  checkNext producer ((state.known producer).map (·.sequence)).max?
  ensure (producer ∉ state.producerInFlight) "producer sequence is already in progress"

/-- The epoch a producer is known by; an unknown producer sets it. -/
def currentEpoch : ℕ :=
  (state.producerEpochs.get? producer.producerId).getD producer.epoch

def raiseEpoch : ProducerState :=
  if state.currentEpoch producer < producer.epoch then state.fence producer else state

variable (fingerprint : ℕ)

/-- The state keeps a newer epoch even if the call then fails. -/
def beginProducerSequence :
    ProducerState × Outcome (ProducerSequenceDecision × Option PublishRecord) :=
  match state.producerSequences.get? producer with
  | some entry =>
    (state, do
      ensure (entry.fingerprint = fingerprint)
        "producer sequence was reused with different content"
      pure (.duplicate, some entry.record))
  | none =>
    if producer.epoch < state.currentEpoch producer then
      (state, .error (.error "producer epoch is stale and has been fenced"))
    else
      let raised := state.raiseEpoch producer
      match raised.checkNew producer with
      | .error failure => (raised, .error failure)
      | .ok () =>
        ({ raised with producerInFlight := insert producer raised.producerInFlight },
          .ok (.new, none))

/-- Make room for another sequence of the epoch. -/
def dropOldest :
    OrderedMap ProducerSequence ProducerDedupEntry :=
  if maxProducerSequencesPerProducer ≤ (state.known producer).length then
    match (state.known producer).argmin (·.sequence) with
    | some oldest => state.producerSequences.erase oldest
    | none => state.producerSequences
  else state.producerSequences

def completeProducerSequence
    (record : PublishRecord) : ProducerState where
  producerInFlight := state.producerInFlight.erase producer
  producerEpochs := state.producerEpochs.insert producer.producerId producer.epoch
  producerSequences := (state.dropOldest producer).insert producer ⟨fingerprint, record⟩

/-! ### Interleaved calls -/

/-- A call of some producer's publish. -/
inductive Call
  | begin (producer : ProducerSequence) (fingerprint : ℕ)
  | complete (producer : ProducerSequence) (fingerprint : ℕ) (record : PublishRecord)

def call : Call → ProducerState
  | .begin producer fingerprint => (state.beginProducerSequence producer fingerprint).1
  | .complete producer fingerprint record =>
    state.completeProducerSequence producer fingerprint record

/-- A publish completes the sequence it began. -/
def Offered : Call → Prop
  | .begin _ _ => True
  | .complete producer _ _ => producer ∈ state.producerInFlight

/-- The call is not behind a later epoch: a sequence completes only if no later epoch
of its producer is recorded or in progress, and a sequence of a producer without a
recorded epoch begins only if none is in progress. -/
def InOrder : Call → Prop
  | .begin producer _ => state.producerEpochs.get? producer.producerId = none →
    ∀ other ∈ state.producerInFlight, other.producerId = producer.producerId →
      other.epoch ≤ producer.epoch
  | .complete producer _ _ =>
    (∀ epoch ∈ state.producerEpochs.get? producer.producerId, epoch ≤ producer.epoch) ∧
      ∀ other ∈ state.producerInFlight, other.producerId = producer.producerId →
        other.epoch ≤ producer.epoch

/-- The sequence may go on, as a new one or as a repeated one. -/
def Accepts : Prop :=
  ∃ answer, (state.beginProducerSequence producer fingerprint).2 = .ok answer

/-- Sequences are remembered for the recorded epoch only, and what is in progress
is not ahead of it. -/
structure Ordered (state : ProducerState) : Prop where
  sequences : ∀ identity entry, state.producerSequences.get? identity = some entry →
    state.producerEpochs.get? identity.producerId = some identity.epoch
  inFlight : ∀ identity ∈ state.producerInFlight,
    ∀ epoch, state.producerEpochs.get? identity.producerId = some epoch → identity.epoch ≤ epoch

theorem ordered_empty : empty.Ordered where
  sequences := fun _ _ found => by cases found
  inFlight := fun _ member => absurd member (Finset.notMem_empty _)

/-- The epoch of a producer has come at least to the given one. -/
def Fenced (producerId : String) (epoch : ℕ) : Prop :=
  (∃ recorded, state.producerEpochs.get? producerId = some recorded ∧ epoch ≤ recorded) ∨
    state.producerEpochs.get? producerId = none ∧
      ∃ other ∈ state.producerInFlight, other.producerId = producerId ∧ epoch ≤ other.epoch

/-! ### Beginning a sequence -/

section Begin

variable {state : ProducerState} {producer : ProducerSequence} {fingerprint : ℕ}

variable {entry : ProducerDedupEntry}

/-- A remembered sequence is answered from memory. -/
theorem begin_known (found : state.producerSequences.get? producer = some entry) :
    state.beginProducerSequence producer entry.fingerprint =
      (state, .ok (.duplicate, some entry.record)) := by
  simp only [beginProducerSequence, found]
  rfl

theorem begin_reused (found : state.producerSequences.get? producer = some entry)
    (other : fingerprint ≠ entry.fingerprint) :
    state.beginProducerSequence producer fingerprint =
      (state, .error (.error "producer sequence was reused with different content")) := by
  simp only [beginProducerSequence, found, ensure_of_not other.symm]
  rfl

theorem begin_refused (unknown : state.producerSequences.get? producer = none)
    (fresh : ¬ producer.epoch < state.currentEpoch producer) {failure : Failure}
    (checked : (state.raiseEpoch producer).checkNew producer = .error failure) :
    state.beginProducerSequence producer fingerprint =
      (state.raiseEpoch producer, .error failure) := by
  simp only [beginProducerSequence, unknown, if_neg fresh, checked]

/-- A sequence that continues the remembered ones is admitted as new. -/
theorem begin_new (unknown : state.producerSequences.get? producer = none)
    (fresh : ¬ producer.epoch < state.currentEpoch producer)
    (checked : (state.raiseEpoch producer).checkNew producer = .ok ()) :
    state.beginProducerSequence producer fingerprint =
      ({ state.raiseEpoch producer with
          producerInFlight := insert producer (state.raiseEpoch producer).producerInFlight },
        .ok (.new, none)) := by
  simp only [beginProducerSequence, unknown, if_neg fresh, checked]

/-- The epochs after a sequence that is not stale has begun. -/
theorem raiseEpoch_get? (fresh : ¬ producer.epoch < state.currentEpoch producer)
    (producerId : String) :
    (state.raiseEpoch producer).producerEpochs.get? producerId =
      if producerId = producer.producerId then
        (state.producerEpochs.get? producerId).map (fun _ => producer.epoch)
      else state.producerEpochs.get? producerId := by
  unfold raiseEpoch currentEpoch at *
  cases recorded : state.producerEpochs.get? producer.producerId with
  | none =>
    simp only [getD_none, lt_irrefl, if_false]
    split
    · rename_i same
      rw [same, recorded]
      rfl
    · rfl
  | some epoch =>
    simp only [recorded, getD_some] at fresh ⊢
    split
    · simp only [fence, get?_insert]
      split
      · rename_i same
        rw [same, recorded]
        rfl
      · rfl
    · split
      · rename_i same
        rw [same, recorded, show epoch = producer.epoch by omega]
        rfl
      · rfl

@[simp] theorem raiseEpoch_inFlight :
    (state.raiseEpoch producer).producerInFlight = state.producerInFlight := by
  unfold raiseEpoch
  split <;> rfl

/-- A call that begins a sequence leaves the state alone, or it raises the epoch to
one that is not stale and possibly adds the sequence. -/
theorem begin_cases (state : ProducerState) (producer : ProducerSequence) (fingerprint : ℕ) :
    (state.beginProducerSequence producer fingerprint).1 = state ∧
        (state.Accepts producer fingerprint →
          ∃ entry, state.producerSequences.get? producer = some entry) ∨
      ¬ producer.epoch < state.currentEpoch producer ∧
        ((state.beginProducerSequence producer fingerprint).1 = state.raiseEpoch producer ∧
            ¬ state.Accepts producer fingerprint ∨
          (state.beginProducerSequence producer fingerprint).1 =
            { state.raiseEpoch producer with
              producerInFlight := insert producer state.producerInFlight }) := by
  unfold Accepts beginProducerSequence
  cases known : state.producerSequences.get? producer with
  | some entry => exact .inl ⟨rfl, fun _ => ⟨entry, rfl⟩⟩
  | none =>
    by_cases stale : producer.epoch < state.currentEpoch producer
    · simp [stale]
    · cases checked : (state.raiseEpoch producer).checkNew producer with
      | error failure => simp [stale, checked]
      | ok done => simp [stale, checked]

/-- A sequence that was admitted as new is in progress. -/
theorem inFlight_of_new
    (admitted : (state.beginProducerSequence producer fingerprint).2 = .ok (.new, none)) :
    producer ∈ (state.beginProducerSequence producer fingerprint).1.producerInFlight := by
  cases known : state.producerSequences.get? producer with
  | some entry =>
    by_cases same : fingerprint = entry.fingerprint
    · rw [same, begin_known known] at admitted
      cases admitted
    · rw [begin_reused known same] at admitted
      cases admitted
  | none =>
    by_cases stale : producer.epoch < state.currentEpoch producer
    · simp [beginProducerSequence, known, stale] at admitted
    · cases checked : (state.raiseEpoch producer).checkNew producer with
      | error failure =>
        rw [begin_refused known stale checked] at admitted
        cases admitted
      | ok done =>
        rw [begin_new known stale checked]
        exact Finset.mem_insert_self _ _

/-- Raising an epoch forgets the sequences of the old one. -/
theorem Ordered.raiseEpoch (ordered : state.Ordered)
    (fresh : ¬ producer.epoch < state.currentEpoch producer) :
    (state.raiseEpoch producer).Ordered where
  sequences := by
    intro identity entry found
    rw [raiseEpoch_get? fresh]
    unfold ProducerState.raiseEpoch at found
    split at found
    · simp only [fence, get?_retain, filter_eq_some_iff, decide_not, Bool.not_eq_eq_eq_not,
      Bool.not_true, decide_eq_false_iff_not] at found
      rw [if_neg found.2]
      exact ordered.sequences identity entry found.1
    · have recorded := ordered.sequences identity entry found
      split
      · rename_i same
        have current : state.currentEpoch producer = identity.epoch := by
          rw [currentEpoch, ← same, recorded, getD_some]
        rw [recorded, map_some, show producer.epoch = identity.epoch by omega]
      · exact recorded
  inFlight := by
    intro identity member epoch recorded
    rw [raiseEpoch_inFlight] at member
    rw [raiseEpoch_get? fresh] at recorded
    split at recorded
    · rename_i same
      obtain ⟨before, found, rfl⟩ := map_eq_some_iff.mp recorded
      have current : state.currentEpoch producer = before := by
        rw [currentEpoch, ← same, found, getD_some]
      have bound := ordered.inFlight identity member before found
      omega
    · exact ordered.inFlight identity member epoch recorded

theorem Ordered.begin (ordered : state.Ordered) :
    (state.beginProducerSequence producer fingerprint).1.Ordered := by
  rcases begin_cases state producer fingerprint with ⟨same, -⟩ | ⟨fresh, ⟨same, -⟩ | same⟩
  · rwa [same]
  · rw [same]
    exact ordered.raiseEpoch fresh
  · rw [same]
    have raised := ordered.raiseEpoch fresh
    refine ⟨raised.sequences, ?_⟩
    intro identity member epoch recorded
    rcases Finset.mem_insert.mp member with rfl | before
    · rw [raiseEpoch_get? fresh, if_pos rfl] at recorded
      obtain ⟨-, -, rfl⟩ := map_eq_some_iff.mp recorded
      exact le_refl _
    · have kept : identity ∈ (state.raiseEpoch producer).producerInFlight := by
        rwa [raiseEpoch_inFlight]
      exact raised.inFlight identity kept epoch recorded

/-- Beginning a sequence does not lower an epoch. -/
theorem Fenced.begin {producerId : String} {epoch : ℕ} (fenced : state.Fenced producerId epoch) :
    (state.beginProducerSequence producer fingerprint).1.Fenced producerId epoch := by
  have raised : ¬ producer.epoch < state.currentEpoch producer →
      (state.raiseEpoch producer).Fenced producerId epoch := by
    intro fresh
    unfold Fenced
    rw [raiseEpoch_get? fresh, raiseEpoch_inFlight]
    rcases fenced with ⟨recorded, found, bound⟩ | ⟨unknown, progress⟩
    · left
      split
      · rename_i same
        have current : state.currentEpoch producer = recorded := by
          rw [currentEpoch, ← same, found, getD_some]
        exact ⟨producer.epoch, by rw [found]; rfl, by omega⟩
      · exact ⟨recorded, found, bound⟩
    · right
      rw [unknown]
      exact ⟨by simp, progress⟩
  rcases begin_cases state producer fingerprint with ⟨same, -⟩ | ⟨fresh, ⟨same, -⟩ | same⟩
  · rwa [same]
  · rw [same]
    exact raised fresh
  · rw [same]
    rcases raised fresh with recorded | ⟨unknown, other, member, own, bound⟩
    · exact .inl recorded
    · rw [raiseEpoch_inFlight] at member
      exact .inr ⟨unknown, other, Finset.mem_insert_of_mem member, own, bound⟩

/-- An accepted sequence fences every earlier epoch of its producer. -/
theorem Ordered.fenced_of_accepts (ordered : state.Ordered)
    (accepted : state.Accepts producer fingerprint) :
    (state.beginProducerSequence producer fingerprint).1.Fenced producer.producerId
      producer.epoch := by
  rcases begin_cases state producer fingerprint with ⟨same, known⟩ | ⟨fresh, ⟨-, refused⟩ | same⟩
  · obtain ⟨entry, found⟩ := known accepted
    rw [same]
    exact .inl ⟨producer.epoch, ordered.sequences producer entry found, le_refl _⟩
  · exact absurd accepted refused
  · rw [same]
    unfold Fenced
    simp only [raiseEpoch_get? fresh]
    cases recorded : state.producerEpochs.get? producer.producerId with
    | none => exact .inr ⟨rfl, producer, Finset.mem_insert_self _ _, rfl, le_refl _⟩
    | some before => exact .inl ⟨producer.epoch, rfl, le_refl _⟩

/-- A sequence behind the fence is refused. -/
theorem Ordered.refuses (ordered : state.Ordered) {epoch : ℕ}
    (fenced : state.Fenced producer.producerId epoch) (behind : producer.epoch < epoch)
    (inOrder : state.InOrder (.begin producer fingerprint)) :
    ¬ state.Accepts producer fingerprint := by
  intro accepted
  rcases fenced with ⟨recorded, found, bound⟩ | ⟨unknown, other, member, own, bound⟩
  · rcases begin_cases state producer fingerprint with ⟨-, known⟩ | ⟨fresh, -⟩
    · obtain ⟨entry, stored⟩ := known accepted
      rw [ordered.sequences producer entry stored] at found
      have same := some.inj found
      omega
    · rw [currentEpoch, found, getD_some] at fresh
      omega
  · have ahead := inOrder unknown other member own
    omega

end Begin

/-! ### Completing a sequence -/

section Complete

variable {state : ProducerState} {producer : ProducerSequence}

/-- What is remembered after room was made was remembered before. -/
theorem dropOldest_get? {identity : ProducerSequence} {entry : ProducerDedupEntry}
    (found : (state.dropOldest producer).get? identity = some entry) :
    state.producerSequences.get? identity = some entry := by
  unfold dropOldest at found
  split at found
  · split at found
    · exact (get?_erase_eq_some.mp found).2
    · exact found
  · exact found

variable {fingerprint : ℕ} {record : PublishRecord}

theorem Ordered.complete (ordered : state.Ordered) (started : producer ∈ state.producerInFlight)
    (inOrder : state.InOrder (.complete producer fingerprint record)) :
    (state.completeProducerSequence producer fingerprint record).Ordered := by
  obtain ⟨notLower, notBehind⟩ := inOrder
  refine ⟨?_, ?_⟩
  · intro identity entry found
    simp only [completeProducerSequence, get?_insert] at found ⊢
    split at found
    · rename_i same
      rw [same, if_pos rfl]
    · have recorded := ordered.sequences identity entry (dropOldest_get? found)
      split
      · rename_i own
        rw [own] at recorded
        have above := notLower identity.epoch recorded
        have below := ordered.inFlight producer started identity.epoch recorded
        rw [show producer.epoch = identity.epoch by omega]
      · exact recorded
  · intro identity member epoch recorded
    simp only [completeProducerSequence, get?_insert] at member recorded
    have before := Finset.mem_of_mem_erase member
    split at recorded
    · rename_i own
      rw [← some.inj recorded]
      exact notBehind identity before own
    · exact ordered.inFlight identity before epoch recorded

/-- Completing in order does not lower an epoch. -/
theorem Fenced.complete {producerId : String} {epoch : ℕ} (fenced : state.Fenced producerId epoch)
    (inOrder : state.InOrder (.complete producer fingerprint record)) :
    (state.completeProducerSequence producer fingerprint record).Fenced producerId epoch := by
  obtain ⟨notLower, notBehind⟩ := inOrder
  unfold Fenced completeProducerSequence
  simp only [get?_insert]
  by_cases own : producerId = producer.producerId
  · subst own
    left
    rw [if_pos rfl]
    refine ⟨producer.epoch, rfl, ?_⟩
    rcases fenced with ⟨recorded, found, bound⟩ | ⟨-, other, member, same, bound⟩
    · exact bound.trans (notLower recorded found)
    · exact bound.trans (notBehind other member same)
  · rw [if_neg own]
    rcases fenced with recorded | ⟨unknown, other, member, same, bound⟩
    · exact .inl recorded
    · refine .inr ⟨unknown, other, Finset.mem_erase.mpr ⟨?_, member⟩, same, bound⟩
      rintro rfl
      exact own same.symm

end Complete

/-! ### All runs -/

section Runs

open GuardedRuns

/-- A publish completes what it began, and calls come in order. -/
def Orderly (state : ProducerState) (action : Call) : Prop :=
  state.Offered action ∧ state.InOrder action

variable {state : ProducerState}

theorem Ordered.call (ordered : state.Ordered) {action : Call} (orderly : state.Orderly action) :
    (state.call action).Ordered := by
  cases action with
  | begin producer fingerprint => exact ordered.begin
  | complete producer fingerprint record => exact ordered.complete orderly.1 orderly.2

variable {producerId : String}

theorem Fenced.call {epoch : ℕ} (fenced : state.Fenced producerId epoch) {action : Call}
    (orderly : state.Orderly action) :
    (state.call action).Fenced producerId epoch := by
  cases action with
  | begin producer fingerprint => exact fenced.begin
  | complete producer fingerprint record => exact fenced.complete orderly.2

/-- Once recorded, the epoch of a producer does not become unknown again. -/
theorem known_call (known : (state.producerEpochs.get? producerId).isSome) (action : Call) :
    ((state.call action).producerEpochs.get? producerId).isSome := by
  cases action with
  | begin producer fingerprint =>
    simp only [ProducerState.call]
    rcases begin_cases state producer fingerprint with ⟨same, -⟩ | ⟨fresh, ⟨same, -⟩ | same⟩
    · rwa [same]
    all_goals
      rw [same]
      simp only [raiseEpoch_get? fresh]
      split
      · simpa using known
      · exact known
  | complete producer fingerprint record =>
    simp only [ProducerState.call, completeProducerSequence, get?_insert]
    split
    · rfl
    · exact known

/-- In the runs a guard admits, recorded epochs do not decrease, and after a sequence
was accepted no sequence of an earlier epoch of its producer is. -/
structure FencingMonotone (guard : ProducerState → Call → Prop) : Prop where
  epochs : ∀ early late, Reaches call guard empty early → Reaches call guard early late →
    ∀ producerId epoch, early.producerEpochs.get? producerId = some epoch →
      ∃ after, late.producerEpochs.get? producerId = some after ∧ epoch ≤ after
  fenced : ∀ early producer fingerprint, Reaches call guard empty early →
    guard early (.begin producer fingerprint) → early.Accepts producer fingerprint →
    ∀ late, Reaches call guard (early.call (.begin producer fingerprint)) late →
    ∀ smaller other, smaller.producerId = producer.producerId → smaller.epoch < producer.epoch →
      guard late (.begin smaller other) → ¬ late.Accepts smaller other

variable {early : ProducerState}

theorem Reaches.ordered (run : Reaches call Orderly empty early) :
    early.Ordered :=
  run.invariant Ordered (fun _ _ orderly ordered => ordered.call orderly) ordered_empty

/-- Recorded epochs do not decrease in a run of orderly calls. -/
theorem epochs_grow {late : ProducerState} (run : Reaches call Orderly early late) {epoch : ℕ}
    (recorded : early.producerEpochs.get? producerId = some epoch) :
    ∃ after, late.producerEpochs.get? producerId = some after ∧ epoch ≤ after := by
  have both : late.Fenced producerId epoch ∧ (late.producerEpochs.get? producerId).isSome := by
    apply run.invariant
    · rintro state action orderly ⟨fenced, known⟩
      exact ⟨fenced.call orderly, known_call known action⟩
    · exact ⟨.inl ⟨epoch, recorded, le_refl _⟩, by simp [recorded]⟩
  obtain ⟨found | ⟨unknown, -⟩, known⟩ := both
  · exact found
  · simp [unknown] at known

/-- Orderly calls keep producers fenced. -/
theorem fencingMonotone_orderly {early : ProducerState}
    (reached : Reaches call Orderly empty early) :
    (∀ late, Reaches call Orderly early late →
      ∀ producerId epoch, early.producerEpochs.get? producerId = some epoch →
        ∃ after, late.producerEpochs.get? producerId = some after ∧ epoch ≤ after) ∧
    ∀ producer fingerprint, early.Orderly (.begin producer fingerprint) →
      early.Accepts producer fingerprint →
      ∀ late, Reaches call Orderly (early.call (.begin producer fingerprint)) late →
      ∀ smaller other, smaller.producerId = producer.producerId → smaller.epoch < producer.epoch →
        late.Orderly (.begin smaller other) → ¬ late.Accepts smaller other := by
  constructor
  · intro late run producerId epoch recorded
    exact epochs_grow run recorded
  · intro producer fingerprint orderly accepted late run smaller other own behind nextOrderly
    have start := Reaches.ordered reached
    have both : late.Ordered ∧ late.Fenced producer.producerId producer.epoch := by
      apply run.invariant
      · rintro state action orderly ⟨ordered, fenced⟩
        exact ⟨ordered.call orderly, fenced.call orderly⟩
      · exact ⟨start.begin, start.fenced_of_accepts accepted⟩
    apply both.1.refuses _ behind nextOrderly.2
    rw [own]
    exact both.2

/-- A producer that has published in its epoch 1. -/
def published : ProducerState :=
  (empty.call (.begin ⟨"p", 1, 0⟩ 0)).call (.complete ⟨"p", 1, 0⟩ 0
    ⟨0, "", none, none, none, "", none, [], 0, none, [], 0, 0⟩)

/-- It stays there. -/
theorem fencingMonotone_published : published.producerEpochs.get? "p" = some 1 ∧
    ∀ late, Reaches call Orderly published late →
      ∃ after, late.producerEpochs.get? "p" = some after ∧ 1 ≤ after := by
  have recorded : published.producerEpochs.get? "p" = some 1 := by decide +kernel
  have offered : (⟨"p", 1, 0⟩ : ProducerSequence) ∈
      (empty.call (.begin ⟨"p", 1, 0⟩ 0)).producerInFlight := by decide +kernel
  have unknown : (empty.call (.begin ⟨"p", 1, 0⟩ 0)).producerEpochs.get? "p" = none := by
    decide +kernel
  have first : ∀ other ∈ (empty.call (.begin ⟨"p", 1, 0⟩ 0)).producerInFlight,
      other.producerId = "p" → other.epoch ≤ 1 := by decide +kernel
  have reached : Reaches call Orderly empty published := by
    apply Reaches.step (.begin ⟨"p", 1, 0⟩ 0)
    · exact ⟨trivial, fun _ other member => absurd member (by simp [empty])⟩
    · exact Reaches.step (.complete ⟨"p", 1, 0⟩ 0 _) ⟨offered, by simp [unknown], first⟩
        (.refl published)
  exact ⟨recorded, fun late run => (fencingMonotone_orderly reached).1 late run "p" 1 recorded⟩

/-- A publish of epoch 0 that completes after one of epoch 1 takes the producer back. -/
theorem late_completion_lowers_epoch : ¬ FencingMonotone Offered := by
  intro monotone
  let record : PublishRecord :=
    ⟨0, "", none, none, none, "", none, [], 0, none, [], 0, 0⟩
  let early := ((empty.call (.begin ⟨"p", 0, 0⟩ 0)).call (.begin ⟨"p", 1, 0⟩ 0)).call
    (.complete ⟨"p", 1, 0⟩ 0 record)
  let late := early.call (.complete ⟨"p", 0, 0⟩ 0 record)
  have reached : Reaches call Offered empty early := by
    apply Reaches.step (.begin ⟨"p", 0, 0⟩ 0) trivial
    apply Reaches.step (.begin ⟨"p", 1, 0⟩ 0) trivial
    apply Reaches.step (.complete ⟨"p", 1, 0⟩ 0 record)
    · show (⟨"p", 1, 0⟩ : ProducerSequence) ∈ _
      decide +kernel
    · exact Reaches.refl early
  have run : Reaches call Offered early late := by
    apply Reaches.step (.complete ⟨"p", 0, 0⟩ 0 record)
    · show (⟨"p", 0, 0⟩ : ProducerSequence) ∈ early.producerInFlight
      decide +kernel
    · exact Reaches.refl late
  have before : early.producerEpochs.get? "p" = some 1 := by decide +kernel
  have after : late.producerEpochs.get? "p" = some 0 := by decide +kernel
  obtain ⟨epoch, found, bound⟩ := monotone.epochs early late reached run "p" 1 before
  rw [after] at found
  obtain rfl := some.inj found
  omega

end Runs

end ProducerState

end Morrow
