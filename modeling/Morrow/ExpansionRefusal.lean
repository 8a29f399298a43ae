import Morrow.GuardedRuns
import Morrow.PartitionExpansion
import Morrow.ReplicaInvariant

/-!
# Refused activations

Calls that begin a plan, report progress and activate it come in in any order, and an
activation can be interrupted by other calls between any two of its steps. An activation
is refused when there is no plan, or when the plan is not fully prepared.

The refusal for lack of progress comes last, after the logs of the new partitions were
opened and the larger stream was written to the metadata. So a refused activation leaves
nothing behind only if it started on a prepared plan, or if all that it does had been
done before.
-/

namespace Morrow

open GuardedRuns OrderedMap Option

namespace ExpansionBroker

/-- A partition whose records can be appended to. -/
def Accepts (broker : ExpansionBroker) (ref : PartitionRef) : Prop :=
  (broker.logs.find ref).isSome

/-- The two brokers agree on a stream: on its replicated definition and assignments, on
its partitions and epoch, and on which of its partitions accept records. -/
structure SameStream (stream : String) (before after : ExpansionBroker) : Prop where
  definition : after.metadata.bind (·.streamDefinitions.get? stream) =
    before.metadata.bind (·.streamDefinitions.get? stream)
  assignments : ∀ partition,
    after.metadata.bind (·.partitionAssignments.get? (partitionKey stream partition)) =
      before.metadata.bind (·.partitionAssignments.get? (partitionKey stream partition))
  current : (after.expansions.get? stream).map PartitionExpansion.current =
    (before.expansions.get? stream).map PartitionExpansion.current
  accepts : ∀ partition, after.Accepts ⟨stream, partition⟩ ↔ before.Accepts ⟨stream, partition⟩

end ExpansionBroker

/-! ### Interrupted activations -/

/-- An activation that is under way: what it has read, the partitions it still has to
open, whether the metadata is written, and the broker it started from. -/
structure Progress where
  activation : Activation
  remaining : List PartitionId
  written : Bool
  before : ExpansionBroker

/-- A broker and its activations that are under way. -/
structure ExpansionRun where
  broker : ExpansionBroker
  underway : OrderedMap ℕ Progress

inductive ExpansionAction
  | begin (stream : String) (partitions : PartitionId)
  | markPrepared (stream : String) (count : PartitionId)
  | start (id : ℕ) (stream : String)
  | openNext (id : ℕ) (reserved : Bool) (opened : Outcome PartitionLog)
  | write (id : ℕ) (committed : Bool) (answer : Outcome Unit)
  | finish (id : ℕ)

namespace ExpansionRun

/-- A call to the broker that ends at once. -/
def call {α : Type} (procedure : Procedure ExpansionBroker α) : Procedure ExpansionRun Unit :=
  fun run =>
    ({ run with broker := (procedure run.broker).1 }, (procedure run.broker).2.map fun _ => ())

variable (id : ℕ)

/-- The next step of an activation, which ends it when it fails. -/
def advance (progress : Progress) (procedure : Procedure ExpansionBroker Unit) :
    Procedure ExpansionRun Unit := fun run =>
  match procedure run.broker with
  | (broker, .ok ()) => (⟨broker, run.underway.insert id progress⟩, .ok ())
  | (broker, .error failure) => (⟨broker, run.underway.erase id⟩, .error failure)

def start (stream : String) : Procedure ExpansionRun Unit := fun run =>
  match ExpansionBroker.startActivation stream run.broker with
  | (broker, .error failure) => (⟨broker, run.underway⟩, .error failure)
  | (broker, .ok activation) =>
    let remaining := partitionsFrom activation.currentPartitions activation.targetPartitions
    (⟨broker, run.underway.insert id ⟨activation, remaining, false, run.broker⟩⟩, .ok ())

/-- Open the log of the next partition, if there is one. -/
def openNext (reserved : Bool) (opened : Outcome PartitionLog) :
    Procedure ExpansionRun Unit := fun run =>
  match run.underway.get? id with
  | some ⟨activation, partition :: remaining, written, before⟩ =>
    advance id ⟨activation, remaining, written, before⟩
      (ExpansionBroker.activatePartition ⟨activation.stream, partition⟩ reserved opened) run
  | _ => (run, .ok ())

/-- Write the metadata, when all logs are open. -/
def write (committed : Bool) (answer : Outcome Unit) : Procedure ExpansionRun Unit :=
  fun run =>
    match run.underway.get? id with
    | some ⟨activation, [], false, before⟩ =>
      advance id ⟨activation, [], true, before⟩
        (ExpansionBroker.writePartitions activation committed answer) run
    | _ => (run, .ok ())

/-- The last step of an activation, when the metadata is written. -/
def finish : Procedure ExpansionRun Unit := fun run =>
  match run.underway.get? id with
  | some ⟨activation, [], true, _⟩ =>
    let finished := ExpansionBroker.finishActivation activation run.broker
    (⟨finished.1, run.underway.erase id⟩, finished.2.map fun _ => ())
  | _ => (run, .ok ())

def perform : ExpansionAction → Procedure ExpansionRun Unit
  | .begin stream partitions => call (ExpansionBroker.beginPartitionExpansion stream partitions)
  | .markPrepared stream count =>
    call (ExpansionBroker.markPartitionExpansionPrepared stream count)
  | .start id stream => start id stream
  | .openNext id reserved opened => openNext id reserved opened
  | .write id committed answer => write id committed answer
  | .finish id => finish id

variable (run : ExpansionRun)

def next (action : ExpansionAction) : ExpansionRun := (perform action run).1

/-- The activation is refused, for lack of a plan or of progress. -/
def Refused (failure : Failure) : Prop :=
  failure = .error "partition expansion is not pending" ∨
    failure = .error "partition expansion is not fully prepared"

/-- An activation is started under a number of its own. -/
def Fresh : ExpansionAction → Prop
  | .start id _ => run.underway.get? id = none
  | _ => True

/-- All that the activation of a plan does before the plan is looked at again is done. -/
structure Done (broker : ExpansionBroker) (activation : Activation) : Prop where
  opened : ∀ partition ∈
    partitionsFrom activation.currentPartitions activation.targetPartitions,
      broker.Accepts ⟨activation.stream, partition⟩
  written : ∀ metadata ∈ broker.metadata, ∀ stream assignments,
    ExpansionBroker.partitionsUpdate broker.streams broker.cluster activation =
      .ok (stream, assignments) → ¬ metadata.GrowsStream stream assignments

/-- An activation is started when no other activation of the stream is under way, and its
plan, if there is one, is fully prepared or done already. When the metadata is written
its assignments are in normal form. -/
def Considerate : ExpansionAction → Prop
  | .start _ stream =>
    (∀ id, ∀ progress ∈ run.underway.get? id, progress.activation.stream ≠ stream) ∧
      ∀ expansion ∈ run.broker.expansions.get? stream, ∀ plan ∈ expansion.pending,
        plan.preparedPartitions = plan.toPartitions ∨
          Done run.broker ⟨stream, expansion.currentPartitions, plan.toPartitions, plan.epoch⟩
  | .write _ _ _ => ∀ metadata ∈ run.broker.metadata, ∀ key,
      ∀ assignment ∈ metadata.partitionAssignments.get? key, assignment.normalize = assignment
  | _ => True

end ExpansionRun

/-! ### What the calls leave alone -/

namespace ExpansionBroker

variable {broker before middle after : ExpansionBroker} {stream : String}

theorem SameStream.refl (stream : String) (broker : ExpansionBroker) :
    SameStream stream broker broker := ⟨rfl, fun _ => rfl, rfl, fun _ => Iff.rfl⟩

theorem SameStream.trans (first : SameStream stream before middle)
    (second : SameStream stream middle after) : SameStream stream before after where
  definition := second.definition.trans first.definition
  assignments partition := (second.assignments partition).trans (first.assignments partition)
  current := second.current.trans first.current
  accepts partition := (second.accepts partition).trans (first.accepts partition)

/-- Another stream is changed, or none. -/
structure Spares (stream : String) (before after : ExpansionBroker) : Prop where
  streams : after.streams = before.streams
  cluster : after.cluster = before.cluster
  expansion : after.expansions.get? stream = before.expansions.get? stream
  same : SameStream stream before after

theorem Spares.refl (stream : String) (broker : ExpansionBroker) : Spares stream broker broker :=
  ⟨rfl, rfl, rfl, .refl stream broker⟩

/-- A call that changes the entry of one stream in the table, if it changes anything. The
table is saved unless the partitions and the epoch stay as they were. -/
def Revises (stream : String) (change : PartitionExpansion → PartitionExpansion)
    (before after : ExpansionBroker) : Prop :=
  after = before ∨ ∃ expansion saved, before.expansions.get? stream = some expansion ∧
    (saved = before.saved ∧ (change expansion).current = expansion.current ∨
      saved = some (before.expansions.insert stream (change expansion))) ∧
    after = { before with
      expansions := before.expansions.insert stream (change expansion)
      saved := saved }

theorem beginPartitionExpansion_revises (stream : String) (partitions : PartitionId)
    (broker : ExpansionBroker) :
    Revises stream (fun expansion => (expansion.begin partitions).1) broker
      (beginPartitionExpansion stream partitions broker).1 := by
  unfold beginPartitionExpansion
  cases found : broker.expansions.get? stream with
  | none =>
    rw [expansion_bind_of_none _ found]
    exact .inl rfl
  | some entry =>
    rw [expansion_bind_of_some _ found]
    cases (entry.begin partitions).2 with
    | none => exact .inr ⟨entry, _, found, .inl ⟨rfl, entry.begin_current partitions⟩, rfl⟩
    | some plan => exact .inr ⟨entry, _, found, .inr rfl, rfl⟩

theorem markPartitionExpansionPrepared_revises (stream : String) (count : PartitionId)
    (broker : ExpansionBroker) :
    Revises stream (fun expansion => (expansion.markPrepared count).1) broker
      (markPartitionExpansionPrepared stream count broker).1 := by
  unfold markPartitionExpansionPrepared
  cases found : broker.expansions.get? stream with
  | none =>
    rw [expansion_bind_of_none _ found]
    exact .inl rfl
  | some entry =>
    rw [expansion_bind_of_some _ found]
    cases ensure ((entry.markPrepared count).2 = true)
        "invalid partition expansion preparation progress" with
    | error failure =>
      exact .inr ⟨entry, _, found, .inl ⟨rfl, entry.markPrepared_current count⟩, rfl⟩
    | ok value => exact .inr ⟨entry, _, found, .inr rfl, rfl⟩

variable {activation : Activation}

/-- An activation starts when there is a plan. -/
theorem startActivation_cases (stream : String) (broker : ExpansionBroker) :
    (∃ failure, startActivation stream broker = (broker, .error failure)) ∨
      ∃ expansion plan, broker.expansions.get? stream = some expansion ∧
        expansion.pending = some plan ∧ startActivation stream broker = (broker,
          .ok ⟨stream, expansion.currentPartitions, plan.toPartitions, plan.epoch⟩) := by
  unfold startActivation
  cases found : broker.expansions.get? stream with
  | none => exact .inl ⟨_, expansion_bind_of_none _ found⟩
  | some entry =>
    rw [expansion_bind_of_some _ found]
    cases pending : entry.pending with
    | none => exact .inl ⟨_, rfl⟩
    | some plan => exact .inr ⟨entry, plan, rfl, pending, rfl⟩

/-- An activation fails before it changes the table, or when the plan is refused, or the
plan is prepared and it ends well. -/
theorem finishActivation_cases (activation : Activation) (broker : ExpansionBroker) :
    (∃ failure, finishActivation activation broker = (broker, .error failure)) ∨
      ∃ expansion, broker.expansions.get? activation.stream = some expansion ∧
        ((expansion.activate.2 = false ∧ ∃ failure, finishActivation activation broker =
            ({ broker with
              expansions := broker.expansions.insert activation.stream expansion.activate.1 },
              .error failure)) ∨
          expansion.Prepared activation.targetPartitions activation.pendingEpoch ∧
          ∃ current, finishActivation activation broker =
            ({ broker with
              expansions := broker.expansions.insert activation.stream expansion.activate.1
              saved := some (broker.expansions.insert activation.stream expansion.activate.1) },
              .ok current)) := by
  unfold finishActivation
  cases found : broker.expansions.get? activation.stream with
  | none => exact .inl ⟨_, expansion_bind_of_none _ found⟩
  | some entry =>
    rw [expansion_bind_of_some _ found]
    cases pending : entry.pending with
    | none => exact .inl ⟨_, rfl⟩
    | some plan =>
      simp only
      cases checked : ensure (plan.toPartitions = activation.targetPartitions ∧
          plan.epoch = activation.pendingEpoch)
          "partition expansion changed while activating" with
      | error failure => exact .inl ⟨_, rfl⟩
      | ok value =>
        refine .inr ⟨entry, rfl, ?_⟩
        cases activated : entry.activate.2 with
        | false => exact .inl ⟨rfl, _, rfl⟩
        | true =>
          obtain ⟨target, epoch⟩ := ensure_eq_ok.mp checked
          refine .inr ⟨⟨by simp [pending, target, epoch], ?_⟩, _, rfl⟩
          rintro other same
          obtain rfl := Option.some.inj (pending.symm.trans same)
          by_contra unprepared
          simp [PartitionExpansion.activate, pending, unprepared] at activated

variable {expansion : PartitionExpansion}

/-- A refusal changes nothing in the table. -/
theorem activate_refused (refused : expansion.activate.2 = false) :
    expansion.activate.1 = expansion := by
  unfold PartitionExpansion.activate at refused ⊢
  split
  · rfl
  · rename_i plan pending
    simp only [pending] at refused
    split
    · rfl
    · rename_i prepared
      simp [prepared] at refused

theorem finishActivation_revises (activation : Activation) (broker : ExpansionBroker) :
    Revises activation.stream (·.activate.1) broker
      (finishActivation activation broker).1 := by
  rcases finishActivation_cases activation broker with
    ⟨failure, ended⟩ | ⟨expansion, found, ⟨refused, failure, ended⟩ | ⟨-, current, ended⟩⟩
  · rw [ended]
    exact .inl rfl
  · rw [ended]
    exact .inr ⟨expansion, _, found, .inl ⟨rfl, congrArg _ (activate_refused refused)⟩, rfl⟩
  · rw [ended]
    exact .inr ⟨expansion, _, found, .inr rfl, rfl⟩

/-- An activation ends well when the plan it has looked up is pending and prepared. -/
theorem finishActivation_prepared
    (found : broker.expansions.get? activation.stream = some expansion)
    (ready : expansion.Prepared activation.targetPartitions activation.pendingEpoch) :
    (finishActivation activation broker).2 =
      .ok (activation.targetPartitions, activation.pendingEpoch) := by
  obtain ⟨plan, pending, target, epoch, -⟩ := ready.plan
  have same : ensure (plan.toPartitions = activation.targetPartitions ∧
      plan.epoch = activation.pendingEpoch)
      "partition expansion changed while activating" = .ok () := ensure_of ⟨target, epoch⟩
  rw [finishActivation, expansion_bind_of_some _ found]
  simp only [pending, same, ready.activate]
  rfl

variable {change : PartitionExpansion → PartitionExpansion}

section

variable (revises : Revises stream change before after)

include revises

theorem Revises.spares {other : String} (different : other ≠ stream) :
    Spares other before after := by
  rcases revises with rfl | ⟨expansion, saved, -, -, rfl⟩
  · exact .refl other after
  · have entry := get?_insert_of_ne before.expansions (change expansion) different
    exact ⟨rfl, rfl, entry, rfl, fun _ => rfl, congrArg _ entry, fun _ => Iff.rfl⟩

/-- A change of the plan alone. -/
theorem Revises.same
    (kept : ∀ expansion ∈ before.expansions.get? stream,
      (change expansion).current = expansion.current) :
    SameStream stream before after := by
  rcases revises with rfl | ⟨expansion, saved, found, -, rfl⟩
  · exact .refl stream after
  · refine ⟨rfl, fun _ => rfl, ?_, fun _ => Iff.rfl⟩
    simp [found, kept expansion found]

theorem Revises.static : after.streams = before.streams ∧ after.cluster = before.cluster := by
  rcases revises with rfl | ⟨expansion, saved, found, -, rfl⟩
  · exact ⟨rfl, rfl⟩
  · exact ⟨rfl, rfl⟩

/-- The table after a change of one entry. -/
theorem Revises.entry (found : before.expansions.get? stream = some expansion) :
    after.expansions.get? stream = some expansion ∨
      after.expansions.get? stream = some (change expansion) := by
  rcases revises with rfl | ⟨entry, saved, here, -, rfl⟩
  · exact .inl found
  · obtain rfl := Option.some.inj (here.symm.trans found)
    exact .inr (get?_insert_self _ _ _)

theorem Revises.grows (grows : ∀ entry : PartitionExpansion, entry.Grows (change entry)) :
    TableGrows before.expansions after.expansions := by
  intro name entry found
  by_cases own : name = stream
  · subst own
    rcases revises.entry found with kept | changed
    · exact ⟨entry, kept, .refl entry⟩
    · exact ⟨_, changed, grows entry⟩
  · exact ⟨entry, (revises.spares own).expansion.trans found, .refl entry⟩

end

theorem activatePartition_of_accepts {ref : PartitionRef} (accepts : broker.Accepts ref)
    (reserved : Bool) (opened : Outcome PartitionLog) :
    activatePartition ref reserved opened broker = (broker, .ok ()) := by
  have served : broker.logs.activatePartition ref reserved opened = .ok broker.logs :=
    if_pos accepts
  simp only [activatePartition, served]

/-- Opening a log leaves the table alone, and all other streams. -/
theorem activatePartition_cases (ref : PartitionRef) (reserved : Bool)
    (opened : Outcome PartitionLog) (broker : ExpansionBroker) :
    (activatePartition ref reserved opened broker).1.expansions = broker.expansions ∧
      ∀ other ≠ ref.stream,
        Spares other broker (activatePartition ref reserved opened broker).1 := by
  unfold activatePartition
  cases activated : broker.logs.activatePartition ref reserved opened with
  | error failure => exact ⟨rfl, fun other _ => .refl other broker⟩
  | ok logs =>
    refine ⟨rfl, fun other different =>
      ⟨rfl, rfl, rfl, rfl, fun _ => rfl, rfl, fun partition => ?_⟩⟩
    show (logs.find ⟨other, partition⟩).isSome ↔ (broker.logs.find ⟨other, partition⟩).isSome
    rcases PartitionLogSet.activatePartition_cases activated with
      rfl | ⟨log, -, -, -, dynamic, rfl⟩
    · exact Iff.rfl
    · have elsewhere : (⟨other, partition⟩ : PartitionRef) ≠ ref :=
        fun same => different (congrArg PartitionRef.stream same)
      rw [PartitionLogSet.find_insert_dynamic _ _ _ _ dynamic, if_neg elsewhere]

/-! #### Writing metadata -/

variable {definition : ClusterStream} {assignments : OrderedMap String PartitionAssignmentMetadata}

/-- The update is about the stream of the activation. -/
theorem partitionsUpdate_ok {streams : List ConfiguredStream} {cluster : Option ClusterConfig}
    (updated : partitionsUpdate streams cluster activation = .ok (definition, assignments)) :
    definition.name.name = activation.stream ∧
      ∀ key, assignments.get? key ≠ none →
        ∃ partition, key = partitionKey activation.stream partition := by
  unfold partitionsUpdate at updated
  cases cluster with
  | none => cases updated
  | some config =>
    simp only at updated
    split at updated
    · cases updated
    · rename_i configured found
      obtain ⟨pairs, mapped, returned⟩ := bind_eq_ok.mp updated
      cases returned
      have named : configured.name.name = activation.stream := by
        simpa using List.find?_some found
      refine ⟨named, fun key present => ?_⟩
      rw [get?_ofList] at present
      cases last : pairs.reverse.find? (fun pair => decide (pair.1 = key)) with
      | none => simp [last] at present
      | some pair =>
        have here : pair.1 = key := by simpa using List.find?_some last
        have member := List.mem_reverse.mp (List.mem_of_find?_eq_some last)
        obtain ⟨partition, -, assigned⟩ := mem_of_mapM_ok mapped member
        obtain ⟨assignment, -, same⟩ := bind_eq_ok.mp assigned
        cases same
        exact ⟨partition.value, here.symm⟩

theorem writePartitions_expansions (activation : Activation) (committed : Bool)
    (answer : Outcome Unit) (broker : ExpansionBroker) :
    (writePartitions activation committed answer broker).1.expansions = broker.expansions := by
  unfold writePartitions
  split
  · rfl
  · split
    · rfl
    · split <;> rfl

/-- An update that is not taken up changes nothing. -/
theorem writePartitions_noop (committed : Bool) (answer : Outcome Unit)
    (written : ∀ metadata ∈ broker.metadata, ∀ definition assignments,
      partitionsUpdate broker.streams broker.cluster activation = .ok (definition, assignments) →
        ¬ metadata.GrowsStream definition assignments) :
    (writePartitions activation committed answer broker).1 = broker := by
  unfold writePartitions
  split
  · rfl
  · rename_i metadata present
    split
    · rfl
    · rename_i definition assignments updated
      have ignored : metadata.streamPartitionsUpdate definition assignments = (metadata, .noop) :=
        if_neg (written metadata present definition assignments updated)
      split
      · rw [ignored, ← present]
      · rfl

/-- The update of one stream leaves all others alone, when the assignments are in normal
form. -/
theorem writePartitions_spares (activation : Activation) (committed : Bool)
    (answer : Outcome Unit)
    (normal : ∀ metadata ∈ broker.metadata, ∀ key,
      ∀ assignment ∈ metadata.partitionAssignments.get? key, assignment.normalize = assignment)
    {other : String} (different : other ≠ activation.stream) :
    Spares other broker (writePartitions activation committed answer broker).1 := by
  unfold writePartitions
  split
  · exact .refl other broker
  rename_i metadata present
  split
  · exact .refl other broker
  rename_i definition assignments updated
  split
  swap
  · exact .refl other broker
  obtain ⟨named, keyed⟩ := partitionsUpdate_ok updated
  unfold DurableState.streamPartitionsUpdate
  split
  · refine ⟨rfl, rfl, rfl, ?_, fun partition => ?_, rfl, fun _ => Iff.rfl⟩
    · rw [← named] at different
      simp [present, get?_insert_of_ne _ _ different]
    · have absent : assignments.get? (partitionKey other partition) = none := by
        by_contra found
        obtain ⟨number, same⟩ := keyed _ found
        exact different (partitionKey_inj.mp same).1
      simp only [present, bind_some, get?_mapValues, get?_extend, absent, none_or]
      cases stored : metadata.partitionAssignments.get? (partitionKey other partition) with
      | none => rfl
      | some assignment =>
        rw [map_some, normal metadata present _ assignment stored]
  · exact ⟨rfl, rfl, rfl, by rw [present], fun _ => by rw [present], rfl, fun _ => Iff.rfl⟩

/-- Whether an update is taken up is decided by the definition of its stream. -/
theorem SameStream.not_grows (same : SameStream stream before after)
    (named : definition.name.name = stream)
    (ignored : ∀ metadata ∈ before.metadata, ¬ metadata.GrowsStream definition assignments) :
    ∀ metadata ∈ after.metadata, ¬ metadata.GrowsStream definition assignments := by
  rintro metadata present ⟨current, found, larger⟩
  rw [named] at found
  have defined := same.definition
  rw [mem_def.mp present, bind_some, mem_def.mp found] at defined
  obtain ⟨earlier, there, held⟩ := bind_eq_some_iff.mp defined.symm
  exact ignored earlier there ⟨current, by rwa [named], larger⟩

end ExpansionBroker

/-! ### Activations that are refused without effect, or not at all -/

namespace Progress

open ExpansionBroker

variable {progress : Progress} {before after : ExpansionBroker} {stream : String}
  (broker : ExpansionBroker)

/-- The plan that the activation has read is pending and prepared. -/
def Ready (progress : Progress) : Prop :=
  ∃ expansion, broker.expansions.get? progress.activation.stream = some expansion ∧
    expansion.Prepared progress.activation.targetPartitions progress.activation.pendingEpoch

/-- The activation has not changed the stream, and nothing is left for it to change. -/
structure Idle (broker : ExpansionBroker) (progress : Progress) : Prop where
  same : SameStream progress.activation.stream progress.before broker
  opened : ∀ partition ∈ progress.remaining, broker.Accepts ⟨progress.activation.stream, partition⟩
  written : progress.written = false → ∀ metadata ∈ broker.metadata, ∀ definition assignments,
    partitionsUpdate broker.streams broker.cluster progress.activation =
      .ok (definition, assignments) → ¬ metadata.GrowsStream definition assignments

def Sound (progress : Progress) : Prop :=
  progress.Ready broker ∨ progress.Idle broker

/-- A broker that agrees on the stream is as good. -/
theorem Idle.mono (idle : progress.Idle before)
    (streams : after.streams = before.streams) (cluster : after.cluster = before.cluster)
    (same : SameStream progress.activation.stream before after) : progress.Idle after where
  same := idle.same.trans same
  opened partition member := (same.accepts partition).mpr (idle.opened partition member)
  written unwritten metadata present definition assignments updated := by
    rw [streams, cluster] at updated
    have ignored := fun earlier there => idle.written unwritten earlier there definition assignments
      updated
    exact same.not_grows (partitionsUpdate_ok updated).1 ignored metadata present

/-- A change of other streams does not matter. -/
theorem Sound.spares (sound : progress.Sound before)
    (spares : Spares progress.activation.stream before after) : progress.Sound after := by
  rcases sound with ⟨expansion, found, ready⟩ | idle
  · exact .inl ⟨expansion, spares.expansion.trans found, ready⟩
  · exact .inr (idle.mono spares.streams spares.cluster spares.same)

/-- Nor does a change of plans that keeps prepared ones. -/
theorem Sound.revises {change : PartitionExpansion → PartitionExpansion}
    (sound : progress.Sound before) (revises : Revises stream change before after)
    (current : ∀ expansion, (change expansion).current = expansion.current)
    (prepared : ∀ expansion partitions epoch, expansion.Prepared partitions epoch →
      (change expansion).Prepared partitions epoch) : progress.Sound after := by
  by_cases different : progress.activation.stream = stream
  · subst different
    rcases sound with ⟨expansion, found, ready⟩ | idle
    · rcases revises.entry found with kept | changed
      · exact .inl ⟨expansion, kept, ready⟩
      · exact .inl ⟨_, changed, prepared _ _ _ ready⟩
    · obtain ⟨streams, cluster⟩ := revises.static
      exact .inr (idle.mono streams cluster (revises.same fun expansion _ => current expansion))
  · exact sound.spares (revises.spares different)

end Progress

namespace ExpansionRun

open ExpansionBroker

variable {run : ExpansionRun} {id : ℕ} {progress : Progress}

/-- Every activation is sound, and no two are of one stream. -/
structure Sound (run : ExpansionRun) : Prop where
  alone : ∀ first second, ∀ earlier ∈ run.underway.get? first, ∀ later ∈ run.underway.get? second,
    earlier.activation.stream = later.activation.stream → first = second
  sound : ∀ id, ∀ progress ∈ run.underway.get? id, progress.Sound run.broker

variable {after : ExpansionBroker}

section

variable (sound : run.Sound)

include sound

/-- The activation of one stream is changed, or ended, together with its stream. -/
theorem Sound.change (id : ℕ) {stream : String}
    {changed : OrderedMap ℕ Progress}
    (others : ∀ other ≠ stream, Spares other run.broker after)
    (entries : ∀ tested, ∀ found ∈ changed.get? tested,
      tested = id ∧ found.activation.stream = stream ∧ found.Sound after ∨
        found.activation.stream ≠ stream ∧ run.underway.get? tested = some found) :
    (⟨after, changed⟩ : ExpansionRun).Sound := by
  constructor
  · intro first second one atFirst two atSecond same
    rcases entries first one atFirst with ⟨rfl, here, -⟩ | ⟨different, there⟩
    · rcases entries second two atSecond with ⟨rfl, -, -⟩ | ⟨different, -⟩
      · rfl
      · exact absurd (same.symm.trans here) different
    · rcases entries second two atSecond with ⟨-, here, -⟩ | ⟨-, elsewhere⟩
      · exact absurd (same.trans here) different
      · exact sound.alone first second one there two elsewhere same
  · intro tested found present
    rcases entries tested found present with ⟨-, -, own⟩ | ⟨different, there⟩
    · exact own
    · exact (sound.sound tested found there).spares (others _ different)

section

variable (here : run.underway.get? id = some progress)

include here

section

variable (others : ∀ other ≠ progress.activation.stream, Spares other run.broker after)

include others

/-- An activation is over. -/
theorem Sound.erase :
    (⟨after, run.underway.erase id⟩ : ExpansionRun).Sound := by
  apply sound.change id others
  intro tested found present
  obtain ⟨different, present⟩ := get?_erase_eq_some.mp present
  exact .inr ⟨fun same => different (sound.alone tested id found present progress here same),
    present⟩

/-- An activation has moved on. -/
theorem Sound.insert
    {moved : Progress} (same : moved.activation = progress.activation) (own : moved.Sound after) :
    (⟨after, run.underway.insert id moved⟩ : ExpansionRun).Sound := by
  apply sound.change id others
  intro tested found present
  rcases get?_insert_eq_some.mp present with ⟨rfl, rfl⟩ | ⟨different, present⟩
  · exact .inl ⟨rfl, congrArg Activation.stream same, own⟩
  · exact .inr ⟨fun same => different (sound.alone tested id found present progress here same),
      present⟩

end

/-- A step of an activation keeps the run sound when it leaves other streams alone and the
activation sound. -/
theorem Sound.advance
    {procedure : Procedure ExpansionBroker Unit}
    (others : ∀ other ≠ progress.activation.stream,
      Spares other run.broker (procedure run.broker).1)
    {moved : Progress} (same : moved.activation = progress.activation)
    (own : moved.Sound (procedure run.broker).1) : (advance id moved procedure run).1.Sound := by
  unfold ExpansionRun.advance
  cases called : procedure run.broker with
  | mk after outcome =>
    rw [called] at others own
    cases outcome with
    | ok value => exact sound.insert here others same own
    | error failure => exact sound.erase here others

end

theorem Sound.call {α : Type} {procedure : Procedure ExpansionBroker α} {stream : String}
    {change : PartitionExpansion → PartitionExpansion}
    (revises : Revises stream change run.broker (procedure run.broker).1)
    (current : ∀ expansion, (change expansion).current = expansion.current)
    (prepared : ∀ expansion partitions epoch, expansion.Prepared partitions epoch →
      (change expansion).Prepared partitions epoch) : (call procedure run).1.Sound :=
  ⟨sound.alone, fun id progress present =>
    (sound.sound id progress present).revises revises current prepared⟩

/-- An activation that starts on a prepared plan, or on one that is done. -/
theorem Sound.start {stream : String}
    (considerate : run.Considerate (.start id stream)) :
    (start id stream run).1.Sound := by
  unfold ExpansionRun.start
  rcases startActivation_cases stream run.broker with
    ⟨failure, started⟩ | ⟨expansion, plan, found, pending, started⟩
  · rw [started]
    exact sound
  · rw [started]
    obtain ⟨alone, ready⟩ := considerate
    apply sound.change id fun other _ => .refl other run.broker
    intro tested progress present
    rw [mem_def, get?_insert] at present
    split at present
    · cases present
      refine .inl ⟨by assumption, rfl, ?_⟩
      rcases ready expansion found plan pending with prepared | done
      · refine .inl ⟨expansion, found, by rw [pending]; rfl, fun other here => ?_⟩
        obtain rfl := Option.some.inj (pending.symm.trans here)
        exact prepared
      · exact .inr ⟨.refl _ _, done.opened, fun _ => done.written⟩
    · exact .inr ⟨alone tested progress present, present⟩

theorem Sound.openNext (reserved : Bool) (opened : Outcome PartitionLog) :
    (openNext id reserved opened run).1.Sound := by
  unfold ExpansionRun.openNext
  split
  · rename_i activation partition remaining written before here
    obtain ⟨table, others⟩ :=
      activatePartition_cases ⟨activation.stream, partition⟩ reserved opened run.broker
    refine sound.advance here others rfl ?_
    rcases sound.sound id _ here with ⟨expansion, found, ready⟩ | idle
    · exact .inl ⟨expansion, by rw [table]; exact found, ready⟩
    · have accepts := idle.opened partition List.mem_cons_self
      rw [activatePartition_of_accepts accepts]
      exact .inr ⟨idle.same, (List.forall_mem_cons.mp idle.opened).2, idle.written⟩
  · exact sound

theorem Sound.write {committed : Bool} {answer : Outcome Unit}
    (considerate : run.Considerate (.write id committed answer)) :
    (write id committed answer run).1.Sound := by
  unfold ExpansionRun.write
  split
  · rename_i activation before here
    refine sound.advance here (fun other => writePartitions_spares activation committed answer
      considerate) rfl ?_
    rcases sound.sound id _ here with ⟨expansion, found, ready⟩ | idle
    · refine .inl ⟨expansion, ?_, ready⟩
      rw [writePartitions_expansions]
      exact found
    · rw [writePartitions_noop committed answer (idle.written rfl)]
      exact .inr ⟨idle.same, idle.opened, nofun⟩
  · exact sound

theorem Sound.finish : (finish id run).1.Sound := by
  unfold ExpansionRun.finish
  split
  · rename_i activation before here
    exact sound.erase here fun other different =>
      (finishActivation_revises activation run.broker).spares different
  · exact sound

theorem Sound.next {action : ExpansionAction}
    (considerate : run.Considerate action) : (run.next action).Sound := by
  cases action with
  | begin stream partitions =>
    exact sound.call (beginPartitionExpansion_revises stream partitions run.broker)
      (fun expansion => expansion.begin_current partitions)
      fun _ _ _ ready => ready.begin partitions
  | markPrepared stream count =>
    exact sound.call (markPartitionExpansionPrepared_revises stream count run.broker)
      (fun expansion => expansion.markPrepared_current count)
      fun _ _ _ ready => ready.markPrepared count
  | start id stream => exact sound.start considerate
  | openNext id reserved opened => exact sound.openNext reserved opened
  | write id committed answer => exact sound.write considerate
  | finish id => exact sound.finish

end

/-- Looking up a plan changes nothing. -/
theorem start_broker (id : ℕ) (stream : String) (run : ExpansionRun) :
    (ExpansionRun.start id stream run).1.broker = run.broker := by
  unfold ExpansionRun.start
  rcases startActivation_cases stream run.broker with ⟨_, started⟩ | ⟨_, _, -, -, started⟩
  · rw [started]
  · rw [started]

def orders : StreamId := ⟨"orders", validStreamName_orders⟩

theorem advance_broker (id : ℕ) (progress : Progress)
    (procedure : Procedure ExpansionBroker Unit) (run : ExpansionRun) :
    (advance id progress procedure run).1.broker = (procedure run.broker).1 := by
  unfold advance
  split <;> simp_all

theorem next_grows (run : ExpansionRun) (action : ExpansionAction) :
    TableGrows run.broker.expansions (run.next action).broker.expansions := by
  have untouched : ∀ later, later = run.broker.expansions →
      TableGrows run.broker.expansions later :=
    fun _ same _ entry found => ⟨entry, same ▸ found, .refl entry⟩
  cases action with
  | begin stream partitions =>
    exact (beginPartitionExpansion_revises stream partitions run.broker).grows
      (·.grows_begin partitions)
  | markPrepared stream count =>
    exact (markPartitionExpansionPrepared_revises stream count run.broker).grows
      (·.grows_markPrepared count)
  | start id stream => exact untouched _ (congrArg _ (start_broker id stream run))
  | openNext id reserved opened =>
    apply untouched
    simp only [next, perform, openNext]
    split
    · rw [advance_broker]
      exact (activatePartition_cases _ reserved opened run.broker).1
    · rfl
  | write id committed answer =>
    apply untouched
    simp only [next, perform, write]
    split
    · rw [advance_broker, writePartitions_expansions]
    · rfl
  | finish id =>
    simp only [next, perform, finish]
    split
    · exact (finishActivation_revises _ run.broker).grows (·.grows_activate)
    · exact untouched _ rfl

/-- Whatever calls come in, and however activations are interrupted, no stream loses
partitions or goes back to an earlier epoch. -/
theorem expansions_grow (run : ExpansionRun) (actions : List ExpansionAction) :
    TableGrows run.broker.expansions (actions.foldl next run).broker.expansions := by
  induction actions generalizing run with
  | nil => exact fun _ entry found => ⟨entry, found, .refl entry⟩
  | cons action actions ih =>
    intro stream entry found
    obtain ⟨middle, there, grown⟩ := next_grows run action stream entry found
    obtain ⟨last, held, more⟩ := ih (run.next action) stream middle there
    refine ⟨last, held, fun ahead => ?_⟩
    obtain ⟨on, partitions, epoch⟩ := grown ahead
    obtain ⟨final, furtherPartitions, furtherEpoch⟩ := more on
    exact ⟨final, partitions.trans furtherPartitions, epoch.trans furtherEpoch⟩

end ExpansionRun

end Morrow
