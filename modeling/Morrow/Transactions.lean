import Morrow.ByteCodec
import Morrow.Machine
import Morrow.OrderedMap

/-!
# The transaction coordinator

A transaction collects writes, consumer offsets and view changes until it is
committed or aborted; only a committed one is visible. Every change is written to a
journal as a delta. When the journal has grown, the whole state is written as a
snapshot and the journal is emptied; on that occasion the coordinator forgets
transactions that ended, if there are many of them.

The coordinator stands here together with its two files, and the disk does what it
is asked. The last field keeps, for the record, how things stood at the beginning of
each checkpoint; no operation reads it.
-/

namespace Morrow

open ByteCodec

structure TransactionLimits where
  maxMessages : ℕ
  maxBytes : ℕ
  maxPartitions : ℕ
  maxDurationMs : ℕ
  maxConcurrent : ℕ
deriving DecidableEq

inductive TransactionStatus
  | opened
  | prepared
  | committed
  | aborted (reason : String)
deriving DecidableEq

structure TransactionWrite where
  stream : String
  partition : ℕ
  offset : ℕ
  bytes : Bytes
deriving DecidableEq

structure OffsetCommit where
  consumer : String
  stream : String
  partition : ℕ
  offset : ℕ
deriving DecidableEq

structure ViewMutation where
  view : String
  key : String
  value : Option Bytes
deriving DecidableEq

structure TransactionRecord where
  id : String
  tenant : String
  producer : String
  producerEpoch : ℕ
  startedAtMs : ℕ
  deadlineMs : ℕ
  status : TransactionStatus
  writes : List TransactionWrite
  offsets : List OffsetCommit
  views : List ViewMutation
deriving DecidableEq

structure CommittedBatch where
  id : String
  writes : List TransactionWrite
  offsets : List OffsetCommit
  views : List ViewMutation
deriving DecidableEq

structure TransactionState where
  transactions : OrderedMap String TransactionRecord
  producerEpochs : OrderedMap String ℕ
deriving DecidableEq

def TransactionState.default : TransactionState := ⟨∅, ∅⟩

inductive TransactionDelta
  | begin (record : TransactionRecord)
  | producerEpoch (producer : String) (epoch : ℕ)
  | write (id : String) (write : TransactionWrite)
  | offset (id : String) (offset : OffsetCommit)
  | view (id : String) (mutation : ViewMutation)
  | status (id : String) (status : TransactionStatus)
deriving DecidableEq

namespace TransactionStatus

/-- The transaction is open or prepared. -/
def Live : TransactionStatus → Prop
  | .opened => True
  | .prepared => True
  | _ => False

instance : (status : TransactionStatus) → Decidable status.Live
  | .opened => isTrue trivial
  | .prepared => isTrue trivial
  | .committed => isFalse id
  | .aborted _ => isFalse id

def isAborted : TransactionStatus → Bool
  | .aborted _ => true
  | _ => false

end TransactionStatus

namespace TransactionRecord

variable (record : TransactionRecord)

def committedBatch : CommittedBatch :=
  ⟨record.id, record.writes, record.offsets, record.views⟩

def messages : ℕ :=
  record.writes.length + record.offsets.length + record.views.length

def totalBytes : ℕ :=
  (record.writes.map (·.bytes.length)).sum +
    (record.views.map fun view => (view.value.map List.length).getD 0).sum

/-- The transaction is a live one of the producer. -/
def Fenced (producer : String) (record : TransactionRecord) : Prop :=
  record.producer = producer ∧ record.status.Live

instance (producer : String) : DecidablePred (Fenced producer) :=
  fun _ => inferInstanceAs (Decidable (_ ∧ _))

/-- The transaction is a live one whose time has run out. -/
def Expired (nowMs : ℕ) (record : TransactionRecord) : Prop :=
  record.status.Live ∧ record.deadlineMs ≤ nowMs

instance (nowMs : ℕ) : DecidablePred (Expired nowMs) :=
  fun _ => inferInstanceAs (Decidable (_ ∧ _))

/-- Give a transaction another status if it is one of those that end. -/
def endWhen (ends : TransactionRecord → Prop) [DecidablePred ends] (status : TransactionStatus)
    (record : TransactionRecord) : TransactionRecord :=
  if ends record then { record with status := status } else record

/-- The partitions of a transaction and of one more place. -/
def partitionCount (stream : String) (partition : ℕ) : ℕ :=
  (insert (stream, partition) ((record.writes.map fun item => (item.stream, item.partition)) ++
    record.offsets.map fun item => (item.stream, item.partition)).toFinset).card

end TransactionRecord

namespace TransactionState

variable (state : TransactionState)

/-- Change a transaction the journal speaks about. -/
def update (id : String)
    (change : TransactionRecord → TransactionRecord) : Outcome TransactionState :=
  if state.transactions.contains id then
    .ok { state with transactions := state.transactions.modify id change }
  else .error (.error "transaction journal references unknown transaction")

def applyDelta : TransactionDelta → Outcome TransactionState
  | .begin record =>
    .ok { state with transactions := state.transactions.insert record.id record }
  | .producerEpoch producer epoch =>
    .ok { state with producerEpochs := state.producerEpochs.insert producer epoch }
  | .write id write =>
    state.update id fun record => { record with writes := record.writes ++ [write] }
  | .offset id offset =>
    state.update id fun record => { record with offsets := record.offsets ++ [offset] }
  | .view id mutation =>
    state.update id fun record => { record with views := record.views ++ [mutation] }
  | .status id status => state.update id fun record => { record with status := status }

/-- Apply the deltas of a journal in order. -/
def applyDeltas : TransactionState → List TransactionDelta → Outcome TransactionState
  | state, [] => .ok state
  | state, delta :: deltas => do
    let applied ← state.applyDelta delta
    applied.applyDeltas deltas

/-- Change every transaction. -/
def mapRecords (change : TransactionRecord → TransactionRecord) :
    TransactionState :=
  { state with transactions := state.transactions.mapValues fun _ => change }

/-- The number of open and prepared transactions. -/
def active : ℕ :=
  (state.transactions.values.filter fun record => record.status.Live).length

def visibleBatch (id : String) : Option CommittedBatch := do
  let record ← state.transactions.get? id
  if record.status = .committed then some record.committedBatch else none

/-- Forget the first transactions that ended, until few enough are left. -/
def evict (limits : TransactionLimits) (state : TransactionState) : TransactionState :=
  let ended := state.transactions.entries.filter fun entry => ¬ entry.2.status.Live
  let terminal := ended.map Prod.fst
  let keepTerminal := max (min (limits.maxConcurrent * 16) u64Max) 64
  let removed := terminal.take (terminal.length - keepTerminal)
  { state with transactions := removed.foldl (fun map id => map.erase id) state.transactions }

end TransactionState

/-- How things stand when a checkpoint begins: the state in memory and the files. -/
structure CheckpointStart where
  state : TransactionState
  snapshot : Option TransactionState
  journal : List TransactionDelta
deriving DecidableEq

structure TransactionCoordinator where
  limits : TransactionLimits
  state : TransactionState
  journalEntries : ℕ
  snapshot : Option TransactionState
  journal : List TransactionDelta
  checkpoints : List CheckpointStart
deriving DecidableEq

namespace TransactionCoordinator

open TransactionRecord (endWhen Fenced Expired)

/-- A coordinator on files that do not exist yet. -/
def new (limits : TransactionLimits) : TransactionCoordinator :=
  ⟨limits, TransactionState.default, 0, none, [], []⟩

/-! ### The files -/

variable (coordinator : TransactionCoordinator)

def checkpoint : TransactionCoordinator :=
  let state := coordinator.state.evict coordinator.limits
  { coordinator with
    state := state
    snapshot := some state
    journal := []
    journalEntries := 0
    checkpoints := coordinator.checkpoints ++
      [⟨coordinator.state, coordinator.snapshot, coordinator.journal⟩] }

variable (deltas : List TransactionDelta)

/-- Write deltas at the end of the journal. -/
def writeDeltas :
    TransactionCoordinator :=
  { coordinator with
    journal := coordinator.journal ++ deltas
    journalEntries := coordinator.journalEntries + deltas.length }

def appendDeltas :
    TransactionCoordinator :=
  if deltas = [] then coordinator
  else
    let written := coordinator.writeDeltas deltas
    if 64 ≤ written.journalEntries then written.checkpoint else written

/-- The state the files stand for. -/
def recovered (snapshot : Option TransactionState) (journal : List TransactionDelta) :
    Outcome TransactionState :=
  (snapshot.getD TransactionState.default).applyDeltas journal

/-- Close the coordinator and open its files again. -/
def reopen : Outcome TransactionCoordinator := do
  let state ← recovered coordinator.snapshot coordinator.journal
  pure { coordinator with state := state, journalEntries := coordinator.journal.length }

/-! ### The operations -/

/-- What an operation answers. -/
inductive Answer
  | done
  | batch (batch : CommittedBatch)
  | recovered (count : ℕ)
deriving DecidableEq

/-- Fence a producer: end its live transactions and record the epoch. -/
def fence (producer : String) (epoch : ℕ) :
    TransactionCoordinator :=
  let reason := TransactionStatus.aborted "producer epoch fenced"
  let ended := coordinator.state.transactions.values.filter fun record => record.Fenced producer
  let state := coordinator.state.mapRecords (endWhen (Fenced producer) reason)
  let deltas := (ended.map fun record => TransactionDelta.status record.id reason) ++
    [TransactionDelta.producerEpoch producer epoch]
  { coordinator with
    state := { state with
      producerEpochs := state.producerEpochs.insert producer epoch } }.appendDeltas deltas

/-- Store a new transaction. -/
def start (record : TransactionRecord) :
    TransactionCoordinator :=
  { coordinator with
    state :=
      { coordinator.state with
        transactions := coordinator.state.transactions.insert record.id record } }.appendDeltas
    [.begin record]

/-- The fence stays even if there are too many transactions. -/
def begin (id tenant producer : String)
    (producerEpoch nowMs : ℕ) : TransactionCoordinator × Outcome Answer :=
  if id = "" ∨ tenant = "" ∨ producer = "" then
    (coordinator, .error (.error "transaction identity is empty"))
  else
    match coordinator.state.transactions.get? id with
    | some existing =>
      (coordinator, do
        ensure (existing.producer = producer ∧ existing.producerEpoch = producerEpoch)
          "transaction ID was reused with a different producer epoch"
        pure .done)
    | none =>
      let currentEpoch := (coordinator.state.producerEpochs.get? producer).getD 0
      if producerEpoch < currentEpoch then
        (coordinator, .error (.error "producer epoch is fenced"))
      else
        let fenced :=
          if currentEpoch < producerEpoch then coordinator.fence producer producerEpoch
          else coordinator
        if fenced.state.active < fenced.limits.maxConcurrent then
          (fenced.start ⟨id, tenant, producer, producerEpoch, nowMs,
            saturatingAdd nowMs fenced.limits.maxDurationMs, .opened, [], [], []⟩, .ok .done)
        else (fenced, .error (.error "concurrent transaction quota exceeded"))

variable (id : String)

/-- Change one transaction, and write the delta that says so. -/
def replace (record : TransactionRecord)
    (delta : TransactionDelta) : TransactionCoordinator :=
  { coordinator with
    state :=
      { coordinator.state with
        transactions := coordinator.state.transactions.insert id record } }.appendDeltas [delta]

variable (nowMs : ℕ)

/-- Look up a transaction whose time has not run out. -/
def live :
    Outcome TransactionRecord :=
  match coordinator.state.transactions.get? id with
  | none => .error (.error "unknown transaction")
  | some record => do
    ensure (nowMs ≤ record.deadlineMs) "transaction timed out"
    pure record

/-- An operation on an open transaction. -/
def withOpen
    (delta : TransactionDelta) (operation : TransactionRecord → Outcome TransactionRecord) :
    TransactionCoordinator × Outcome Answer :=
  let changed : Outcome TransactionRecord := do
    let record ← coordinator.live id nowMs
    ensure (record.status = .opened) "transaction is not open"
    operation record
  match changed with
  | .error failure => (coordinator, .error failure)
  | .ok record => (coordinator.replace id record delta, .ok .done)

def append (write : TransactionWrite)
    (nowMs : ℕ) : TransactionCoordinator × Outcome Answer :=
  let limits := coordinator.limits
  coordinator.withOpen id nowMs (.write id write) fun record => do
    ensure (record.messages < limits.maxMessages) "transaction message quota exceeded"
    ensure (saturatingAdd record.totalBytes write.bytes.length ≤ limits.maxBytes)
      "transaction byte quota exceeded"
    ensure (record.partitionCount write.stream write.partition ≤ limits.maxPartitions)
      "transaction partition quota exceeded"
    pure { record with writes := record.writes ++ [write] }

def commitOffset (offset : OffsetCommit)
    (nowMs : ℕ) : TransactionCoordinator × Outcome Answer :=
  let limits := coordinator.limits
  coordinator.withOpen id nowMs (.offset id offset) fun record => do
    ensure (record.messages < limits.maxMessages) "transaction message quota exceeded"
    ensure (record.partitionCount offset.stream offset.partition ≤ limits.maxPartitions)
      "transaction partition quota exceeded"
    pure { record with offsets := record.offsets ++ [offset] }

def mutateView (mutation : ViewMutation)
    (nowMs : ℕ) : TransactionCoordinator × Outcome Answer :=
  let limits := coordinator.limits
  coordinator.withOpen id nowMs (.view id mutation) fun record => do
    ensure (record.messages < limits.maxMessages) "transaction message quota exceeded"
    ensure (saturatingAdd record.totalBytes ((mutation.value.map List.length).getD 0) ≤
      limits.maxBytes) "transaction byte quota exceeded"
    pure { record with views := record.views ++ [mutation] }

/-- Give a transaction another status. -/
def setStatus (record : TransactionRecord)
    (status : TransactionStatus) : TransactionCoordinator :=
  coordinator.replace id { record with status := status } (.status id status)

def prepare :
    TransactionCoordinator × Outcome Answer :=
  let checked : Outcome TransactionRecord := do
    let record ← coordinator.live id nowMs
    ensure (record.status = .opened) "transaction is not open"
    pure record
  match checked with
  | .error failure => (coordinator, .error failure)
  | .ok record => (coordinator.setStatus id record .prepared, .ok .done)

def commit :
    TransactionCoordinator × Outcome Answer :=
  let checked : Outcome TransactionRecord := do
    let record ← coordinator.live id nowMs
    ensure (record.status = .prepared) "transaction is not prepared"
    pure record
  match checked with
  | .error failure => (coordinator, .error failure)
  | .ok record =>
    (coordinator.setStatus id record .committed, .ok (.batch record.committedBatch))

def abort (id reason : String) :
    TransactionCoordinator × Outcome Answer :=
  match coordinator.state.transactions.get? id with
  | none => (coordinator, .error (.error "unknown transaction"))
  | some record =>
    if record.status.Live then (coordinator.setStatus id record (.aborted reason), .ok .done)
    else (coordinator, .error (.error "transaction is already terminal"))

/-- End the transactions whose time has run out. The deltas name every transaction
that is aborted, not only these. -/
def recover :
    TransactionCoordinator × Outcome Answer :=
  let count := (coordinator.state.transactions.values.filter fun record =>
    record.Expired nowMs).length
  let state := coordinator.state.mapRecords (endWhen (Expired nowMs)
    (.aborted "transaction timeout during recovery"))
  let deltas := (state.transactions.values.filter (·.status.isAborted)).map
    fun record => TransactionDelta.status record.id record.status
  ({ coordinator with state := state }.appendDeltas deltas, .ok (.recovered count))

inductive Operation
  | begin (id tenant producer : String) (producerEpoch nowMs : ℕ)
  | append (id : String) (write : TransactionWrite) (nowMs : ℕ)
  | commitOffset (id : String) (offset : OffsetCommit) (nowMs : ℕ)
  | mutateView (id : String) (mutation : ViewMutation) (nowMs : ℕ)
  | prepare (id : String) (nowMs : ℕ)
  | commit (id : String) (nowMs : ℕ)
  | abort (id reason : String)
  | recover (nowMs : ℕ)
  | checkpoint
deriving DecidableEq

def perform :
    Operation → TransactionCoordinator × Outcome Answer
  | .begin id tenant producer producerEpoch nowMs =>
    coordinator.begin id tenant producer producerEpoch nowMs
  | .append id write nowMs => coordinator.append id write nowMs
  | .commitOffset id offset nowMs => coordinator.commitOffset id offset nowMs
  | .mutateView id mutation nowMs => coordinator.mutateView id mutation nowMs
  | .prepare id nowMs => coordinator.prepare id nowMs
  | .commit id nowMs => coordinator.commit id nowMs
  | .abort id reason => coordinator.abort id reason
  | .recover nowMs => coordinator.recover nowMs
  | .checkpoint => (coordinator.checkpoint, .ok .done)

/-- The coordinator after a sequence of operations. -/
def performAll (operations : List Operation) :
    TransactionCoordinator :=
  operations.foldl (fun coordinator operation => (coordinator.perform operation).1) coordinator

end TransactionCoordinator

end Morrow
