import Morrow.GuardedRuns
import Morrow.RaftMetadata

/-!
# The durable state machine

The replicated metadata is kept in two files. Entries are written to a journal as
they are applied, and a snapshot of the whole state replaces the journal from time to
time: the snapshot file is written first, then the journal is emptied. Between the
two writes the journal holds entries that the snapshot contains already, and a reader
skips them by their index.

A file is replaced as a whole or not at all, and the journal is a list of records.
The text in which a state is stored is a parameter. Files of earlier versions, locks
and errors of the disk are left out.
-/

namespace Morrow

open ByteCodec GuardedRuns List Option

/-- What an entry of the agreed log carries. -/
inductive EntryPayload
  | blank
  | normal (command : BrokerCommand)
  | membership (membership : Membership)

structure Entry where
  logId : LogId
  payload : EntryPayload

/-- How states are written to and read from snapshots. -/
structure StateJson where
  write : DurableState → Bytes
  read : Bytes → Option DurableState

structure SnapshotMeta where
  lastLogId : Option LogId
  lastMembership : StoredMembership

structure StoredSnapshot where
  metadata : SnapshotMeta
  data : Bytes

structure StateMachineData where
  state : DurableState
  snapshot : Option StoredSnapshot

/-- A record of the journal. Checkpoints come from earlier versions only. -/
inductive StateRecord
  | checkpoint (data : StateMachineData)
  | apply (entries : List Entry)

/-- What is told to the rest of the broker about an applied entry. -/
structure CommittedDelta where
  logId : LogId
  command : Option BrokerCommand
  response : BrokerResponse

/-- The number of applied entries kept for the rest of the broker. -/
def maxCommittedDeltas : ℕ := 4096

/-- The two files. -/
structure StateMachineDisk where
  snapshot : Option StoredSnapshot
  journal : List StateRecord

structure StateMachineStore where
  data : StateMachineData
  deltas : List CommittedDelta
  appliedIndex : ℕ
  disk : StateMachineDisk

namespace StateMachineStore

/-! ### Applying entries -/

def EntryPayload.command : EntryPayload → Option BrokerCommand
  | .normal command => some command
  | _ => none

def applyEntry (state : DurableState) (entry : Entry) : DurableState × BrokerResponse :=
  let state := { state with lastApplied := some entry.logId }
  match entry.payload with
  | .membership membership =>
    ({ state with lastMembership := ⟨some entry.logId, membership⟩ }, .noop)
  | .blank => (state, .noop)
  | .normal command => state.applyCommand command

/-- Entries up to the given position are skipped. -/
def After (after : Option LogId) (entry : Entry) : Prop :=
  ∀ last ∈ after, last.index < entry.logId.index

instance (after : Option LogId) (entry : Entry) : Decidable (After after entry) := by
  unfold After
  infer_instance

/-- Apply entries one after the other. -/
def applyEach : DurableState → List Entry → DurableState × List CommittedDelta
  | state, [] => (state, [])
  | state, entry :: entries =>
    let applied := applyEntry state entry
    let rest := applyEach applied.1 entries
    (rest.1, ⟨entry.logId, EntryPayload.command entry.payload, applied.2⟩ :: rest.2)

def applyEntriesAfter (state : DurableState) (entries : List Entry) (after : Option LogId) :
    DurableState × List CommittedDelta :=
  applyEach state (entries.filter fun entry => After after entry)

/-! ### Opening -/

/-- Positions are ordered by term, node and index; no position comes first. -/
def LaterThan : Option LogId → Option LogId → Prop
  | some left, some right =>
    toLex (right.term, toLex (right.nodeId, right.index)) <
      toLex (left.term, toLex (left.nodeId, left.index))
  | some _, none => True
  | none, _ => False

instance : (left right : Option LogId) → Decidable (LaterThan left right)
  | some _, some _ => inferInstanceAs (Decidable (_ < _))
  | some _, none => isTrue trivial
  | none, _ => isFalse id

def replayRecord (data : StateMachineData) : StateRecord → StateMachineData
  | .checkpoint checkpoint =>
    if LaterThan checkpoint.state.lastApplied data.state.lastApplied then checkpoint
    else if data.snapshot.isNone then { data with snapshot := checkpoint.snapshot }
    else data
  | .apply entries =>
    { data with state := (applyEntriesAfter data.state entries data.state.lastApplied).1 }

/-- The number of the next entry to apply. -/
def nextIndex (lastApplied : Option LogId) : ℕ :=
  (lastApplied.map fun logId => saturatingSucc logId.index).getD 0

variable (json : StateJson) (nodes : OrderedMap ℕ String)

/-- The state in the snapshot file, if there is one. -/
def readSnapshot : Option StoredSnapshot → Outcome StateMachineData
  | none => .ok ⟨DurableState.new nodes, none⟩
  | some snapshot =>
    match json.read snapshot.data with
    | some state => .ok ⟨state, some snapshot⟩
    | none => .error (.error "decoding stored Raft snapshot")

variable (disk : StateMachineDisk)

/-- The snapshot file, then the journal. -/
def openData : Outcome StateMachineData := do
  let start ← readSnapshot json nodes disk.snapshot
  pure (disk.journal.foldl replayRecord start)

def openStore : Outcome StateMachineStore := do
  let data ← openData json nodes disk
  pure ⟨data, [], nextIndex data.state.lastApplied, disk⟩

/-! ### The calls -/

/-- A call of the consensus library. -/
inductive Call
  | apply (entries : List Entry)
  | buildSnapshot
  | installSnapshot (metadata : SnapshotMeta) (snapshot : Bytes)

variable (store : StateMachineStore)

/-- The state a call leaves, with the files it writes. -/
def apply (entries : List Entry) : StateMachineStore :=
  let applied := applyEntriesAfter store.data.state entries none
  let deltas := store.deltas ++ applied.2
  { data := { store.data with state := applied.1 }
    deltas := deltas.drop (deltas.length - maxCommittedDeltas)
    appliedIndex := match applied.1.lastApplied with
      | some logId => saturatingSucc logId.index
      | none => store.appliedIndex
    disk := { store.disk with journal := store.disk.journal ++ [.apply entries] } }

def stored (json : StateJson) (store : StateMachineStore) : StoredSnapshot :=
  ⟨⟨store.data.state.lastApplied, store.data.state.lastMembership⟩, json.write store.data.state⟩

def buildSnapshot : StateMachineStore :=
  { store with
    data := { store.data with snapshot := some (store.stored json) }
    disk := ⟨some (store.stored json), []⟩ }

/-- A snapshot that cannot be read is refused before anything is written. -/
def installSnapshot (metadata : SnapshotMeta) (snapshot : Bytes) :
    StateMachineStore :=
  match json.read snapshot with
  | none => store
  | some state =>
    { data := ⟨state, some ⟨metadata, snapshot⟩⟩
      deltas := []
      appliedIndex := nextIndex state.lastApplied
      disk := ⟨some ⟨metadata, snapshot⟩, []⟩ }

def call : Call → StateMachineStore
  | .apply entries => store.apply entries
  | .buildSnapshot => store.buildSnapshot json
  | .installSnapshot metadata snapshot => store.installSnapshot json metadata snapshot

/-- The files between the writes of a call, from before the first to after the last. -/
def disks : Call → List StateMachineDisk
  | .apply entries =>
    [store.disk, { store.disk with journal := store.disk.journal ++ [.apply entries] }]
  | .buildSnapshot =>
    [store.disk, { store.disk with snapshot := some (store.stored json) },
      ⟨some (store.stored json), []⟩]
  | .installSnapshot metadata snapshot =>
    match json.read snapshot with
    | none => [store.disk]
    | some _ =>
      [store.disk, { store.disk with snapshot := some ⟨metadata, snapshot⟩ },
        ⟨some ⟨metadata, snapshot⟩, []⟩]

/-! ### Histories -/

/-- What a store stands for: the state it started from and the entries since then. -/
structure History where
  base : DurableState
  entries : List Entry

namespace History

/-- The entries applied in order, each once, on top of the state they started from. -/
def state (history : History) : DurableState := (applyEach history.base history.entries).1

def lastApplied (history : History) : Option LogId :=
  (history.entries.getLast?.map (·.logId)).or history.base.lastApplied

/-- Entries are added, and a snapshot that is installed starts over. -/
def call (json : StateJson) (history : History) : Call → History
  | .apply entries => ⟨history.base, history.entries ++ entries⟩
  | .buildSnapshot => history
  | .installSnapshot _ snapshot =>
    match json.read snapshot with
    | none => history
    | some state => ⟨state, []⟩

end History

/-- Entries come in the order of their indices, behind what was applied. A snapshot
that is built can be read again, and one that is installed is not behind. -/
def InOrder (json : StateJson) (store : StateMachineStore) : Call → Prop
  | .apply entries =>
    entries.Pairwise (fun first second => first.logId.index < second.logId.index) ∧
    ∀ entry ∈ entries, After store.data.state.lastApplied entry
  | .buildSnapshot => json.read (json.write store.data.state) = some store.data.state
  | .installSnapshot _ snapshot => ∀ state ∈ json.read snapshot,
    ∀ last ∈ store.data.state.lastApplied, ∃ newest ∈ state.lastApplied, last.index ≤ newest.index

/-! ### Positions -/

theorem applyCommand_lastApplied (state : DurableState) (command : BrokerCommand) :
    (state.applyCommand command).1.lastApplied = state.lastApplied := by
  rcases state.applyCommand_cases command with ⟨_, _, _, _, same⟩ |
    ⟨streams, assignments, references, gates, rfl⟩ | ⟨stream, assignments, rfl⟩ | ⟨request, rfl⟩
  · rw [same]
  · simp only [DurableState.applyCommand, DurableState.metadataBootstrap]
    split <;> rfl
  · simp only [DurableState.applyCommand, DurableState.streamPartitionsUpdate]
    split <;> rfl
  · simp only [DurableState.applyCommand, DurableState.partitionCommit]
    repeat' split
    all_goals rfl

theorem applyEntry_lastApplied (state : DurableState) (entry : Entry) :
    (applyEntry state entry).1.lastApplied = some entry.logId := by
  obtain ⟨logId, payload⟩ := entry
  cases payload with
  | blank => rfl
  | membership membership => rfl
  | normal command => exact applyCommand_lastApplied _ command

theorem applyEach_append (state : DurableState) (first second : List Entry) :
    (applyEach state (first ++ second)).1 = (applyEach (applyEach state first).1 second).1 := by
  induction first generalizing state with
  | nil => rfl
  | cons entry first ih => exact ih _

/-- The last entry says how far a state has come. -/
theorem applyEach_lastApplied (state : DurableState) (entries : List Entry) :
    (applyEach state entries).1.lastApplied =
      (entries.getLast?.map (·.logId)).or state.lastApplied := by
  induction entries generalizing state with
  | nil => rfl
  | cons entry entries ih =>
    rw [applyEach, ih, applyEntry_lastApplied, List.getLast?_cons]
    cases entries.getLast? <;> rfl

variable {entries : List Entry} {state : DurableState}

theorem applyEntriesAfter_of_after {after : Option LogId}
    (later : ∀ entry ∈ entries, After after entry) :
    applyEntriesAfter state entries after = applyEach state entries := by
  rw [applyEntriesAfter, filter_eq_self.mpr]
  exact (by simpa using later)

theorem applyEntriesAfter_of_not {after : Option LogId}
    (earlier : ∀ entry ∈ entries, ¬ After after entry) :
    applyEntriesAfter state entries after = (state, []) := by
  rw [applyEntriesAfter, filter_eq_nil_iff.mpr]
  · rfl
  · exact (by simpa using earlier)

/-- One position is not behind another. -/
def Covers (newest last : Option LogId) : Prop :=
  ∀ old ∈ last, ∃ new ∈ newest, old.index ≤ new.index

theorem Covers.refl (last : Option LogId) : Covers last last :=
  fun old held => ⟨old, held, le_refl _⟩

theorem Covers.trans {first second third : Option LogId} (earlier : Covers second first)
    (later : Covers third second) : Covers third first := by
  intro old held
  obtain ⟨middle, found, below⟩ := earlier old held
  obtain ⟨new, last, above⟩ := later middle found
  exact ⟨new, last, below.trans above⟩

/-- Entries that come in order move the position forward, to the last of them. -/
theorem covers_applyEach
    (increasing : entries.Pairwise (fun first second => first.logId.index < second.logId.index))
    (later : ∀ entry ∈ entries, After state.lastApplied entry) :
    Covers (applyEach state entries).1.lastApplied state.lastApplied ∧
      ∀ entry ∈ entries, Covers (applyEach state entries).1.lastApplied (some entry.logId) := by
  rw [applyEach_lastApplied]
  rcases eq_nil_or_concat entries with rfl | ⟨front, final, rfl⟩
  · exact ⟨Covers.refl _, fun entry member => absurd member not_mem_nil⟩
  · rw [concat_eq_append] at *
    rw [List.getLast?_concat]
    refine ⟨?_, ?_⟩
    · intro old held
      exact ⟨final.logId, rfl, (later final (by simp) old held).le⟩
    · intro entry member old held
      obtain rfl := some.inj held
      refine ⟨final.logId, rfl, ?_⟩
      rcases mem_append.mp member with early | last
      · exact ((pairwise_append.mp increasing).2.2 entry early final (by simp)).le
      · rw [mem_singleton.mp last]

/-! ### Reopening -/

/-- The journal holds applied entries that are not ahead of a position. -/
def Behind (journal : List StateRecord) (last : Option LogId) : Prop :=
  ∀ record ∈ journal, ∃ entries, record = .apply entries ∧
    ∀ entry ∈ entries, Covers last (some entry.logId)

variable {journal : List StateRecord}

theorem Behind.mono {last newest : Option LogId} (behind : Behind journal last)
    (covers : Covers newest last) : Behind journal newest := by
  intro record member
  obtain ⟨entries, rfl, held⟩ := behind record member
  exact ⟨entries, rfl, fun entry inside => (held entry inside).trans covers⟩

/-- A journal that is not ahead of a state adds nothing to it. -/
theorem Behind.replay {data : StateMachineData} (behind : Behind journal data.state.lastApplied) :
    journal.foldl replayRecord data = data := by
  induction journal with
  | nil => rfl
  | cons record journal ih =>
    obtain ⟨entries, rfl, held⟩ := behind record mem_cons_self
    have skipped : ∀ entry ∈ entries, ¬ After data.state.lastApplied entry := by
      intro entry member after
      obtain ⟨last, found, bound⟩ := held entry member entry.logId rfl
      have ahead := after last found
      omega
    have same : replayRecord data (.apply entries) = data := by
      rw [replayRecord, applyEntriesAfter_of_not skipped]
    rw [foldl_cons, same]
    exact ih (forall_mem_cons.mp behind).2

/-- What holds of a store with the given history between its calls. -/
structure Holds (json : StateJson) (nodes : OrderedMap ℕ String) (store : StateMachineStore)
    (history : History) : Prop where
  state : store.data.state = history.state
  reopens : openData json nodes store.disk = .ok store.data
  behind : Behind store.disk.journal store.data.state.lastApplied

section Calls

variable {json : StateJson} {nodes : OrderedMap ℕ String} {store : StateMachineStore}
  {history : History}

variable {snapshot : StoredSnapshot} {journal : List StateRecord}

/-- A snapshot that can be read, in front of a journal that is not ahead of it. -/
theorem openData_snapshot {state : DurableState} (read : json.read snapshot.data = some state)
    (behind : Behind journal state.lastApplied) :
    openData json nodes ⟨some snapshot, journal⟩ = .ok ⟨state, some snapshot⟩ := by
  have whole : journal.foldl replayRecord ⟨state, some snapshot⟩ = ⟨state, some snapshot⟩ :=
    Behind.replay behind
  simp only [openData, readSnapshot, read, ok_bind, whole]
  rfl

variable {disk : StateMachineDisk} {data : StateMachineData}

/-- The journal with one more record. -/
theorem openData_append (opened : openData json nodes disk = .ok data) (record : StateRecord) :
    openData json nodes { disk with journal := disk.journal ++ [record] } =
      .ok (replayRecord data record) := by
  obtain ⟨start, read, replayed⟩ := bind_eq_ok.mp opened
  obtain rfl := Except.ok.inj replayed
  simp only [openData, read, foldl_append]
  rfl

theorem applyEntriesAfter_none (state : DurableState) (entries : List Entry) :
    applyEntriesAfter state entries none = applyEach state entries :=
  applyEntriesAfter_of_after (fun _ _ _ held => by cases held)

theorem apply_data (store : StateMachineStore) (entries : List Entry) :
    (store.apply entries).data =
      { store.data with state := (applyEach store.data.state entries).1 } := by
  rw [StateMachineStore.apply, applyEntriesAfter_none]

/-- Files that can be read give a store that holds what they say. -/
theorem openStore_holds (opened : openData json nodes disk = .ok data)
    (state : data.state = history.state) (behind : Behind disk.journal data.state.lastApplied) :
    ∃ reopened, openStore json nodes disk = .ok reopened ∧ reopened.Holds json nodes history := by
  refine ⟨⟨data, [], nextIndex data.state.lastApplied, disk⟩, ?_, state, opened, behind⟩
  rw [openStore, opened]
  rfl

theorem Holds.apply (holds : store.Holds json nodes history) {entries : List Entry}
    (inOrder : store.InOrder json (.apply entries)) :
    (store.apply entries).Holds json nodes (history.call json (.apply entries)) where
  state := by
    rw [apply_data, holds.state, History.state, History.call, History.state, applyEach_append]
  reopens := by
    have reopened := openData_append holds.reopens (.apply entries)
    rw [replayRecord, applyEntriesAfter_of_after inOrder.2] at reopened
    rw [apply_data]
    exact reopened
  behind := by
    obtain ⟨forward, covered⟩ := covers_applyEach inOrder.1 inOrder.2
    rw [apply_data]
    intro record member
    rcases mem_append.mp member with earlier | last
    · exact holds.behind.mono forward record earlier
    · exact ⟨entries, mem_singleton.mp last, covered⟩

/-- Once the new snapshot is written, the files hold its state, with the old journal
or with an empty one. -/
theorem snapshot_holds {state : DurableState} (read : json.read snapshot.data = some state)
    (same : state = history.state) (behind : Behind journal state.lastApplied) :
    ∃ reopened, openStore json nodes ⟨some snapshot, journal⟩ = .ok reopened ∧
      reopened.Holds json nodes history :=
  openStore_holds (openData_snapshot read behind) same behind

theorem Behind.nil (last : Option LogId) : Behind [] last :=
  fun _ member => absurd member not_mem_nil

/-- A call in order keeps the store and its files together. -/
theorem Holds.call (holds : store.Holds json nodes history) {call : Call}
    (inOrder : store.InOrder json call) :
    (store.call json call).Holds json nodes (history.call json call) := by
  cases call with
  | apply entries => exact holds.apply inOrder
  | buildSnapshot => exact ⟨holds.state, openData_snapshot inOrder (Behind.nil _), Behind.nil _⟩
  | installSnapshot metadata snapshot =>
    simp only [StateMachineStore.call, installSnapshot, History.call]
    cases read : json.read snapshot with
    | none => exact holds
    | some state => exact ⟨rfl, openData_snapshot read (Behind.nil _), Behind.nil _⟩

/-- What a crash leaves in the files. Before the first write of the call it is what
was there, and from then on it is what the call leaves. -/
theorem Holds.crash (holds : store.Holds json nodes history) {call : Call}
    (inOrder : store.InOrder json call) {writes : ℕ}
    (left : (store.disks json call)[writes]? = some disk) :
    ∃ reopened, openStore json nodes disk = .ok reopened ∧
      reopened.Holds json nodes (if writes = 0 then history else history.call json call) := by
  have before : store.disk = disk → ∃ reopened, openStore json nodes disk = .ok reopened ∧
      reopened.Holds json nodes history := by
    rintro rfl
    exact openStore_holds holds.reopens holds.state holds.behind
  cases call with
  | apply entries =>
    have after := holds.apply inOrder
    rcases writes with _ | _ | writes
    · exact before (some.inj left)
    · obtain rfl := some.inj left
      exact openStore_holds after.reopens after.state after.behind
    · simp [disks] at left
  | buildSnapshot =>
    have read : json.read (store.stored json).data = some store.data.state := inOrder
    rcases writes with _ | _ | _ | writes
    · exact before (some.inj left)
    · obtain rfl := some.inj left
      exact snapshot_holds read holds.state holds.behind
    · obtain rfl := some.inj left
      exact snapshot_holds read holds.state (Behind.nil _)
    · simp [disks] at left
  | installSnapshot metadata snapshot =>
    cases read : json.read snapshot with
    | none =>
      simp only [disks, read] at left
      rcases writes with _ | writes
      · exact before (some.inj left)
      · simp at left
    | some state =>
      simp only [disks, read] at left
      have same : state = (history.call json (.installSnapshot metadata snapshot)).state := by
        simp only [History.call, read]
        rfl
      rcases writes with _ | _ | _ | writes
      · exact before (some.inj left)
      · obtain rfl := some.inj left
        exact snapshot_holds read same (holds.behind.mono (inOrder state read))
      · obtain rfl := some.inj left
        exact snapshot_holds read same (Behind.nil _)
      · simp at left

end Calls

/-! ### All histories -/

/-- A call that runs to its end, or one that stops after some of its writes, with the
store opened again. -/
inductive Action
  | call (call : Call)
  | crash (call : Call) (writes : ℕ)

/-- A store and the history it stands for. -/
structure Machine where
  store : StateMachineStore
  history : History

namespace Machine

variable (json : StateJson) (nodes : OrderedMap ℕ String)

/-- A store on empty files. -/
def fresh : Machine where
  store := ⟨⟨DurableState.new nodes, none⟩, [], 0, ⟨none, []⟩⟩
  history := ⟨DurableState.new nodes, []⟩

def next (machine : Machine) : Action → Machine
  | .call call => ⟨machine.store.call json call, machine.history.call json call⟩
  | .crash call writes =>
    match ((machine.store.disks json call)[writes]?).map (openStore json nodes) with
    | some (.ok reopened) =>
      ⟨reopened, if writes = 0 then machine.history else machine.history.call json call⟩
    | _ => machine

def InOrder (machine : Machine) : Action → Prop
  | .call call => machine.store.InOrder json call
  | .crash call _ => machine.store.InOrder json call

theorem holds_next {machine : Machine} {action : Action} (inOrder : machine.InOrder json action)
    (holds : machine.store.Holds json nodes machine.history) :
    (machine.next json nodes action).store.Holds json nodes
      (machine.next json nodes action).history := by
  cases action with
  | call call => exact holds.call inOrder
  | crash call writes =>
    simp only [next]
    cases left : (machine.store.disks json call)[writes]? with
    | none => exact holds
    | some disk =>
      obtain ⟨reopened, opened, kept⟩ := holds.crash inOrder left
      simp only [map_some, opened]
      exact kept

theorem holds_of_run {machine : Machine}
    (run : Reaches (next json nodes) (InOrder json) (fresh nodes) machine) :
    machine.store.Holds json nodes machine.history := by
  apply run.invariant (fun machine => machine.store.Holds json nodes machine.history)
  · exact fun machine action inOrder holds => holds_next json nodes inOrder holds
  · exact ⟨rfl, rfl, Behind.nil _⟩

end Machine

/-- A store that is opened again after a crash in any call has the state of the
history with or without that call, at the position of its last entry, and is not
behind what the calls before it had applied. -/
structure RestartEquivalent (json : StateJson) (nodes : OrderedMap ℕ String) (machine : Machine) :
    Prop where
  state : machine.store.data.state = machine.history.state
  reopens : ∀ call writes disk, machine.store.InOrder json call →
    (machine.store.disks json call)[writes]? = some disk →
    ∃ reopened, openStore json nodes disk = .ok reopened ∧
      reopened.data.state =
        (if writes = 0 then machine.history else machine.history.call json call).state ∧
      reopened.data.state.lastApplied =
        (if writes = 0 then machine.history else machine.history.call json call).lastApplied ∧
      Covers reopened.data.state.lastApplied machine.store.data.state.lastApplied

/-- A call in order does not take the position back. -/
theorem Holds.covers_call {json : StateJson} {nodes : OrderedMap ℕ String}
    {store : StateMachineStore} {history : History} (holds : store.Holds json nodes history)
    {call : Call} (inOrder : store.InOrder json call) :
    Covers (history.call json call).state.lastApplied store.data.state.lastApplied := by
  rw [← (holds.call inOrder).state]
  cases call with
  | apply entries =>
    simp only [StateMachineStore.call, apply_data]
    exact (covers_applyEach inOrder.1 inOrder.2).1
  | buildSnapshot => exact Covers.refl _
  | installSnapshot metadata snapshot =>
    simp only [StateMachineStore.call, installSnapshot]
    cases read : json.read snapshot with
    | none => exact Covers.refl _
    | some state => exact inOrder state read

/-- Wherever a run of calls and crashes has led, the store is what its history stands for,
and is again after one more call that may stop between its writes. -/
theorem restartEquivalent_of_run {json : StateJson} {nodes : OrderedMap ℕ String}
    {machine : Machine}
    (run : Reaches (Machine.next json nodes) (Machine.InOrder json) (Machine.fresh nodes) machine) :
    RestartEquivalent json nodes machine := by
  have holds := Machine.holds_of_run json nodes run
  refine ⟨holds.state, ?_⟩
  intro call writes disk inOrder left
  obtain ⟨reopened, opened, kept⟩ := holds.crash inOrder left
  refine ⟨reopened, opened, kept.state, ?_, ?_⟩
  · rw [kept.state]
    exact applyEach_lastApplied _ _
  · rw [kept.state]
    split
    · rw [← holds.state]
      exact Covers.refl _
    · exact holds.covers_call inOrder

/-- The state of a cluster without nodes that has come to an index, with nothing in it. -/
def emptyState (index : ℕ) : DurableState :=
  { DurableState.new ∅ with lastApplied := some ⟨1, 1, index⟩ }

/-- What the library in use writes for such a state. -/
def emptyText (index : ℕ) : Bytes := utf8 (
  "\x7b\"stream_definitions\":\x7b\x7d,\"partition_assignments\":\x7b\x7d," ++
  "\"security_references\":[],\"feature_gates\":[],\"messages\":\x7b\x7d,\"consumers\":\x7b\x7d," ++
  "\"groups\":\x7b\x7d,\"next_partition_offsets\":\x7b\x7d,\"partition_commits\":\x7b\x7d,\"policy\":null," ++
  "\"last_applied\":\x7b\"leader_id\":\x7b\"term\":1,\"node_id\":1\x7d,\"index\":" ++
  toString index ++ "\x7d,\"last_membership\":\x7b\"log_id\":null," ++
  "\"membership\":\x7b\"configs\":[[]],\"nodes\":\x7b\x7d\x7d\x7d\x7d")

/-- A library that knows such states. -/
def emptyJson : StateJson where
  write state := emptyText (state.lastApplied.elim 0 (·.index))
  read bytes := ([0, 1, u64Max].find? (emptyText · = bytes)).map emptyState

def blankEntry : Entry := ⟨⟨1, 1, 0⟩, .blank⟩

def deleteEntry (index : ℕ) : Entry := ⟨⟨1, 1, index⟩, .normal (.consumerDelete "c")⟩

/-- Entries are applied, the store stops between the writes of a snapshot, and goes on. -/
theorem restartEquivalent_of_run_snapshot : RestartEquivalent emptyJson ∅
    ([Action.call (.apply [blankEntry, deleteEntry 1]), .crash .buildSnapshot 1,
      .call (.apply [deleteEntry 2])].foldl (Machine.next emptyJson ∅) (Machine.fresh ∅)) := by
  apply restartEquivalent_of_run
  refine .step (.call (.apply [blankEntry, deleteEntry 1])) ⟨by decide, by decide⟩ ?_
  refine .step (.crash .buildSnapshot 1) (by decide +kernel : emptyJson.read _ = some _) ?_
  refine .step (.call (.apply [deleteEntry 2])) ⟨by decide, by decide +kernel⟩ ?_
  exact .refl _

end StateMachineStore

end Morrow
