import Morrow.DurablePublish
import Morrow.Subject
import Morrow.ViewRestart

/-!
# The views of a broker

A broker keeps its configured views up to date: a record that was stored is applied to
every view of its stream before the publish is answered, and when the broker is opened
the retained records are applied to every view again.

A view that is at its limit refuses the record. The refusal is handed on as the result
of the publish, although the record is stored, and at the next start as the result of
opening the broker. Neither happens as long as the stored records of a stream have valid
keys and small enough values, and not more keys than its views have room for.
-/

namespace Morrow

open ByteCodec FramedLog OrderedMap

/-- A configured view. -/
structure ViewConfig where
  tenant : String
  sourceStream : String
  sourceSubject : Option String
  keyHeader : Option String
  maxEntries : ℕ
  maxValueBytes : ℕ
  watchCapacity : ℕ
deriving DecidableEq

variable (definition : ViewConfig)

def ViewConfig.limits : ViewLimits :=
  ⟨definition.maxEntries, definition.maxValueBytes, definition.watchCapacity⟩

/-- What a record changes in a view. Header names are compared without case. -/
def viewUpdate (record : PublishRecord) : Option ViewUpdate :=
  if record.stream ≠ some definition.sourceStream ∨
      definition.sourceSubject.any (fun subject => !Subject.subjectMatches subject record.subject)
  then none
  else
    let header := definition.keyHeader.bind fun name =>
      record.headers.find? fun header => header.name.toLower == name.toLower
    some {
      key := (header.map (·.value)).getD record.subject
      value := some record.payload
      position := ⟨record.stream.getD "", record.partition.getD 0, record.offset.getD 0⟩ }

structure ViewRuntime where
  definition : ViewConfig
  stored : StoredView
  paused : Bool

/-- The views of a broker, and the records it has stored. -/
structure ViewBroker where
  views : OrderedMap String ViewRuntime
  history : List PublishRecord

namespace ViewBroker

/-- Do something for every name, until it fails. -/
def forEach (call : String → Procedure ViewBroker Unit) : List String → Procedure ViewBroker Unit
  | [] => pure ()
  | name :: names => do
    call name
    forEach call names

/-- Change one view. -/
def onStored (name : String) (call : ViewRuntime → Procedure StoredView Unit) :
    Procedure ViewBroker Unit := fun broker =>
  match broker.views.get? name with
  | none => (broker, .ok ())
  | some runtime =>
    let called := call runtime runtime.stored
    ({ broker with views := broker.views.insert name { runtime with stored := called.1 } },
      called.2)

/-! ### Publishing -/

variable (json : ViewJson) (record : PublishRecord)

/-- Apply a record to one view. -/
def applyRecord (runtime : ViewRuntime) :
    Procedure StoredView Unit :=
  if runtime.paused then pure ()
  else match viewUpdate runtime.definition record with
    | none => pure ()
    | some update => do
      let _ ← StoredView.apply json update
      pure ()

def applyMaterializedViews :
    Procedure ViewBroker Unit := do
  let names ← .read (·.views.keys)
  forEach (fun name => onStored name (applyRecord json record)) names

/-- The calls of a publish that stores its record, when all of them but those to the
views succeed. -/
def storedCalls (views : Outcome Unit) : PublishCalls where
  acquireStorage := .ok ()
  appendEnvelope := .ok record
  appendPartitionAppend := .ok ()
  replicatePartition := .ok record
  enforceRetention := .ok ()
  applyClusterPartition := .ok ()
  advanceRetention := .ok ()
  applyRetentionChanges := .ok ()
  applyMaterializedViews := views
  appendProducerSequence := .ok ()
  runAfterCommitMiddleware := .ok ()
  flushPartitionsGrouped := .ok ()
  flushGrouped := .ok ()
  sendProducerAck := .ok ()
  deliverPending := .ok ()
  sendOk := .ok ()

/-- A publish that was admitted, and how it is to be answered. -/
structure Request where
  record : PublishRecord
  producers : ProducerState
  clustered : Bool
  ack : Option ProducerAckRequest
  verbose : Bool
  fingerprint : ℕ

/-- Store a record and apply it to the views. Every other call of the publish succeeds, so
that it can only be refused for its views. -/
def publish (request : Request) : Procedure ViewBroker Unit := fun broker =>
  let applied := applyMaterializedViews json request.record broker
  let answered := (storedCalls request.record applied.2).publishAdmitted request.producers
    request.clustered request.ack request.verbose request.fingerprint
  ({ applied.1 with history := broker.history ++ [request.record] }, answered.2)

/-! ### Opening -/

/-- The updates of the retained records, by partition and offset. -/
def viewHistory (definition : ViewConfig) (retained : List PublishRecord) : List ViewUpdate :=
  let records := retained.filter fun record => record.stream == some definition.sourceStream
  let sorted := records.mergeSort fun first second =>
    decide (toLex (first.partition.getD 0, first.offset.getD 0) ≤
      toLex (second.partition.getD 0, second.offset.getD 0))
  sorted.filterMap (viewUpdate definition)

/-- Open a view with the limits of its definition. -/
def openDefined (name : String) (definition : ViewConfig) :
    Procedure StoredView Unit := fun stored =>
  match openView json definition.tenant name definition.limits stored.files with
  | (files, .ok view) => (⟨view, files⟩, .ok ())
  | (files, .error failure) => (⟨stored.view, files⟩, .error failure)

variable (retained : List PublishRecord)

def recover (name : String)
    (runtime : ViewRuntime) : Procedure StoredView Unit := do
  openDefined json name runtime.definition
  StoredView.applyAll json (viewHistory runtime.definition retained)

/-- Open the broker again on its files and the records it has retained. -/
def reopen : Procedure ViewBroker Unit := do
  .change fun broker => { broker with
    views := broker.views.mapValues fun _ runtime => { runtime with paused := false } }
  let names ← .read (·.views.keys)
  forEach (fun name => onStored name (recover json retained name)) names

/-- A broker with its definitions, before it is opened for the first time. -/
def configured (definitions : OrderedMap String ViewConfig) : ViewBroker where
  views := definitions.mapValues fun name definition =>
    ⟨definition, ⟨⟨definition.tenant, name, definition.limits, ∅, ∅, 0, [], 0⟩, ⟨none, none⟩⟩,
      false⟩
  history := []

end ViewBroker

/-! ### Views with room for given keys -/

/-- A view with this definition takes up the update if there is room for its key. -/
structure ViewConfig.Admits (definition : ViewConfig) (json : ViewJson) (keys : Finset String)
    (update : ViewUpdate) : Prop where
  valid : validateUpdate update definition.maxValueBytes = .ok ()
  listed : update.key ∈ keys
  short : ∀ sequence ≤ u64Max, json.Short ⟨sequence, update⟩

/-- The files of a view with keys among the given ones can be opened. -/
def ViewConfig.Reads (json : ViewJson) (name : String)
    (keys : Finset String) (files : ViewFiles) : Prop :=
  match files.durable with
  | none => ∃ events, files.delta.getD [] = encodeAll json.encodeEvent events ∧
      ∀ event ∈ events, event.sequence ≤ u64Max ∧ definition.Admits json keys event.update
  | some bytes => ∃ durable, bytes = json.durable.toVec durable ∧
      durable.snapshot.tenant = definition.tenant ∧ durable.snapshot.name = name ∧
      durable.snapshot.entries.keys.toFinset ⊆ keys ∧
      ∀ value ∈ durable.snapshot.entries.values, value.length ≤ definition.maxValueBytes

/-- A view of the given definition with keys among the given ones. -/
structure MaterializedView.Lists (definition : ViewConfig) (name : String) (keys : Finset String)
    (view : MaterializedView) : Prop where
  within : view.WithinLimits
  tenant : view.tenant = definition.tenant
  name : view.name = name
  limits : view.limits = definition.limits
  listed : view.entries.keys.toFinset ⊆ keys

/-- Such a view and its files. -/
structure StoredView.Fits (definition : ViewConfig) (json : ViewJson) (name : String)
    (keys : Finset String) (stored : StoredView) : Prop where
  lists : stored.view.Lists definition name keys
  reads : definition.Reads json name keys stored.files

section Views

variable {definition : ViewConfig} {json : ViewJson} {name : String} {keys more : Finset String}
  {update : ViewUpdate}

theorem ViewConfig.Admits.mono (admits : definition.Admits json keys update) (grown : keys ⊆ more) :
    definition.Admits json more update :=
  ⟨admits.valid, grown admits.listed, admits.short⟩

theorem ViewConfig.Reads.mono {files : ViewFiles} (reads : definition.Reads json name keys files)
    (grown : keys ⊆ more) : definition.Reads json name more files := by
  unfold Reads at reads ⊢
  split at reads
  · obtain ⟨events, written, admitted⟩ := reads
    exact ⟨events, written, fun event member =>
      ⟨(admitted event member).1, (admitted event member).2.mono grown⟩⟩
  · obtain ⟨durable, bytes, tenant, same, listed, small⟩ := reads
    exact ⟨durable, bytes, tenant, same, listed.trans grown, small⟩

theorem StoredView.Fits.mono {stored : StoredView} (fits : stored.Fits definition json name keys)
    (grown : keys ⊆ more) : stored.Fits definition json name more :=
  ⟨⟨fits.lists.within, fits.lists.tenant, fits.lists.name, fits.lists.limits,
    fits.lists.listed.trans grown⟩, fits.reads.mono grown⟩

namespace MaterializedView.Lists

variable {view : MaterializedView}

section

variable (lists : view.Lists definition name keys)

include lists

/-- There is room for every key among the given ones. -/
theorem not_full
    (room : keys.card ≤ definition.maxEntries) (listed : update.key ∈ keys) :
    ¬ view.Full update := by
  rintro ⟨-, absent, full⟩
  rw [lists.limits, length_entries] at full
  have missing : update.key ∉ view.entries.keys.toFinset := by
    rw [List.mem_toFinset, mem_keys, ← contains_iff, absent]
    decide
  have inside : insert update.key view.entries.keys.toFinset ⊆ keys :=
    Finset.insert_subset listed lists.listed
  have more := Finset.card_le_card inside
  rw [Finset.card_insert_of_notMem missing] at more
  have limit : definition.maxEntries ≤ view.entries.keys.toFinset.card := full
  omega

theorem put (room : keys.card ≤ definition.maxEntries)
    (admits : definition.Admits json keys update) (sequence : ℕ) (event : ViewEvent) :
    ({ view.put update with lastSequence := sequence }.pushEvent event).Lists
      definition name keys where
  within := by
    have valid : validateUpdate update view.limits.maxValueBytes = .ok () := by
      rw [lists.limits]
      exact admits.valid
    exact lists.within.put valid (lists.not_full room admits.listed) sequence event
  tenant := lists.tenant
  name := lists.name
  limits := lists.limits
  listed := by
    show (view.put update).entries.keys.toFinset ⊆ keys
    unfold MaterializedView.put
    cases update.value with
    | none =>
      rw [toFinset_keys_erase]
      exact (Finset.erase_subset _ _).trans lists.listed
    | some value =>
      rw [toFinset_keys_insert]
      exact Finset.insert_subset admits.listed lists.listed

/-- Admitted events are replayed. -/
theorem replay (room : keys.card ≤ definition.maxEntries)
    {events : List ViewEvent}
    (admitted : ∀ event ∈ events,
      event.sequence ≤ u64Max ∧ definition.Admits json keys event.update) :
    ∃ result, events.foldlM applyReplayed view = .ok result ∧
      result.Lists definition name keys := by
  induction events generalizing view with
  | nil => exact ⟨view, rfl, lists⟩
  | cons event events ih =>
    rw [List.forall_mem_cons] at admitted
    have admits := admitted.1.2
    have valid : validateUpdate event.update view.limits.maxValueBytes = .ok () := by
      rw [lists.limits]
      exact admits.valid
    obtain ⟨result, replayed, listed⟩ := ih
      (lists.put room admits (max view.lastSequence event.sequence) event) admitted.2
    refine ⟨result, ?_, listed⟩
    rw [List.foldlM_cons, applyReplayed, valid]
    exact replayed

end

end MaterializedView.Lists

namespace StoredView

open Procedure

/-- A snapshot of a view with its keys among the given ones can be opened. -/
theorem reads_snapshot {view : MaterializedView} (lists : view.Lists definition name keys)
    (watch : List ViewEvent) :
    definition.Reads json name keys ⟨some (json.durable.toVec ⟨view.snapshot, watch⟩), none⟩ := by
  have small := lists.within.small
  rw [lists.limits] at small
  exact ⟨_, rfl, lists.tenant, lists.name, lists.listed, small⟩

/-- A journal that is continued with an admitted event can be opened. -/
theorem reads_append {files : ViewFiles} (reads : definition.Reads json name keys files)
    {event : ViewEvent} (bounded : event.sequence ≤ u64Max)
    (admits : definition.Admits json keys event.update) :
    definition.Reads json name keys
      { files with delta := some (files.delta.getD [] ++ json.encodeEvent event) } := by
  unfold ViewConfig.Reads at reads ⊢
  split at reads
  · rename_i unsaved
    simp only [unsaved]
    obtain ⟨events, written, admitted⟩ := reads
    refine ⟨events ++ [event], ?_, ?_⟩
    · simp [written, encodeAll_append]
    · exact forall_mem_concat.mpr ⟨admitted, bounded, admits⟩
  · rename_i bytes saved
    simp only [saved]
    exact reads

section

variable (room : keys.card ≤ definition.maxEntries)

include room

/-- Applying an update that is admitted succeeds. -/
theorem fits_apply
    (admits : definition.Admits json keys update) :
    Secures (Fits definition json name keys) (apply json update) := by
  intro stored fits
  have valid : validateUpdate update stored.view.limits.maxValueBytes = .ok () := by
    rw [fits.lists.limits]
    exact admits.valid
  cases newer : stored.view.known? update with
  | some answer =>
    rw [apply_known valid newer]
    exact fits
  | none =>
    have takes : stored.Takes update := ⟨valid, newer, fits.lists.not_full room admits.listed⟩
    rw [takes.apply_eq fits.lists.within.capacity]
    have lists : (stored.view.take update).Lists definition name keys :=
      fits.lists.put room admits _ _
    have within := lists.within
    simp only [updated]
    split
    · exact ⟨⟨⟨within.opens, within.few, within.small, within.recent⟩, lists.tenant, lists.name,
        lists.limits, lists.listed⟩, reads_snapshot lists _⟩
    · exact ⟨⟨⟨within.opens, within.few, within.small, within.recent⟩, lists.tenant, lists.name,
        lists.limits, lists.listed⟩,
        reads_append fits.reads (saturatingSucc_le_max _) admits⟩

/-- Applying updates that are admitted succeeds. -/
theorem fits_applyAll {updates : List ViewUpdate}
    (admitted : ∀ update ∈ updates, definition.Admits json keys update) :
    Secures (Fits definition json name keys) (applyAll json updates) := by
  induction updates with
  | nil => exact Triple.pure fun _ fits => fits
  | cons update updates ih =>
    rw [List.forall_mem_cons] at admitted
    exact (fits_apply room admitted.1).bind fun _ => ih admitted.2

/-- Opening a view that fits succeeds. -/
theorem fits_openDefined :
    Secures (Fits definition json name keys) (ViewBroker.openDefined json name definition) := by
  intro stored fits
  have created : MaterializedView.new definition.tenant name definition.limits =
      .ok ⟨definition.tenant, name, definition.limits, ∅, ∅, 0, [], 0⟩ := by
    have opens := fits.lists.within.opens
    rwa [MaterializedView.blank, fits.lists.tenant, fits.lists.name, fits.lists.limits] at opens
  have reads := fits.reads
  unfold ViewConfig.Reads at reads
  split at reads
  · rename_i unsaved
    obtain ⟨events, written, admitted⟩ := reads
    have blank : (⟨definition.tenant, name, definition.limits, ∅, ∅, 0, [], 0⟩ :
        MaterializedView).Lists definition name keys :=
      ⟨⟨created, Nat.zero_le _, by simp [OrderedMap.values], Nat.zero_le _⟩, rfl, rfl, rfl,
        by simp [OrderedMap.keys]⟩
    obtain ⟨view, replayed, lists⟩ := blank.replay room admitted
    have short : ∀ event ∈ events, json.Short event :=
      fun event member => (admitted event member).2.short _ (admitted event member).1
    simp only [ViewBroker.openDefined, openView_journal created unsaved
      (written.trans (List.append_nil _).symm) (by decide) short replayed]
    exact ⟨lists, fits.reads⟩
  · rename_i bytes saved
    obtain ⟨durable, rfl, tenant, same, listed, small⟩ := reads
    have few : durable.snapshot.entries.entries.length ≤ definition.limits.maxEntries := by
      rw [length_entries]
      exact (Finset.card_le_card listed).trans room
    rw [← tenant, ← same] at created
    have opens := openView_snapshot created few small saved
    rw [tenant, same] at opens created
    simp only [ViewBroker.openDefined, opens]
    have lists : (ofSnapshot definition.limits durable).Lists definition name keys := by
      refine ⟨⟨?_, few, small, ?_⟩, tenant, same, rfl, listed⟩
      · have blank : (ofSnapshot definition.limits durable).blank =
            ⟨definition.tenant, name, definition.limits, ∅, ∅, 0, [], 0⟩ := by
          rw [← tenant, ← same]
          rfl
        rw [blank, ← created, ← tenant, ← same]
        rfl
      · exact List.length_take_le _ _
    exact ⟨lists, reads_snapshot lists []⟩

end

end StoredView

/-! ### The records a view has room for -/

/-- The keys that records give a view. -/
def ViewConfig.keysOf (definition : ViewConfig) (records : List PublishRecord) : Finset String :=
  ((records.filterMap (viewUpdate definition)).map (·.key)).toFinset

/-- The records change a view in valid ways only, and give it not more keys than it has
room for. -/
structure ViewConfig.HasRoom (definition : ViewConfig) (json : ViewJson)
    (records : List PublishRecord) : Prop where
  valid : ∀ update ∈ records.filterMap (viewUpdate definition),
    validateUpdate update definition.maxValueBytes = .ok ()
  short : ∀ update ∈ records.filterMap (viewUpdate definition),
    ∀ sequence ≤ u64Max, json.Short ⟨sequence, update⟩
  few : (definition.keysOf records).card ≤ definition.maxEntries

namespace ViewConfig

variable {records : List PublishRecord}

theorem HasRoom.admits (room : definition.HasRoom json records)
    (member : update ∈ records.filterMap (viewUpdate definition)) :
    definition.Admits json (definition.keysOf records) update :=
  ⟨room.valid update member, List.mem_toFinset.mpr (List.mem_map_of_mem member),
    room.short update member⟩

variable (definition : ViewConfig)

theorem keysOf_subset_append (records later : List PublishRecord) :
    definition.keysOf records ⊆ definition.keysOf (records ++ later) := by
  intro key member
  simp only [keysOf, List.filterMap_append, List.map_append, List.mem_toFinset,
    List.mem_append] at member ⊢
  exact .inl member

/-- No record needs no room. -/
theorem hasRoom_nil (json : ViewJson) :
    definition.HasRoom json [] where
  valid := by simp
  short := by simp
  few := by simp [keysOf]

end ViewConfig

namespace ViewBroker

open Procedure StoredView

variable {records : List PublishRecord}

/-- Every view has room for the records, and its keys are among theirs. -/
def Fits (json : ViewJson) (records : List PublishRecord) (broker : ViewBroker) : Prop :=
  ∀ name runtime, broker.views.get? name = some runtime →
    runtime.definition.HasRoom json records ∧
      runtime.stored.Fits runtime.definition json name (runtime.definition.keysOf records)

/-- A call that succeeds on every view that fits succeeds on one view of the broker. -/
theorem fits_onStored {call : ViewRuntime → Procedure StoredView Unit}
    (called : ∀ runtime, runtime.definition.HasRoom json records →
      Secures (StoredView.Fits runtime.definition json name (runtime.definition.keysOf records))
        (call runtime)) : Secures (Fits json records) (onStored name call) := by
  intro broker fits
  unfold onStored
  cases found : broker.views.get? name with
  | none => exact fits
  | some runtime =>
    obtain ⟨room, stored⟩ := fits name runtime found
    have ended := called runtime room runtime.stored stored
    dsimp only
    cases done : call runtime runtime.stored with
    | mk changed outcome =>
      rw [done] at ended
      cases outcome with
      | error failure => exact ended
      | ok value =>
        intro other otherRuntime present
        rcases get?_insert_eq_some.mp present with ⟨rfl, rfl⟩ | ⟨-, old⟩
        · exact ⟨room, ended⟩
        · exact fits other otherRuntime old

theorem fits_forEach {call : String → Procedure ViewBroker Unit} {names : List String}
    (called : ∀ name, Secures (Fits json records) (call name)) :
    Secures (Fits json records) (forEach call names) := by
  induction names with
  | nil => exact Triple.pure fun _ fits => fits
  | cons name names ih => exact (called name).bind fun _ => ih

variable {record : PublishRecord}

/-- A record among those there is room for is applied to all views. -/
theorem fits_applyMaterializedViews (json : ViewJson) (member : record ∈ records) :
    Secures (Fits json records) (applyMaterializedViews json record) := by
  apply Triple.read_bind
  intro names
  refine Triple.strengthen (fits_forEach fun name => fits_onStored fun runtime room => ?_)
    fun _ held => held.1
  unfold applyRecord
  split
  · exact Triple.pure fun _ fits => fits
  · split
    · exact Triple.pure fun _ fits => fits
    · rename_i update changes
      have admits := room.admits (List.mem_filterMap.mpr ⟨record, member, changes⟩)
      exact (StoredView.fits_apply room.few admits).bind fun _ => Triple.pure fun _ fits => fits

/-- The broker is opened on records among those there is room for. -/
theorem fits_reopen (json : ViewJson) {retained : List PublishRecord}
    (stored : retained ⊆ records) :
    Secures (Fits json records) (reopen json retained) := by
  apply Triple.change_bind (Fits json records)
  · intro broker fits name runtime present
    rw [get?_mapValues, Option.map_eq_some_iff] at present
    obtain ⟨before, found, rfl⟩ := present
    exact fits name before found
  · apply Triple.read_bind
    intro names
    refine Triple.strengthen (fits_forEach fun name => fits_onStored fun runtime room => ?_)
      fun _ held => held.1
    refine (StoredView.fits_openDefined room.few).bind fun _ =>
      StoredView.fits_applyAll room.few fun update member => room.admits ?_
    obtain ⟨record, sorted, changes⟩ := List.mem_filterMap.mp member
    have kept := (List.mem_filter.mp (List.mem_mergeSort.mp sorted)).1
    exact List.mem_filterMap.mpr ⟨record, stored kept, changes⟩

/-! ### Runs of a broker -/

inductive Action
  | publish (request : Request)
  | reopen (retained : List PublishRecord)

def perform (json : ViewJson) : Action → Procedure ViewBroker Unit
  | .publish request => publish json request
  | .reopen retained => reopen json retained

def next (json : ViewJson) (broker : ViewBroker) (action : Action) : ViewBroker :=
  (perform json action broker).1

/-- A broker is opened on records that it has stored. -/
def Occurs (broker : ViewBroker) : Action → Prop
  | .publish _ => True
  | .reopen retained => retained ⊆ broker.history

/-- In every run of a broker whose views could be created, no publish that is stored and
whose other calls succeed is refused, and the broker can be opened again. -/
def LimitsHarmless (guard : ViewJson → ViewBroker → Action → Prop) : Prop :=
  ∀ json (definitions : OrderedMap String ViewConfig),
    (∀ name definition, definitions.get? name = some definition →
      ∃ view, MaterializedView.new definition.tenant name definition.limits = .ok view) →
    ∀ broker, GuardedRuns.Reaches (next json) (guard json) (configured definitions) broker →
      ∀ action, guard json broker action → (perform json action broker).2 = .ok ()

/-- Every view has room for the records stored before, and for the one to be stored. -/
def LeavesRoom (json : ViewJson) (broker : ViewBroker) : Action → Prop
  | .publish request => ∀ name runtime, broker.views.get? name = some runtime →
      runtime.definition.HasRoom json (broker.history ++ [request.record])
  | .reopen _ => True

section Stored

variable (record : PublishRecord) (views : Outcome Unit)

variable (producers : ProducerState)

theorem recordSequence_stored (producer : Option ProducerSequence) (fingerprint : ℕ)
    (stored : PublishRecord) :
    ((storedCalls record views).recordSequence producers producer fingerprint stored).2 =
      .ok () := by
  cases producer with
  | none => rfl
  | some sequence => rfl

variable (ack : Option ProducerAckRequest)

theorem answer_stored (verbose : Bool) :
    (storedCalls record views).answer ack verbose = .ok () := by
  unfold PublishCalls.answer
  split <;> split <;> rfl

theorem publishAdmitted_of_store {clustered : Bool}
    (verbose : Bool) (fingerprint : ℕ)
    (stored : (storedCalls record views).store clustered = .ok record) :
    ((storedCalls record views).publishAdmitted producers clustered ack verbose fingerprint).2 =
      (storedCalls record views).announce clustered ack verbose := by
  have sequenced := recordSequence_stored record views producers (ack.bind (·.producer))
    fingerprint record
  simp only [PublishCalls.publishAdmitted, stored]
  split
  · rename_i failed
    rw [failed] at sequenced
    cases sequenced
  · rfl

/-- A stored record is answered as the views answer it. -/
theorem publishAdmitted_stored (clustered : Bool) (ack : Option ProducerAckRequest) (verbose : Bool)
    (fingerprint : ℕ) :
    ((storedCalls record views).publishAdmitted producers clustered ack verbose fingerprint).2 =
      views := by
  have answered := answer_stored record views ack verbose
  cases clustered with
  | false =>
    rw [publishAdmitted_of_store record views producers ack verbose fingerprint rfl]
    cases views with
    | error failure => rfl
    | ok _ =>
      show (storedCalls record (.ok ())).announceStandalone ack verbose = .ok ()
      unfold PublishCalls.announceStandalone
      rw [answered]
      split <;> rfl
  | true =>
    cases views with
    | error failure => rfl
    | ok _ =>
      rw [publishAdmitted_of_store record _ producers ack verbose fingerprint rfl]
      exact answered

end Stored

/-- A stored record is answered as the views answer it. -/
theorem publish_eq (request : Request) (broker : ViewBroker) :
    publish json request broker =
      ({ (applyMaterializedViews json request.record broker).1 with
        history := broker.history ++ [request.record] },
        (applyMaterializedViews json request.record broker).2) := by
  rw [publish, publishAdmitted_stored]

variable {history : List PublishRecord}

theorem keeps_history_forEach (call : String → ViewRuntime → Procedure StoredView Unit)
    (names : List String) :
    Keeps (fun broker => broker.history = history)
      (forEach (fun name => onStored name (call name)) names) := by
  induction names with
  | nil => exact Keeps.pure ()
  | cons name names ih =>
    refine Keeps.bind (fun broker held => ?_) fun _ => ih
    simp only [onStored]
    split <;> exact held

theorem reopen_history (json : ViewJson) (retained : List PublishRecord) (broker : ViewBroker) :
    (reopen json retained broker).1.history = broker.history := by
  have kept : Keeps (fun opened : ViewBroker => opened.history = broker.history)
      (reopen json retained) := by
    refine Keeps.bind (Keeps.change fun opened held => held) fun _ => ?_
    exact Keeps.bind (Keeps.read _) fun names => keeps_history_forEach (recover json retained) names
  exact kept broker rfl

/-- There is room in every view that was just created. -/
theorem fits_configured {definitions : OrderedMap String ViewConfig}
    (created : ∀ name definition, definitions.get? name = some definition →
      ∃ view, MaterializedView.new definition.tenant name definition.limits = .ok view) :
    (configured definitions).Fits json (configured definitions).history := by
  intro name runtime present
  rw [configured, get?_mapValues, Option.map_eq_some_iff] at present
  obtain ⟨definition, found, rfl⟩ := present
  obtain ⟨view, opens⟩ := created name definition found
  obtain ⟨rfl, -⟩ := MaterializedView.new_ok opens
  refine ⟨definition.hasRoom_nil json, ⟨⟨opens, Nat.zero_le _, ?_, Nat.zero_le _⟩, rfl, rfl, rfl,
    ?_⟩, [], rfl, by simp⟩
  · simp [OrderedMap.values]
  · simp [OrderedMap.keys]

/-- A broker with room for its records has room for one more when all its views have. -/
theorem Fits.grow {broker : ViewBroker} (fits : broker.Fits json records)
    (room : ∀ name runtime, broker.views.get? name = some runtime →
      runtime.definition.HasRoom json (records ++ [record])) :
    broker.Fits json (records ++ [record]) := fun name runtime present =>
  ⟨room name runtime present,
    (fits name runtime present).2.mono (runtime.definition.keysOf_subset_append _ _)⟩

/-- A call that leaves room succeeds, and there is room afterwards. -/
theorem Fits.perform {broker : ViewBroker} (fits : broker.Fits json broker.history)
    {action : Action} (occurs : broker.Occurs action) (room : broker.LeavesRoom json action) :
    (broker.next json action).Fits json (broker.next json action).history ∧
      (ViewBroker.perform json action broker).2 = .ok () := by
  cases action with
  | publish request =>
    have member : request.record ∈ broker.history ++ [request.record] :=
      List.mem_append_right _ (List.mem_singleton_self _)
    obtain ⟨after, _, answered⟩ :=
      (fits_applyMaterializedViews json member).ends (fits.grow room)
    simp only [ViewBroker.perform, publish_eq]
    exact ⟨after, answered⟩
  | reopen retained =>
    obtain ⟨after, _, answered⟩ := (fits_reopen json occurs).ends fits
    simp only [next, ViewBroker.perform, reopen_history]
    exact ⟨after, answered⟩

/-- In runs that leave room in every view, the limits do no harm. -/
theorem limitsHarmless_of_room (json : ViewJson) {definitions : OrderedMap String ViewConfig}
    (created : ∀ name definition, definitions.get? name = some definition →
      ∃ view, MaterializedView.new definition.tenant name definition.limits = .ok view)
    {broker : ViewBroker}
    (run : GuardedRuns.Reaches (next json)
      (fun broker action => broker.Occurs action ∧ broker.LeavesRoom json action)
      (configured definitions) broker) {action : Action}
    (admitted : broker.Occurs action ∧ broker.LeavesRoom json action) :
    (perform json action broker).2 = .ok () := by
  have fits : broker.Fits json broker.history := by
    apply run.invariant (fun reached => reached.Fits json reached.history)
    · exact fun before action admitted held => (held.perform admitted.1 admitted.2).1
    · exact fits_configured created
  exact (fits.perform admitted.1 admitted.2).2

/-! ### A second key in a view for one -/

/-- A view with room for one entry. -/
def narrowView : ViewConfig := ⟨"default", "orders", none, none, 1, 8, 1⟩

variable (subject : String) (offset : ℕ)

/-- The record of an order, with the offset it was stored at. -/
def orderRecord : PublishRecord :=
  ⟨offset + 1, "default", some "orders", some 0, some offset, subject, none, [], 0, none, [1], 0, 0⟩

def orderRequest : Request :=
  ⟨orderRecord subject offset, .empty, false, none, false, 0⟩

theorem narrowView_created (name : String) (definition : ViewConfig)
    (found : ((∅ : OrderedMap String ViewConfig).insert "orders" narrowView).get? name =
      some definition) :
    ∃ view, MaterializedView.new definition.tenant name definition.limits = .ok view := by
  rcases get?_insert_eq_some.mp found with ⟨rfl, rfl⟩ | ⟨-, absent⟩
  · exact ⟨StoredView.smallView, by decide⟩
  · cases absent

/-- A view for one entry has room for the records of one order. -/
theorem hasRoom_order {records : List PublishRecord}
    (order : records.filterMap (viewUpdate narrowView) =
      [orderUpdate "orders.a" 0, orderUpdate "orders.a" 1].take records.length) :
    narrowView.HasRoom ordersJson records := by
  have known : ∀ update ∈ records.filterMap (viewUpdate narrowView), update.key = "orders.a" ∧
      validateUpdate update 8 = .ok () ∧ update ∈ knownUpdates.map Prod.fst := by
    rw [order]
    intro update member
    replace member := List.mem_of_mem_take member
    revert update
    decide +kernel
  refine ⟨fun update member => (known update member).2.1, fun update member sequence bounded =>
    ordersJson_short (known update member).2.2 bounded, ?_⟩
  have single : narrowView.keysOf records ⊆ {"orders.a"} := by
    intro key member
    obtain ⟨update, among, rfl⟩ := List.mem_map.mp (List.mem_toFinset.mp member)
    exact Finset.mem_singleton.mpr (known update among).1
  exact Finset.card_le_card single

/-- An order is updated before and after the broker is opened again. -/
theorem limitsHarmless_reopened :
    (perform ordersJson (.publish (orderRequest "orders.a" 1))
      ([Action.publish (orderRequest "orders.a" 0), .reopen [orderRecord "orders.a" 0]].foldl
        (next ordersJson)
        (configured ((∅ : OrderedMap String ViewConfig).insert "orders" narrowView)))).2 =
      .ok () := by
  have room : ∀ (broker : ViewBroker) request,
      (∀ runtime ∈ broker.views.values, runtime.definition = narrowView) →
      narrowView.HasRoom ordersJson (broker.history ++ [request.record]) →
        broker.LeavesRoom ordersJson (.publish request) := by
    intro broker request same hasRoom name runtime found
    rw [same runtime (mem_values.mpr ⟨name, found⟩)]
    exact hasRoom
  refine limitsHarmless_of_room ordersJson narrowView_created
    (.step (.publish (orderRequest "orders.a" 0))
      ⟨trivial, room _ _ (by decide +kernel) (hasRoom_order (by decide +kernel))⟩
      (.step (.reopen [orderRecord "orders.a" 0]) ⟨List.Subset.refl _, trivial⟩ (.refl _)))
    ⟨trivial, room _ _ (by decide +kernel) (hasRoom_order (by decide +kernel))⟩

/-- A view has room for one entry, and the record of another order is stored. -/
theorem second_order_refused : ¬ LimitsHarmless fun _ broker action => broker.Occurs action := by
  intro harmless
  have refused := harmless ordersJson _ narrowView_created _
    (.step (.publish (orderRequest "orders.a" 0)) trivial (.refl _))
    (.publish (orderRequest "orders.b" 1)) trivial
  exact absurd refused (by decide +kernel)

end ViewBroker

end Views

end Morrow
