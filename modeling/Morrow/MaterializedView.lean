import Morrow.Procedure
import Morrow.WalRecord

/-!
# Materialized views

A view keeps the latest value of every key of a stream, the position it has reached in
every partition, and its most recent changes for watchers. It lives in two files: a
snapshot, which is rewritten as a whole, and a journal of the changes since. Writing the
snapshot removes the journal.

Opening a view restores the snapshot and then replays the journal. The files are byte
strings here, and writing them succeeds; the JSON library is a parameter that reads back
what it wrote.
-/

namespace Morrow

open ByteCodec FramedLog

structure ViewPosition where
  stream : String
  partition : ℕ
  offset : ℕ
deriving DecidableEq

structure ViewUpdate where
  key : String
  value : Option Bytes
  position : ViewPosition
deriving DecidableEq

structure ViewEvent where
  sequence : ℕ
  update : ViewUpdate
deriving DecidableEq

structure ViewSnapshot where
  tenant : String
  name : String
  entries : OrderedMap String Bytes
  positions : OrderedMap String ℕ
  lastSequence : ℕ
deriving DecidableEq

structure ViewLimits where
  maxEntries : ℕ
  maxValueBytes : ℕ
  watchCapacity : ℕ
deriving DecidableEq

structure DurableView where
  snapshot : ViewSnapshot
  watch : List ViewEvent
deriving DecidableEq

/-- The JSON library, as far as views use it. -/
structure ViewJson where
  durable : Json DurableView
  event : Json ViewEvent
  durable_roundTrips : ∀ value, durable.RoundTrips value
  event_roundTrips : ∀ value, event.RoundTrips value

structure MaterializedView where
  tenant : String
  name : String
  limits : ViewLimits
  entries : OrderedMap String Bytes
  positions : OrderedMap String ℕ
  lastSequence : ℕ
  watch : List ViewEvent
  updatesSinceCheckpoint : ℕ
deriving DecidableEq

/-- The snapshot and the journal, if they exist. -/
structure ViewFiles where
  durable : Option Bytes
  delta : Option Bytes
deriving DecidableEq

/-- A view and its files. -/
structure StoredView where
  view : MaterializedView
  files : ViewFiles
deriving DecidableEq

/-! ### Checks -/

def viewCheckpointInterval : ℕ := 64

/-- A letter, a digit, or one of `_`, `-` and `.`. -/
def isIdentityByte (byte : UInt8) : Bool :=
  (48 ≤ byte ∧ byte ≤ 57) ∨ (65 ≤ byte ∧ byte ≤ 90) ∨ (97 ≤ byte ∧ byte ≤ 122) ∨
    byte = 95 ∨ byte = 45 ∨ byte = 46

def validateIdentity (value field : String) : Outcome Unit :=
  ensure (value ≠ "" ∧ (utf8 value).length ≤ 128 ∧ (utf8 value).all isIdentityByte)
    ("invalid view " ++ field)

def validateLimits (limits : ViewLimits) : Outcome Unit :=
  ensure (0 < limits.maxEntries ∧ 0 < limits.maxValueBytes ∧ 0 < limits.watchCapacity)
    "materialized view limits must be positive"

def validateUpdate (update : ViewUpdate) (maxValueBytes : ℕ) : Outcome Unit := do
  ensure (update.key ≠ "" ∧ (utf8 update.key).length ≤ 512) "invalid materialized view key"
  ensure (update.value.all fun value => value.length ≤ maxValueBytes)
    "materialized view value exceeds quota"

/-- Partition numbers are written with ten digits. -/
def positionKey (position : ViewPosition) : String :=
  let digits := toString position.partition
  position.stream ++ ":" ++ String.ofList (List.replicate (10 - digits.length) '0') ++ digits

namespace MaterializedView

/-- A view without contents. -/
def new (tenant name : String) (limits : ViewLimits) : Outcome MaterializedView := do
  validateIdentity tenant "tenant"
  validateIdentity name "view"
  validateLimits limits
  pure ⟨tenant, name, limits, ∅, ∅, 0, [], 0⟩

variable (view : MaterializedView)

def snapshot : ViewSnapshot :=
  ⟨view.tenant, view.name, view.entries, view.positions, view.lastSequence⟩

/-! ### Changing a view -/

variable (update : ViewUpdate)

/-- The answer to an update that is not newer than the position of its partition. -/
def known? : Option Bool :=
  match view.positions.get? (positionKey update.position) with
  | none => none
  | some current =>
    if update.position.offset < current then some false
    else if update.position.offset = current then
      some (match view.entries.get? update.key with
        | some value => update.value = some value
        | none => update.value.isNone)
    else none

/-- The update needs a new entry, and there is no room for it. -/
def Full : Prop :=
  update.value.isSome ∧ view.entries.contains update.key = false ∧
    view.limits.maxEntries ≤ view.entries.entries.length

instance (view : MaterializedView) (update : ViewUpdate) : Decidable (view.Full update) :=
  inferInstanceAs (Decidable (_ ∧ _ ∧ _))

/-- Keep an event for watchers; the oldest ones make room. -/
def pushEvent (event : ViewEvent) (view : MaterializedView) : MaterializedView :=
  let watch := view.watch ++ [event]
  { view with watch := watch.drop (watch.length - view.limits.watchCapacity) }

/-- Change the entry and the position. -/
def put (view : MaterializedView) : MaterializedView :=
  { view with
    entries := match update.value with
      | some value => view.entries.insert update.key value
      | none => view.entries.erase update.key
    positions := view.positions.insert (positionKey update.position) update.position.offset }

/-- The event of the next update. -/
def nextEvent : ViewEvent :=
  ⟨saturatingSucc view.lastSequence, update⟩

/-- Take up an update. -/
def take (view : MaterializedView) : MaterializedView :=
  let changed := { view.put update with lastSequence := saturatingSucc view.lastSequence }
  changed.pushEvent (view.nextEvent update)

/-- Take up an event of the journal. -/
def applyReplayed (event : ViewEvent) : Outcome MaterializedView := do
  validateUpdate event.update view.limits.maxValueBytes
  let changed := { view.put event.update with lastSequence := max view.lastSequence event.sequence }
  pure (changed.pushEvent event)

end MaterializedView

/-! ### The files -/

namespace StoredView

def onView (change : MaterializedView → MaterializedView) (stored : StoredView) : StoredView :=
  { stored with view := change stored.view }

variable (json : ViewJson)

/-- Rewrite the snapshot; the journal is not needed any more. -/
def persist : Procedure StoredView Unit :=
  .change fun stored => { stored with
    files := ⟨some (json.durable.toVec ⟨stored.view.snapshot, stored.view.watch⟩), none⟩ }

/-- Journal the last event. The length is cut to four bytes. -/
def appendDelta : Procedure StoredView Unit := do
  let last ← .read (·.view.watch.getLast?)
  match last with
  | none => .await (.error .panicked)
  | some event => .change fun stored => { stored with files := { stored.files with
      delta := some (stored.files.delta.getD [] ++ frame (json.event.toVec event)) } }

/-- Every so many updates the snapshot is rewritten. -/
def countUpdate : Procedure StoredView Unit := do
  .change (onView fun view =>
    { view with updatesSinceCheckpoint := saturatingSucc view.updatesSinceCheckpoint })
  let updates ← .read (·.view.updatesSinceCheckpoint)
  if viewCheckpointInterval ≤ updates then do
    persist json
    .change (onView fun view => { view with updatesSinceCheckpoint := 0 })
  else pure ()

/-- Apply an update. The answer tells whether the view agrees with it. -/
def apply (update : ViewUpdate) : Procedure StoredView Bool := do
  let limits ← .read (·.view.limits)
  .await (validateUpdate update limits.maxValueBytes)
  let known ← .read (·.view.known? update)
  match known with
  | some answer => pure answer
  | none => do
    let full ← .read fun stored => decide (stored.view.Full update)
    .await (ensure (full = false) "materialized view entry quota exceeded")
    .change (onView (·.take update))
    appendDelta json
    countUpdate json
    pure true

/-- Apply updates one after the other. -/
def applyAll (json : ViewJson) : List ViewUpdate → Procedure StoredView Unit
  | [] => pure ()
  | update :: updates => do
    let _ ← apply json update
    applyAll json updates

variable (history : List ViewUpdate)

/-- Updates are ordered by stream, partition and offset. -/
def orderedHistory : List ViewUpdate :=
  history.mergeSort fun first second =>
    decide (toLex (first.position.stream, toLex (first.position.partition, first.position.offset)) ≤
      toLex (second.position.stream, toLex (second.position.partition, second.position.offset)))

/-- Forget the contents of a view, and build it from a history. -/
def rebuild : Procedure StoredView Unit := do
  .change (onView fun view =>
    { view with entries := ∅, positions := ∅, lastSequence := 0, watch := [] })
  applyAll json (orderedHistory history)

/-- Replace the contents of a view, except for its events. -/
def restoreSnapshot (snapshot : ViewSnapshot) : Procedure StoredView Unit := do
  let view ← .read (·.view)
  .await (ensure (snapshot.tenant = view.tenant) "view snapshot tenant mismatch")
  .await (ensure (snapshot.name = view.name) "view snapshot name mismatch")
  .await (ensure (snapshot.entries.entries.length ≤ view.limits.maxEntries)
    "view snapshot exceeds entry quota")
  .await (ensure (∀ value ∈ snapshot.entries.values, value.length ≤ view.limits.maxValueBytes)
    "view snapshot exceeds value quota")
  .change (onView fun view =>
    { view with
      entries := snapshot.entries
      positions := snapshot.positions
      lastSequence := snapshot.lastSequence })
  persist json

end StoredView

/-! ### Opening -/

/-- Read one framed event of the journal. -/
def readDelta (file : Bytes) : ReadStep Bytes :=
  if file.length < 4 then .ended
  else
    let length := fromLittleEndian (file.take 4)
    if file.length < 8 + length then .torn
    else
      let body := (file.drop 8).take length
      if crc32 body ≠ fromLittleEndian ((file.drop 4).take 4) then
        .corrupt "materialized view delta checksum mismatch"
      else .record body (8 + length)

variable (json : ViewJson)

/-- Decode an event of the journal and take it up. -/
def applyDelta (view : MaterializedView) (body : Bytes) :
    Outcome MaterializedView := do
  let event ← withContext "decoding materialized view delta" (json.event.fromSlice body)
  view.applyReplayed event

/-- Replay a journal. A torn one is refused. -/
def replayDeltas (file : Bytes) (view : MaterializedView) :
    Outcome MaterializedView := do
  let scanned ← scan readDelta (fun message => .error message) (applyDelta json)
    (file.length + 1) file 0 view
  ensure (scanned.torn = false) "failed to fill whole buffer"
  pure scanned.state

namespace StoredView

def replayJournal (json : ViewJson) : Procedure StoredView Unit := do
  let stored ← .read id
  match stored.files.delta with
  | none => pure ()
  | some file => do
    let view ← .await (replayDeltas json file stored.view)
    .change (onView fun _ => view)

/-- Restore the snapshot, if there is one. -/
def loadSnapshot (json : ViewJson) : Procedure StoredView Unit := do
  let file ← .read (·.files.durable)
  match file with
  | none => pure ()
  | some bytes => do
    let durable ← .await (withContext "decoding materialized view" (json.durable.fromSlice bytes))
    restoreSnapshot json durable.snapshot
    .change (onView fun view =>
      { view with watch := durable.watch.take view.limits.watchCapacity })

end StoredView

/-- Open a view on its files. -/
def openView (tenant name : String) (limits : ViewLimits) (files : ViewFiles) :
    ViewFiles × Outcome MaterializedView :=
  match MaterializedView.new tenant name limits with
  | .error failure => (files, .error failure)
  | .ok view =>
    let opened := (do
      StoredView.loadSnapshot json
      StoredView.replayJournal json : Procedure StoredView Unit) ⟨view, files⟩
    (opened.1.files, opened.2.map fun _ => opened.1.view)

end Morrow
