import Morrow.Frames
import Morrow.GuardedRuns
import Morrow.MaterializedView

/-!
# Views across restarts

A view that is opened again should be what it was. As long as there is no snapshot this
is so: the journal holds every change since the view was created. It is also so directly
after a snapshot has been written.

Otherwise it is not. Opening restores the snapshot with the call that also serves to
replace the contents of a view, and that call writes the snapshot again and removes the
journal, before the journal is read. Every change since the last snapshot is lost, and
so are the events, which are read only after the snapshot has been written without them:
the next time the view is opened there are none. Rebuilding a view forgets what it holds
in memory, but nothing of what its files hold.
-/

namespace Morrow

open ByteCodec FramedLog OrderedMap Procedure List Option

/-! ### The journal -/

/-- A framed event is read back, whatever follows it. -/
theorem readDelta_frame {body : Bytes} (short : body.length < 2 ^ 32) (rest : Bytes) :
    readDelta (frame body ++ rest) = .record body (frame body).length := by
  have length : (frame body ++ rest).length = 8 + body.length + rest.length := by
    simp [batchPrefixLen]
  have some : ¬ (frame body ++ rest).length < 4 := by omega
  have whole : ¬ (frame body ++ rest).length < 8 + body.length := by omega
  have contents : ((frame body ++ rest).drop 8).take body.length = body := frame_contents body rest
  simp only [readDelta, if_neg some, frame_bodyLen short rest, if_neg whole, contents,
    frame_checksum, ne_eq, not_true_eq_false, if_false, frame_length, batchPrefixLen]

namespace ViewJson

variable (json : ViewJson) (event : ViewEvent)

/-- The event's length fits its four bytes. -/
def Short : Prop := (json.event.toVec event).length < 2 ^ 32

/-- The bytes of an event in the journal. -/
def encodeEvent : Bytes := frame (json.event.toVec event)

theorem encodeEvent_ne_nil : json.encodeEvent event ≠ [] := by
  apply length_pos_iff.mp
  rw [encodeEvent, frame_length, batchPrefixLen]
  omega

variable {events : List ViewEvent}

/-- Only a journal without events is empty. -/
theorem events_nil (empty : encodeAll json.encodeEvent events = []) : events = [] := by
  cases events with
  | nil => rfl
  | cons event events =>
    exact absurd (append_eq_nil_iff.mp empty).1 (json.encodeEvent_ne_nil event)

/-- A journal is replayed event by event, until less than a length is left. -/
theorem replayDeltas_events (short : ∀ event ∈ events, json.Short event)
    {view result : MaterializedView}
    (replayed : events.foldlM MaterializedView.applyReplayed view = .ok result) {rest : Bytes}
    (ended : rest.length < 4) :
    replayDeltas json (encodeAll json.encodeEvent events ++ rest) view = .ok result := by
  have decoded : events.foldlM (fun view event => applyDelta json view (json.event.toVec event))
      view = .ok result := by
    rw [← replayed]
    congr 1
    funext view event
    have trips : json.event.fromSlice (json.event.toVec event) = .ok event :=
      json.event_roundTrips event
    simp [applyDelta, trips]
  have fewer := length_le_encodeAll json.encodeEvent_ne_nil events
  obtain ⟨further, bound⟩ : ∃ further,
      (encodeAll json.encodeEvent events ++ rest).length + 1 = events.length + (further + 1) :=
    ⟨(encodeAll json.encodeEvent events ++ rest).length - events.length, by
      rw [length_append]
      omega⟩
  have stops : readDelta rest = .ended := if_pos ended
  have scanned : scan readDelta .error (applyDelta json)
      (events.length + (further + 1)) (encodeAll json.encodeEvent events ++ rest) 0 view =
        .ok ⟨result, 0 + (encodeAll json.encodeEvent events).length, false⟩ := by
    refine (scan_foldlM (fun event member rest => readDelta_frame (short event member) rest)
      (further + 1) rest 0 decoded).trans ?_
    rw [scan, stops]
    rfl
  simp only [replayDeltas, bound, scanned]
  rfl

end ViewJson

/-! ### Contents -/

namespace MaterializedView

/-- What a restart should keep. -/
structure SameContents (first second : MaterializedView) : Prop where
  entries : first.entries = second.entries
  positions : first.positions = second.positions
  lastSequence : first.lastSequence = second.lastSequence
  watch : first.watch = second.watch

variable (view : MaterializedView)

/-- The view with no updates counted. -/
def uncounted : MaterializedView :=
  { view with updatesSinceCheckpoint := 0 }

/-- The view as it was created. -/
def blank : MaterializedView :=
  ⟨view.tenant, view.name, view.limits, ∅, ∅, 0, [], 0⟩

/-- The view's name and limits can be used to open it again. -/
def Creates : Prop :=
  new view.tenant view.name view.limits = .ok view.blank

/-- The view's name and limits can be used to open it again, and it is within its
limits. -/
structure WithinLimits (view : MaterializedView) : Prop where
  opens : new view.tenant view.name view.limits = .ok view.blank
  few : view.entries.entries.length ≤ view.limits.maxEntries
  small : ∀ value ∈ view.entries.values, value.length ≤ view.limits.maxValueBytes
  recent : view.watch.length ≤ view.limits.watchCapacity

variable {view : MaterializedView}

theorem new_ok {tenant name : String} {limits : ViewLimits}
    (opened : new tenant name limits = .ok view) :
    view = ⟨tenant, name, limits, ∅, ∅, 0, [], 0⟩ ∧ 0 < limits.watchCapacity := by
  simp only [new, bind_eq_ok, validateLimits, ensure_eq_ok] at opened
  obtain ⟨-, -, -, -, -, positive, same⟩ := opened
  exact ⟨(Except.ok.inj same).symm, positive.2.2⟩

theorem WithinLimits.capacity (within : view.WithinLimits) :
    0 < view.limits.watchCapacity := (new_ok within.opens).2

theorem pushEvent_watch_length (event : ViewEvent) (view : MaterializedView) :
    (view.pushEvent event).watch.length ≤ view.limits.watchCapacity := by
  simp only [pushEvent, length_drop]
  omega

/-- The event that was kept last is there. -/
theorem getLast?_pushEvent (event : ViewEvent) (positive : 0 < view.limits.watchCapacity) :
    (view.pushEvent event).watch.getLast? = some event := by
  simp only [pushEvent]
  rw [getLast?_drop, if_neg (by simp only [length_append, length_singleton]; omega),
    getLast?_concat]

variable {update : ViewUpdate}

/-- What a valid update says about its value. -/
theorem value_small {maxValueBytes : ℕ} (valid : validateUpdate update maxValueBytes = .ok ())
    {value : Bytes} (given : update.value = some value) : value.length ≤ maxValueBytes := by
  simp only [validateUpdate, bind_eq_ok, ensure_eq_ok, given, all_some,
    decide_eq_true_eq] at valid
  obtain ⟨-, -, small⟩ := valid
  exact small

/-- An update that there is room for keeps a view within its limits, whatever event is
kept of it. -/
theorem WithinLimits.put (within : view.WithinLimits)
    (valid : validateUpdate update view.limits.maxValueBytes = .ok ()) (room : ¬ view.Full update)
    (sequence : ℕ) (event : ViewEvent) :
    ({ view.put update with lastSequence := sequence }.pushEvent event).WithinLimits where
  opens := within.opens
  few := by
    show (view.put update).entries.entries.length ≤ view.limits.maxEntries
    have few := within.few
    rw [length_entries] at few ⊢
    cases given : update.value with
    | none =>
      simp only [MaterializedView.put, given, toFinset_keys_erase]
      exact le_trans (Finset.card_erase_le) few
    | some value =>
      simp only [MaterializedView.put, given, toFinset_keys_insert]
      by_cases present : view.entries.contains update.key = true
      · have member : update.key ∈ view.entries.keys.toFinset := by
          rw [List.mem_toFinset, OrderedMap.mem_keys]
          exact contains_iff.mp present
        rwa [Finset.insert_eq_of_mem member]
      · have below : view.entries.entries.length < view.limits.maxEntries := by
          by_contra full
          exact room ⟨by rw [given]; rfl, by simpa using present, not_lt.mp full⟩
        rw [length_entries] at below
        exact le_trans (Finset.card_insert_le _ _) below
  small := by
    show ∀ value ∈ (view.put update).entries.values, value.length ≤ view.limits.maxValueBytes
    intro value member
    obtain ⟨key, found⟩ := mem_values.mp member
    have old := fun kept => within.small value (mem_values.mpr ⟨key, kept⟩)
    cases given : update.value with
    | none =>
      simp only [MaterializedView.put, given, get?_erase_eq_some] at found
      exact old found.2
    | some new =>
      simp only [MaterializedView.put, given, get?_insert_eq_some] at found
      rcases found with ⟨-, rfl⟩ | ⟨-, kept⟩
      · exact value_small valid given
      · exact old kept
  recent := pushEvent_watch_length _ _

/-- Taking up an update that there is room for keeps a view within its limits. -/
theorem WithinLimits.take (within : view.WithinLimits)
    (valid : validateUpdate update view.limits.maxValueBytes = .ok ()) (room : ¬ view.Full update) :
    (view.take update).WithinLimits :=
  within.put valid room _ _

/-- The events of the updates that are new to a view, one after the other. -/
def taking : MaterializedView → List ViewUpdate → List ViewEvent
  | _, [] => []
  | view, update :: updates =>
    if view.known? update = none then view.nextEvent update :: taking (view.take update) updates
    else taking view updates

theorem taking_recount (view : MaterializedView) (count : ℕ) (updates : List ViewUpdate) :
    taking { view with updatesSinceCheckpoint := count } updates = view.taking updates := by
  induction updates generalizing view with
  | nil => rfl
  | cons update updates ih =>
    have known : known? { view with updatesSinceCheckpoint := count } update =
      view.known? update := rfl
    have taken : take update { view with updatesSinceCheckpoint := count } =
      { view.take update with updatesSinceCheckpoint := count } := rfl
    simp only [taking, known, taken, ih]
    rfl

theorem length_taking_le (view : MaterializedView) (updates : List ViewUpdate) :
    (view.taking updates).length ≤ updates.length := by
  induction updates generalizing view with
  | nil => exact le_rfl
  | cons update updates ih =>
    rw [taking, length_cons]
    split
    · exact Nat.succ_le_succ (ih _)
    · exact Nat.le_succ_of_le (ih _)

/-- The journal's event of an update has the effect of the update. -/
theorem applyReplayed_nextEvent (valid : validateUpdate update view.limits.maxValueBytes = .ok ())
    (bounded : view.lastSequence ≤ u64Max) :
    view.applyReplayed (view.nextEvent update) = .ok (view.take update) := by
  have later : max view.lastSequence (saturatingSucc view.lastSequence) =
      saturatingSucc view.lastSequence := by
    unfold saturatingSucc
    split <;> omega
  have checked : validateUpdate (view.nextEvent update).update view.limits.maxValueBytes =
      .ok () := valid
  simp only [applyReplayed, checked]
  simp only [nextEvent, later]
  rfl

end MaterializedView

/-! ### One update -/

namespace StoredView

variable {json : ViewJson} {stored : StoredView} {update : ViewUpdate}

/-- A view that has taken up an update, with the files as they are then. -/
def updated (json : ViewJson) (stored : StoredView) (update : ViewUpdate) : StoredView :=
  let view := stored.view.take update
  let updates := saturatingSucc stored.view.updatesSinceCheckpoint
  if viewCheckpointInterval ≤ updates then
    ⟨view.uncounted, ⟨some (json.durable.toVec ⟨view.snapshot, view.watch⟩), none⟩⟩
  else
    ⟨{ view with updatesSinceCheckpoint := updates }, { stored.files with
      delta := some (stored.files.delta.getD [] ++
        json.encodeEvent (stored.view.nextEvent update)) }⟩

/-- The update is valid and newer than the position of its partition, and there is
room for it. -/
structure Takes (stored : StoredView) (update : ViewUpdate) : Prop where
  valid : validateUpdate update stored.view.limits.maxValueBytes = .ok ()
  newer : stored.view.known? update = none
  room : ¬ stored.view.Full update

/-- Counting an update rewrites the snapshot when it is time. -/
theorem countUpdate_eq (stored : StoredView) :
    countUpdate json stored =
      (let updates := saturatingSucc stored.view.updatesSinceCheckpoint
      if viewCheckpointInterval ≤ updates then
        ⟨stored.view.uncounted,
          ⟨some (json.durable.toVec ⟨stored.view.snapshot, stored.view.watch⟩), none⟩⟩
      else ⟨{ stored.view with updatesSinceCheckpoint := updates }, stored.files⟩, .ok ()) := by
  simp only [countUpdate, change_bind, read_bind, onView]
  split
  · rfl
  · rfl

theorem Takes.apply_eq (takes : stored.Takes update)
    (positive : 0 < stored.view.limits.watchCapacity) :
    apply json update stored = (stored.updated json update, .ok true) := by
  have last : (stored.view.take update).watch.getLast? = some (stored.view.nextEvent update) :=
    MaterializedView.getLast?_pushEvent _ positive
  have room : ensure (decide (stored.view.Full update) = false)
      "materialized view entry quota exceeded" = .ok () := ensure_of (decide_eq_false takes.room)
  have journaled : appendDelta json ⟨stored.view.take update, stored.files⟩ =
      (⟨stored.view.take update, { stored.files with
        delta := some (stored.files.delta.getD [] ++
          json.encodeEvent (stored.view.nextEvent update)) }⟩, .ok ()) := by
    simp only [appendDelta, read_bind, last]
    rfl
  simp only [apply, read_bind, takes.valid, await_ok_bind, takes.newer, room, change_bind, onView]
  rw [bind_of_ok journaled, bind_of_ok (countUpdate_eq _)]
  rfl

section

variable (valid : validateUpdate update stored.view.limits.maxValueBytes = .ok ())

include valid

theorem apply_known {answer : Bool}
    (known : stored.view.known? update = some answer) :
    apply json update stored = (stored, .ok answer) := by
  simp only [apply, read_bind, valid, await_ok_bind, known]
  rfl

theorem apply_full
    (newer : stored.view.known? update = none) (full : stored.view.Full update) :
    apply json update stored =
      (stored, .error (.error "materialized view entry quota exceeded")) := by
  have refused : ensure (decide (stored.view.Full update) = false)
      "materialized view entry quota exceeded" =
        .error (.error "materialized view entry quota exceeded") :=
    ensure_of_not (by simpa using full)
  simp only [apply, read_bind, valid, await_ok_bind, newer, refused, await_error_bind]

end

/-- An update that is not taken up changes nothing. -/
theorem apply_cases {after : StoredView} {answer : Outcome Bool}
    (positive : 0 < stored.view.limits.watchCapacity)
    (applied : apply json update stored = (after, answer)) :
    after = stored ∧ (stored.view.known? update = none → ∃ failure, answer = .error failure) ∨
      stored.Takes update ∧ after = stored.updated json update := by
  cases valid : validateUpdate update stored.view.limits.maxValueBytes with
  | error failure =>
    simp only [apply, read_bind, valid] at applied
    cases applied
    exact .inl ⟨rfl, fun _ => ⟨_, rfl⟩⟩
  | ok done =>
    cases newer : stored.view.known? update with
    | some known =>
      rw [apply_known valid newer] at applied
      cases applied
      exact .inl ⟨rfl, fun absent => absurd absent (some_ne_none _)⟩
    | none =>
      by_cases full : stored.view.Full update
      · rw [apply_full valid newer full] at applied
        cases applied
        exact .inl ⟨rfl, fun _ => ⟨_, rfl⟩⟩
      · have takes : stored.Takes update := ⟨valid, newer, full⟩
        rw [takes.apply_eq positive] at applied
        exact .inr ⟨takes, (Prod.mk.inj applied).1.symm⟩

/-- An update that succeeds is taken up if it is new, and changes nothing otherwise. -/
theorem apply_ok {after : StoredView} {answer : Bool}
    (positive : 0 < stored.view.limits.watchCapacity)
    (applied : apply json update stored = (after, .ok answer)) :
    if stored.view.known? update = none then
      stored.Takes update ∧ after = stored.updated json update else after = stored := by
  rcases apply_cases positive applied with ⟨same, fails⟩ | ⟨takes, same⟩
  · split
    · rename_i newer
      obtain ⟨failure, failed⟩ := fails newer
      cases failed
    · exact same
  · rw [if_pos takes.newer]
    exact ⟨takes, same⟩

/-! ### What the files hold -/

/-- There is no snapshot, and the journal holds everything since the view was created. -/
structure Journaled (json : ViewJson) (stored : StoredView) : Prop where
  unsaved : stored.files.durable = none
  bounded : stored.view.lastSequence ≤ u64Max
  journal : ∃ events, stored.files.delta.getD [] = encodeAll json.encodeEvent events ∧
    (∀ event ∈ events, json.Short event) ∧
    events.foldlM MaterializedView.applyReplayed stored.view.blank = .ok stored.view.uncounted

/-- The snapshot is that of the view as it is. -/
def Saved (json : ViewJson) (stored : StoredView) : Prop :=
  stored.files = ⟨some (json.durable.toVec ⟨stored.view.snapshot, stored.view.watch⟩), none⟩

/-- The view is within its limits, and its files hold it. -/
structure Kept (json : ViewJson) (stored : StoredView) : Prop where
  within : stored.view.WithinLimits
  held : stored.Journaled json ∨ stored.Saved json

/-- Without a snapshot the view that is opened is that of the journal's events, even if up
to three bytes follow them, and the files stay as they are. -/
theorem openView_journal {tenant name : String} {limits : ViewLimits}
    {fresh view : MaterializedView} (created : MaterializedView.new tenant name limits = .ok fresh)
    {files : ViewFiles} (unsaved : files.durable = none) {events : List ViewEvent} {rest : Bytes}
    (written : files.delta.getD [] = encodeAll json.encodeEvent events ++ rest)
    (ended : rest.length < 4) (short : ∀ event ∈ events, json.Short event)
    (replayed : events.foldlM MaterializedView.applyReplayed fresh = .ok view) :
    openView json tenant name limits files = (files, .ok view) := by
  have loaded : loadSnapshot json ⟨fresh, files⟩ = (⟨fresh, files⟩, .ok ()) := by
    simp only [loadSnapshot, read_bind, unsaved]
    rfl
  simp only [openView, created]
  rw [bind_of_ok loaded]
  cases journal : files.delta with
  | none =>
    rw [journal] at written
    obtain rfl := json.events_nil (append_eq_nil_iff.mp written.symm).1
    obtain rfl : fresh = view := Except.ok.inj replayed
    simp only [replayJournal, read_bind, id_eq, journal]
    rfl
  | some file =>
    rw [journal, getD_some] at written
    have deltas := json.replayDeltas_events short replayed ended
    rw [← written] at deltas
    simp only [replayJournal, read_bind, id_eq, journal, deltas]
    rfl

/-- A journaled view is opened as it is. -/
theorem Journaled.openView_eq (journaled : stored.Journaled json)
    (opens : stored.view.Creates) :
    openView json stored.view.tenant stored.view.name stored.view.limits stored.files =
      (stored.files, .ok stored.view.uncounted) := by
  obtain ⟨events, written, short, replayed⟩ := journaled.journal
  exact openView_journal opens journaled.unsaved (written.trans (append_nil _).symm) (by decide)
    short replayed

/-- Restoring a snapshot within the limits writes it with the events there are. -/
theorem restoreSnapshot_eq {snapshot : ViewSnapshot} (tenant : snapshot.tenant = stored.view.tenant)
    (name : snapshot.name = stored.view.name)
    (few : snapshot.entries.entries.length ≤ stored.view.limits.maxEntries)
    (small : ∀ value ∈ snapshot.entries.values, value.length ≤ stored.view.limits.maxValueBytes) :
    restoreSnapshot json snapshot stored =
      (⟨{ stored.view with
          entries := snapshot.entries
          positions := snapshot.positions
          lastSequence := snapshot.lastSequence },
        ⟨some (json.durable.toVec ⟨snapshot, stored.view.watch⟩), none⟩⟩, .ok ()) := by
  simp only [restoreSnapshot, read_bind, ensure_of tenant, ensure_of name,
    ensure_of few, ensure_of small, await_ok_bind, change_bind, persist,
    change, onView]
  have same : (⟨stored.view.tenant, stored.view.name, snapshot.entries, snapshot.positions,
      snapshot.lastSequence⟩ : ViewSnapshot) = snapshot := by
    rw [← tenant, ← name]
  simp only [MaterializedView.snapshot, same]

/-- The view of a snapshot within the limits. -/
def ofSnapshot (limits : ViewLimits) (durable : DurableView) : MaterializedView where
  tenant := durable.snapshot.tenant
  name := durable.snapshot.name
  limits := limits
  entries := durable.snapshot.entries
  positions := durable.snapshot.positions
  lastSequence := durable.snapshot.lastSequence
  watch := durable.watch.take limits.watchCapacity
  updatesSinceCheckpoint := 0

/-- Wherever there is a snapshot, the view that is opened is that of the snapshot. The
snapshot is left without events, and the journal is gone. -/
theorem openView_snapshot {limits : ViewLimits} {durable : DurableView} {fresh : MaterializedView}
    (created : MaterializedView.new durable.snapshot.tenant durable.snapshot.name limits =
      .ok fresh)
    (few : durable.snapshot.entries.entries.length ≤ limits.maxEntries)
    (small : ∀ value ∈ durable.snapshot.entries.values, value.length ≤ limits.maxValueBytes)
    {files : ViewFiles} (file : files.durable = some (json.durable.toVec durable)) :
    openView json durable.snapshot.tenant durable.snapshot.name limits files =
      (⟨some (json.durable.toVec ⟨durable.snapshot, []⟩), none⟩,
        .ok (ofSnapshot limits durable)) := by
  obtain ⟨rfl, -⟩ := MaterializedView.new_ok created
  have trips : json.durable.fromSlice (json.durable.toVec durable) = .ok durable :=
    json.durable_roundTrips _
  have loaded : loadSnapshot json
      ⟨⟨durable.snapshot.tenant, durable.snapshot.name, limits, ∅, ∅, 0, [], 0⟩, files⟩ =
      (⟨ofSnapshot limits durable,
        ⟨some (json.durable.toVec ⟨durable.snapshot, []⟩), none⟩⟩, .ok ()) := by
    simp only [loadSnapshot, read_bind, file, trips, withContext_ok, await_ok_bind]
    rw [bind_of_ok (restoreSnapshot_eq rfl rfl few small)]
    rfl
  simp only [openView, created]
  rw [bind_of_ok loaded]
  rfl

theorem ofSnapshot_eq {view : MaterializedView} (within : view.WithinLimits) :
    ofSnapshot view.limits ⟨view.snapshot, view.watch⟩ = view.uncounted := by
  simp only [ofSnapshot, take_of_length_le within.recent]
  rfl

/-- From its snapshot a view is opened as it is. -/
theorem openView_saved {view : MaterializedView} (within : view.WithinLimits) {files : ViewFiles}
    (file : files.durable = some (json.durable.toVec ⟨view.snapshot, view.watch⟩)) :
    openView json view.tenant view.name view.limits files =
      (⟨some (json.durable.toVec ⟨view.snapshot, []⟩), none⟩, .ok view.uncounted) := by
  have opens := openView_snapshot within.opens within.few within.small file
  rwa [ofSnapshot_eq within] at opens

/-- Opening a view that its files hold gives the view. -/
theorem Kept.openView_eq (kept : stored.Kept json) :
    ∃ files, openView json stored.view.tenant stored.view.name stored.view.limits stored.files =
      (files, .ok stored.view.uncounted) := by
  rcases kept.held with journaled | saved
  · exact ⟨_, journaled.openView_eq kept.within.opens⟩
  · exact ⟨_, openView_saved kept.within (by rw [saved])⟩

/-! ### What every call does to the files -/

theorem Takes.within (takes : stored.Takes update) (within : stored.view.WithinLimits) :
    (stored.updated json update).view.WithinLimits := by
  have after := within.take takes.valid takes.room
  rw [updated]
  split
  · exact ⟨after.opens, after.few, after.small, after.recent⟩
  · exact ⟨after.opens, after.few, after.small, after.recent⟩

theorem taking_updated (json : ViewJson) (stored : StoredView) (update : ViewUpdate)
    (updates : List ViewUpdate) :
    (stored.updated json update).view.taking updates =
      (stored.view.take update).taking updates := by
  rw [updated]
  split
  · exact MaterializedView.taking_recount _ _ _
  · exact MaterializedView.taking_recount _ _ _

/-- An update that comes to a checkpoint is saved, whatever the files held. -/
theorem updated_saved
    (due : viewCheckpointInterval ≤ saturatingSucc stored.view.updatesSinceCheckpoint) :
    (stored.updated json update).Saved json := by
  simp only [updated, if_pos due]
  rfl

/-- As long as there is no snapshot, an update is journaled. -/
theorem Takes.journaled (takes : stored.Takes update) (journaled : stored.Journaled json)
    (short : json.Short (stored.view.nextEvent update))
    (early : ¬ viewCheckpointInterval ≤ saturatingSucc stored.view.updatesSinceCheckpoint) :
    (stored.updated json update).Journaled json := by
  obtain ⟨events, written, shorter, replayed⟩ := journaled.journal
  simp only [updated, if_neg early]
  refine ⟨journaled.unsaved, saturatingSucc_le_max _,
    events ++ [stored.view.nextEvent update], ?_, forall_mem_concat.mpr ⟨shorter, short⟩, ?_⟩
  · simp [written, encodeAll_append]
  · have replays : stored.view.uncounted.applyReplayed (stored.view.nextEvent update) =
        .ok (stored.view.uncounted.take update) :=
      MaterializedView.applyReplayed_nextEvent takes.valid journaled.bounded
    have blank : ({ stored.view.take update with
        updatesSinceCheckpoint := saturatingSucc stored.view.updatesSinceCheckpoint } :
          MaterializedView).blank = stored.view.blank := rfl
    rw [blank, foldlM_append, replayed]
    simp only [ok_bind, foldlM_cons, replays]
    rfl

/-- The numbers of an update. -/
theorem updated_numbers (json : ViewJson) (stored : StoredView) (update : ViewUpdate) :
    (stored.updated json update).view.lastSequence = saturatingSucc stored.view.lastSequence ∧
      (stored.updated json update).view.updatesSinceCheckpoint =
        if viewCheckpointInterval ≤ saturatingSucc stored.view.updatesSinceCheckpoint then 0
        else saturatingSucc stored.view.updatesSinceCheckpoint := by
  rw [updated]
  split
  · exact ⟨rfl, rfl⟩
  · exact ⟨rfl, rfl⟩

end StoredView

/-! ### Runs -/

/-- A call to a view, or a restart. -/
inductive ViewAction
  | apply (update : ViewUpdate)
  | rebuild (history : List ViewUpdate)
  | restore (snapshot : ViewSnapshot)
  | reopen

namespace StoredView

variable (json : ViewJson)

/-- A view that cannot be opened stays closed; its files may have changed. -/
def reopen : Procedure StoredView Unit := fun stored =>
  match openView json stored.view.tenant stored.view.name stored.view.limits stored.files with
  | (files, .ok view) => (⟨view, files⟩, .ok ())
  | (files, .error failure) => (⟨stored.view, files⟩, .error failure)

def perform : ViewAction → Procedure StoredView Unit
  | .apply update => do
    let _ ← apply json update
    pure ()
  | .rebuild history => rebuild json history
  | .restore snapshot => restoreSnapshot json snapshot
  | .reopen => reopen json

variable (stored : StoredView)

def next (action : ViewAction) : StoredView :=
  (perform json action stored).1

def Succeeds (action : ViewAction) : Prop :=
  (perform json action stored).2 = .ok ()

/-- Opening the view again gives what the view holds. -/
def SurvivesRestart : Prop :=
  ∃ files view,
    openView json stored.view.tenant stored.view.name stored.view.limits stored.files =
      (files, .ok view) ∧ view.SameContents stored.view

/-- In every run of the admitted calls, from a view without files, every view that is
reached can be opened again. -/
def AlwaysSurvive (guard : ViewJson → StoredView → ViewAction → Prop) : Prop :=
  ∀ (json : ViewJson) (tenant name : String) (limits : ViewLimits) (files : ViewFiles)
    (view : MaterializedView) (stored : StoredView),
    openView json tenant name limits ⟨none, none⟩ = (files, .ok view) →
    GuardedRuns.Reaches (next json) (guard json) ⟨view, files⟩ stored →
    stored.SurvivesRestart json

/-- The call leaves the files such that opening the view gives it back. An update must
be known already, or come to a checkpoint, or be journaled before there is a snapshot. A
view may be rebuilt before anything is stored, as long as no update follows a checkpoint.
It may be opened before there is a snapshot, or when there are no events to lose. -/
def Settles : ViewAction → Prop
  | .apply update =>
    stored.view.known? update ≠ none ∨
      viewCheckpointInterval ≤ saturatingSucc stored.view.updatesSinceCheckpoint ∨
      stored.files.durable = none ∧ json.Short (stored.view.nextEvent update)
  | .rebuild history =>
    stored.files = ⟨none, none⟩ ∧
      stored.view.updatesSinceCheckpoint + history.length ≤ viewCheckpointInterval ∧
      ∀ update ∈ history, ∀ sequence ≤ history.length, json.Short ⟨sequence, update⟩
  | .restore _ => True
  | .reopen => stored.files.durable = none ∨ stored.view.watch = []

variable {json : ViewJson} {stored : StoredView}

theorem Kept.survives (kept : stored.Kept json) : stored.SurvivesRestart json := by
  obtain ⟨files, opens⟩ := kept.openView_eq
  exact ⟨files, _, opens, ⟨rfl, rfl, rfl, rfl⟩⟩

variable {view : MaterializedView} {tenant name : String} {limits : ViewLimits} {files : ViewFiles}

section

variable (opens : openView json tenant name limits ⟨none, none⟩ = (files, .ok view))

include opens

/-- Without files a view is created. -/
theorem openView_new :
    MaterializedView.new tenant name limits = .ok view ∧ files = ⟨none, none⟩ := by
  cases created : MaterializedView.new tenant name limits with
  | error failure =>
    rw [openView, created] at opens
    cases opens
  | ok fresh =>
    have opened : openView json tenant name limits ⟨none, none⟩ = (⟨none, none⟩, .ok fresh) := by
      rw [openView, created]
      rfl
    rw [opened] at opens
    cases opens
    exact ⟨rfl, rfl⟩

/-- A view that was just created. -/
theorem kept_of_new :
    Kept json ⟨view, files⟩ := by
  obtain ⟨created, rfl⟩ := openView_new opens
  obtain ⟨rfl, -⟩ := MaterializedView.new_ok created
  refine ⟨⟨created, Nat.zero_le _, by simp [OrderedMap.values], Nat.zero_le _⟩, .inl ?_⟩
  exact ⟨rfl, Nat.zero_le _, [], rfl, by simp, rfl⟩

end

/-- A view whose files hold it without a snapshot is journaled. -/
theorem Kept.journaled (kept : stored.Kept json) (unsaved : stored.files.durable = none) :
    stored.Journaled json := by
  rcases kept.held with journaled | saved
  · exact journaled
  · rw [saved] at unsaved
    cases unsaved

variable {after : StoredView}

theorem Kept.apply {update : ViewUpdate} (kept : stored.Kept json) {answer : Bool}
    (applied : StoredView.apply json update stored = (after, .ok answer))
    (settles : stored.Settles json (.apply update)) : after.Kept json := by
  rcases apply_cases kept.within.capacity applied with ⟨rfl, -⟩ | ⟨takes, rfl⟩
  · exact kept
  · by_cases due : viewCheckpointInterval ≤ saturatingSucc stored.view.updatesSinceCheckpoint
    · exact ⟨takes.within kept.within, .inr (updated_saved due)⟩
    · rcases settles with known | checkpoint | ⟨unsaved, short⟩
      · exact absurd takes.newer known
      · exact absurd checkpoint due
      · exact ⟨takes.within kept.within,
          .inl (takes.journaled (kept.journaled unsaved) short due)⟩

theorem Kept.restoreSnapshot (kept : stored.Kept json) {snapshot : ViewSnapshot}
    (restored : StoredView.restoreSnapshot json snapshot stored = (after, .ok ())) :
    after.Kept json := by
  have checks := restored
  simp only [StoredView.restoreSnapshot, Procedure.read_bind, Procedure.bind_eq_ok,
    Procedure.await, Prod.mk.injEq, ensure_eq_ok] at checks
  obtain ⟨_, _, ⟨rfl, tenant⟩, _, _, ⟨rfl, name⟩, _, _, ⟨rfl, few⟩, _, _, ⟨rfl, small⟩, -⟩ := checks
  rw [restoreSnapshot_eq tenant name few small] at restored
  obtain ⟨rfl, -⟩ := Prod.mk.inj restored
  refine ⟨⟨kept.within.opens, few, small, kept.within.recent⟩, .inr ?_⟩
  rw [Saved, MaterializedView.snapshot, ← tenant, ← name]

theorem Kept.reopen (kept : stored.Kept json) (settles : stored.Settles json .reopen) :
    (StoredView.reopen json stored).1.Kept json := by
  have within : stored.view.uncounted.WithinLimits :=
    ⟨kept.within.opens, kept.within.few, kept.within.small, kept.within.recent⟩
  rcases kept.held with journaled | saved
  · simp only [StoredView.reopen, journaled.openView_eq kept.within.opens]
    exact ⟨within, .inl ⟨journaled.unsaved, journaled.bounded, journaled.journal⟩⟩
  · have watchless : stored.view.watch = [] := by
      rcases settles with unsaved | watchless
      · rw [saved] at unsaved
        cases unsaved
      · exact watchless
    simp only [StoredView.reopen, openView_saved kept.within (congrArg ViewFiles.durable saved)]
    refine ⟨within, .inr ?_⟩
    show _ = (⟨some (json.durable.toVec ⟨stored.view.snapshot, stored.view.watch⟩), none⟩ :
      ViewFiles)
    rw [watchless]

/-- What becomes of a view and its files when updates are applied, by the number of those
that are new. -/
structure Counts (json : ViewJson) (before after : StoredView) (taken : ℕ) : Prop where
  within : after.view.WithinLimits
  unchanged : taken = 0 → after = before
  saved : 0 < taken → (before.view.updatesSinceCheckpoint + taken) % viewCheckpointInterval = 0 →
    after.Saved json
  journaled : before.Journaled json →
    before.view.updatesSinceCheckpoint + taken < viewCheckpointInterval → after.Journaled json

theorem counts_applyAll {updates : List ViewUpdate} {largest : ℕ}
    (within : stored.view.WithinLimits)
    (small : stored.view.updatesSinceCheckpoint < viewCheckpointInterval)
    (numbers : stored.view.lastSequence + updates.length ≤ largest ∨ largest = u64Max)
    (short : ∀ update ∈ updates, ∀ sequence ≤ largest, json.Short ⟨sequence, update⟩)
    (applied : StoredView.applyAll json updates stored = (after, .ok ())) :
    Counts json stored after (stored.view.taking updates).length := by
  induction updates generalizing stored with
  | nil =>
    cases applied
    exact ⟨within, fun _ => rfl, fun positive => absurd positive (Nat.lt_irrefl 0),
      fun journaled _ => journaled⟩
  | cons update updates ih =>
    obtain ⟨middle, answer, first, rest⟩ := Procedure.bind_eq_ok.mp applied
    obtain ⟨new, shorter⟩ := forall_mem_cons.mp short
    rw [length_cons] at numbers
    have done := apply_ok within.capacity first
    rw [MaterializedView.taking]
    split at done
    · obtain ⟨takes, rfl⟩ := done
      have count := saturatingSucc_of_lt (small.trans (by decide : viewCheckpointInterval < u64Max))
      have sequence := saturatingSucc_le stored.view.lastSequence
      have sequenceMax := saturatingSucc_le_max stored.view.lastSequence
      rw [if_pos ‹_›, length_cons, ← taking_updated json]
      obtain ⟨last, counted⟩ := updated_numbers json stored update
      by_cases due : viewCheckpointInterval ≤ saturatingSucc stored.view.updatesSinceCheckpoint
      · rw [if_pos due] at counted
        have counts := ih (takes.within within) (by rw [counted]; decide) (by omega) shorter rest
        refine ⟨counts.within, by omega, fun _ checkpoint => ?_, by omega⟩
        rcases Nat.eq_zero_or_pos
          ((stored.updated json update).view.taking updates).length with none | some
        · rw [counts.unchanged none]
          exact updated_saved due
        · refine counts.saved some ?_
          rw [viewCheckpointInterval] at *
          omega
      · rw [if_neg due] at counted
        have counts := ih (takes.within within) (by omega) (by omega) shorter rest
        have early := fun journaled => takes.journaled journaled (new _ (by omega)) due
        refine ⟨counts.within, by omega, fun _ checkpoint => counts.saved ?_ ?_,
          fun journaled few => counts.journaled (early journaled) (by omega)⟩
        · by_contra none
          rw [Nat.mod_eq_of_lt (by omega)] at checkpoint
          omega
        · rw [← checkpoint]
          congr 1
          omega
    · subst done
      rw [if_neg ‹_›]
      exact ih within small (by omega) shorter rest

/-- Rebuilding a view of which nothing is stored. -/
theorem Kept.rebuild (kept : stored.Kept json) {history : List ViewUpdate}
    (settles : stored.Settles json (.rebuild history))
    (rebuilt : StoredView.rebuild json history stored = (after, .ok ())) : after.Kept json := by
  obtain ⟨absent, few, short⟩ := settles
  have journaled := kept.journaled (by rw [absent])
  obtain ⟨events, written, -, replayed⟩ := journaled.journal
  rw [absent] at written
  obtain rfl := json.events_nil written.symm
  have blank : stored.view.blank = stored.view.uncounted := Except.ok.inj replayed
  simp only [MaterializedView.blank, MaterializedView.uncounted, MaterializedView.mk.injEq,
    true_and] at blank
  obtain ⟨entries, positions, lastSequence, watch, -⟩ := blank
  have cleared : onView (fun view =>
      { view with entries := ∅, positions := ∅, lastSequence := 0, watch := [] }) stored =
        stored := by
    simp only [onView, entries, positions, lastSequence, watch]
  rw [StoredView.rebuild, change_bind, cleared] at rebuilt
  have taken := stored.view.length_taking_le (StoredView.orderedHistory history)
  rw [StoredView.orderedHistory, length_mergeSort] at taken
  by_cases small : stored.view.updatesSinceCheckpoint < viewCheckpointInterval
  · have counts := counts_applyAll kept.within small (.inl le_rfl) (fun update member sequence
      below => short update (mem_mergeSort.mp member) sequence (by
        rwa [length_mergeSort, ← lastSequence, Nat.zero_add] at below)) rebuilt
    refine ⟨counts.within, (Nat.lt_or_eq_of_le (by omega)).imp (counts.journaled journaled) ?_⟩
    intro full
    exact counts.saved (by omega) (by rw [full, Nat.mod_self])
  · obtain rfl : history = [] := length_eq_zero_iff.mp (by omega)
    rw [orderedHistory, mergeSort_nil] at rebuilt
    cases rebuilt
    exact kept

/-- Every call that succeeds and settles keeps the view in its files. -/
theorem Kept.next (kept : stored.Kept json) {action : ViewAction}
    (succeeds : stored.Succeeds json action) (settles : stored.Settles json action) :
    (stored.next json action).Kept json := by
  cases action with
  | apply update =>
    obtain ⟨middle, answer, applied, same⟩ := Procedure.bind_eq_ok.mp (Prod.ext rfl succeeds)
    cases same
    exact kept.apply applied settles
  | rebuild history => exact kept.rebuild settles (Prod.ext rfl succeeds)
  | restore snapshot => exact kept.restoreSnapshot (Prod.ext rfl succeeds)
  | reopen => exact kept.reopen settles

/-- In runs of calls that settle, every view is held by its files. -/
theorem kept_of_settling
    (opens : openView json tenant name limits ⟨none, none⟩ =
      (files, .ok view))
    (run : GuardedRuns.Reaches (next json) (fun stored action => stored.Succeeds json action ∧
      stored.Settles json action) ⟨view, files⟩ stored) : stored.Kept json := by
  apply run.invariant (StoredView.Kept json)
  · exact fun before action admitted held => held.next admitted.1 admitted.2
  · exact kept_of_new opens

/-- In runs of calls that settle, every view survives a restart. -/
theorem alwaysSurvive_of_settling (json : ViewJson) {tenant name : String} {limits : ViewLimits}
    {files : ViewFiles} {view : MaterializedView} {stored : StoredView}
    (opens : openView json tenant name limits ⟨none, none⟩ = (files, .ok view))
    (run : GuardedRuns.Reaches (next json) (fun stored action => stored.Succeeds json action ∧
      stored.Settles json action) ⟨view, files⟩ stored) : stored.SurvivesRestart json :=
  (kept_of_settling opens run).survives

end StoredView

/-! ### A JSON library

The texts of some values are those that the library in use writes for them. Every other
value has a text as well, so that the library as a whole reads back what it wrote.
-/

section Texts

instance encodableByte : Encodable UInt8 := .ofLeftInverse UInt8.toNat UInt8.ofNat (by simp)

instance encodableText : Encodable String := .ofLeftInjection utf8 fromUtf8 fromUtf8_utf8

instance encodableMap {κ ν : Type} [LinearOrder κ] [Encodable κ] [Encodable ν] :
    Encodable (OrderedMap κ ν) :=
  .ofLeftInjection OrderedMap.entries
    (fun entries => if increasing : entries.Pairwise (fun first second => first.1 < second.1) then
      some ⟨entries, increasing⟩ else none) (fun map => dif_pos map.increasing)

deriving instance Encodable for ViewPosition, ViewUpdate, ViewEvent, ViewSnapshot, DurableView

variable {α : Type}

/-- The library with the given functions on texts. -/
def Json.ofTexts (write : α → String) (read : String → Option α) : Json α where
  toVec value := utf8 (write value)
  fromSlice bytes := match (fromUtf8 bytes).bind read with
    | some value => .ok value
    | none => .error "expected value"

theorem Json.ofTexts_roundTrips {write : α → String} {read : String → Option α}
    (reads : ∀ value, read (write value) = some value) (value : α) :
    (Json.ofTexts write read).RoundTrips value := by
  simp [RoundTrips, ofTexts, reads]

variable [DecidableEq α] [Encodable α] (known : List (α × String))

/-- The text of a known value. The number of any other value is written as that many
zeros. -/
def writeKnown (value : α) : String :=
  match known.find? (·.1 = value) with
  | some pair => pair.2
  | none => String.ofList (replicate (Encodable.encode value) '0')

def readKnown (text : String) : Option α :=
  match known.find? (·.2 = text) with
  | some pair => some pair.1
  | none => Encodable.decode text.length

variable {known}

/-- Known values with different texts, all of them objects, are read back. -/
theorem readKnown_writeKnown (objects : ∀ pair ∈ known, pair.2.toList.head? = some '\x7b')
    (distinct : (known.map Prod.snd).Nodup) (value : α) :
    readKnown known (writeKnown known value) = some value := by
  unfold writeKnown
  split
  · rename_i pair found
    have same : pair.1 = value := by simpa using find?_some found
    have member := mem_of_find?_eq_some found
    obtain ⟨other, read⟩ : ∃ other, known.find? (·.2 = pair.2) = some other :=
      isSome_iff_exists.mp (find?_isSome.mpr ⟨pair, member, by simp⟩)
    obtain rfl : other = pair := inj_on_of_nodup_map distinct (mem_of_find?_eq_some read) member
      (by simpa using find?_some read)
    rw [readKnown, read, ← same]
  · have unknown : known.find?
        (·.2 = String.ofList (replicate (Encodable.encode value) '0')) = none := by
      rw [find?_eq_none]
      intro pair member
      have object := objects pair member
      rw [decide_eq_true_eq]
      intro zeros
      rw [zeros, String.toList_ofList, head?_replicate] at object
      split at object <;> cases object
    rw [readKnown, unknown]
    simp

/-- The text of an event is put together from its number and the text of its update. -/
def ViewEvent.text (write : ViewUpdate → String) (event : ViewEvent) : String :=
  "\x7b\"sequence\":" ++ toString event.sequence ++ ",\"update\":" ++ write event.update ++ "\x7d"

/-- Read the number behind the first twelve characters, and the update behind the ten that
follow it. -/
def ViewEvent.ofText (read : String → Option ViewUpdate) (text : String) : Option ViewEvent :=
  let rest := text.toList.drop 12
  let digits := rest.takeWhile Char.isDigit
  (read (String.ofList (rest.drop (digits.length + 10)).dropLast)).map
    (⟨Nat.ofDigitChars 10 digits 0, ·⟩)

theorem ViewEvent.ofText_text {write : ViewUpdate → String} {read : String → Option ViewUpdate}
    (reads : ∀ update, read (write update) = some update) (event : ViewEvent) :
    ofText read (text write event) = some event := by
  have shape : (text write event).toList = "\x7b\"sequence\":".toList ++
      (Nat.toDigits 10 event.sequence ++
        (",\"update\":".toList ++ ((write event.update).toList ++ ['\x7d']))) := by
    simp [text, Nat.toString_eq_repr, Nat.toList_repr]
  have number : (text write event).toList.drop 12 = Nat.toDigits 10 event.sequence ++
      (",\"update\":".toList ++ ((write event.update).toList ++ ['\x7d'])) := by
    rw [shape]
    rfl
  have digits : ((text write event).toList.drop 12).takeWhile Char.isDigit =
      Nat.toDigits 10 event.sequence := by
    rw [number, takeWhile_append_of_pos fun symbol member =>
      Nat.isDigit_of_mem_toDigits (by decide) (by decide) member]
    exact append_nil _
  have update : (((text write event).toList.drop 12).drop
      ((Nat.toDigits 10 event.sequence).length + 10)).dropLast = (write event.update).toList := by
    rw [number, ← drop_drop, drop_left]
    exact dropLast_concat
  simp only [ofText, digits, update, String.ofList_toList, reads, map_some,
    Nat.ofDigitChars_ten_toDigits]

end Texts

namespace StoredView

/-- A view that was just created, for single entries. -/
def smallView : MaterializedView := ⟨"default", "orders", ⟨1, 8, 1⟩, ∅, ∅, 0, [], 0⟩

variable (key : String) (offset : ℕ)

/-- The update that the record of an order makes. -/
def orderUpdate : ViewUpdate := ⟨key, some [1], ⟨"orders", 0, offset⟩⟩

def orderText : String :=
  "\x7b\"key\":\"" ++ key ++ "\",\"value\":[1],\"position\":\x7b\"stream\":\"orders\"," ++
    "\"partition\":0,\"offset\":" ++ toString offset ++ "\x7d\x7d"

def knownUpdates : List (ViewUpdate × String) :=
  [("orders.a", 0), ("orders.a", 1), ("orders.b", 1)].map fun (key, offset) =>
    (orderUpdate key offset, orderText key offset)

def knownViews : List (DurableView × String) :=
  [(⟨smallView.snapshot, []⟩,
    "\x7b\"snapshot\":\x7b\"tenant\":\"default\",\"name\":\"orders\",\"entries\":\x7b\x7d," ++
      "\"positions\":\x7b\x7d,\"last_sequence\":0\x7d,\"watch\":[]\x7d")]

theorem readKnown_updates (update : ViewUpdate) :
    readKnown knownUpdates (writeKnown knownUpdates update) = some update :=
  readKnown_writeKnown (by decide +kernel) (by decide +kernel) update

/-- A library that knows the updates of some orders. -/
def ordersJson : ViewJson where
  durable := .ofTexts (writeKnown knownViews) (readKnown knownViews)
  event := .ofTexts (ViewEvent.text (writeKnown knownUpdates))
    (ViewEvent.ofText (readKnown knownUpdates))
  durable_roundTrips := Json.ofTexts_roundTrips fun value =>
    readKnown_writeKnown (by decide +kernel) (by decide +kernel) value
  event_roundTrips := Json.ofTexts_roundTrips (ViewEvent.ofText_text readKnown_updates)

/-- The event of a known update is short, whatever its number. -/
theorem ordersJson_short {update : ViewUpdate} (known : update ∈ knownUpdates.map Prod.fst)
    {sequence : ℕ} (bounded : sequence ≤ u64Max) : ordersJson.Short ⟨sequence, update⟩ := by
  have number : (utf8 (toString sequence)).length ≤ 20 := by
    rw [← decimal, length_utf8_decimal, ← length_toDigits]
    exact Nat.toDigits_length 10 sequence 20 (by decide) (bounded.trans_lt (by decide))
  have text : (utf8 (writeKnown knownUpdates update)).length ≤ 100 := by
    revert update
    decide +kernel
  have around : (utf8 "\x7b\"sequence\":").length = 12 ∧ (utf8 ",\"update\":").length = 10 ∧
      (utf8 "\x7d").length = 1 := by decide +kernel
  simp only [ViewJson.Short, ordersJson, Json.ofTexts, ViewEvent.text, length_utf8_append, around]
  omega

variable (json : ViewJson)

theorem smallView_opens : openView json "default" "orders" ⟨1, 8, 1⟩ ⟨none, none⟩ =
    (⟨none, none⟩, .ok smallView) := by
  rfl

/-- An order is updated before and after the view is opened again. -/
theorem alwaysSurvive_reopened :
    let stored := [ViewAction.apply (orderUpdate "orders.a" 0), .reopen,
      .apply (orderUpdate "orders.a" 1)].foldl (next ordersJson) ⟨smallView, ⟨none, none⟩⟩
    stored.view.watch = [⟨2, orderUpdate "orders.a" 1⟩] ∧ stored.SurvivesRestart ordersJson := by
  refine ⟨by decide +kernel, alwaysSurvive_of_settling ordersJson (smallView_opens _) ?_⟩
  refine .step (.apply (orderUpdate "orders.a" 0))
    ⟨rfl, .inr (.inr ⟨rfl, ordersJson_short (by decide) (by decide)⟩)⟩ ?_
  refine .step .reopen ⟨by unfold Succeeds; decide +kernel, .inl (by decide +kernel)⟩ ?_
  refine .step (.apply (orderUpdate "orders.a" 1)) ⟨by unfold Succeeds; decide +kernel,
    .inr (.inr ⟨by decide +kernel, ordersJson_short (by decide) (by decide +kernel)⟩)⟩ ?_
  exact .refl _

/-- The snapshot is written, then an entry changes, and the change is not there after a
restart. -/
theorem update_after_snapshot_lost : ¬ AlwaysSurvive fun json stored action =>
    stored.Succeeds json action := by
  intro always
  obtain ⟨files, view, opens, same⟩ := always ordersJson _ _ _ _ _ _ (smallView_opens ordersJson)
    (.step (.restore smallView.snapshot) rfl
      (.step (.apply (orderUpdate "orders.a" 0)) rfl (.refl _)))
  have opened : (openView ordersJson "default" "orders" ⟨1, 8, 1⟩
      ([ViewAction.restore smallView.snapshot, .apply (orderUpdate "orders.a" 0)].foldl
        (next ordersJson) ⟨smallView, ⟨none, none⟩⟩).files).2 = .ok smallView := by
    decide +kernel
  obtain rfl := Except.ok.inj (opened.symm.trans (congrArg Prod.snd opens))
  exact absurd same.lastSequence (by decide +kernel)

end StoredView

end Morrow
