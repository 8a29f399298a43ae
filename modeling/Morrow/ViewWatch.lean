import Morrow.ViewRestart

/-!
# Watching a view

A watcher has a copy of a view's entries and the number of the last event it has seen. It
asks for the events since, and is refused if the oldest event that is kept comes too late
for it. As long as updates are applied, and the view is opened only where its files hold
it, the answer is exactly what the watcher has missed.

The check looks at the events that are kept and not at the number that the view has
reached. A snapshot that is restored changes the entries and the number without an event,
and the watcher is told that there is nothing new.
-/

namespace Morrow

open ByteCodec List

/-- What an update does to the entries. -/
def ViewUpdate.change (update : ViewUpdate) (entries : OrderedMap String Bytes) :
    OrderedMap String Bytes :=
  match update.value with
  | some value => entries.insert update.key value
  | none => entries.erase update.key

namespace MaterializedView

/-- The events after a number. -/
def watchFrom (view : MaterializedView) (sequence : ℕ) : Outcome (List ViewEvent) := do
  ensure (view.watch.head?.all fun first => first.sequence ≤ saturatingSucc sequence)
    "view watch cursor expired"
  pure (view.watch.filter fun event => sequence < event.sequence)

/-- The events have all the numbers that a view went through, in order, and lead from its
earlier entries to its later ones. -/
structure CatchesUp (before after : MaterializedView) (events : List ViewEvent) : Prop where
  numbers : events.map ViewEvent.sequence = Ico (before.lastSequence + 1) (after.lastSequence + 1)
  entries : events.foldl (fun entries event => event.update.change entries) before.entries =
    after.entries

/-- A watcher who has seen the earlier view is refused, or is given what it has missed. -/
def WatchExact (before after : MaterializedView) : Prop :=
  ∀ events, after.watchFrom before.lastSequence = .ok events → before.CatchesUp after events

/-- The events are not newer than the view, and it can keep some. -/
structure Watchable (view : MaterializedView) : Prop where
  known : ∀ event ∈ view.watch, event.sequence ≤ view.lastSequence
  capacity : 0 < view.limits.watchCapacity

/-- The later view has gone through events, of which it keeps the last ones. -/
structure Follows (before after : MaterializedView) (events : List ViewEvent) : Prop where
  later : before.lastSequence ≤ after.lastSequence
  catches : before.CatchesUp after events
  kept : after.watch <:+ before.watch ++ events
  nonempty : events ≠ [] → after.watch ≠ []

variable {before view : MaterializedView} {update : ViewUpdate} {events : List ViewEvent}

theorem Watchable.take (watchable : view.Watchable) (room : view.lastSequence < u64Max) :
    (view.take update).Watchable := by
  have number : (view.take update).lastSequence = view.lastSequence + 1 :=
    saturatingSucc_of_lt room
  refine ⟨fun event member => ?_, watchable.capacity⟩
  rw [number]
  rcases mem_append.mp (mem_of_mem_drop member) with old | new
  · exact le_trans (watchable.known event old) (Nat.le_succ _)
  · rw [mem_singleton.mp new]
    exact saturatingSucc_le _

/-- A taken update is one more event. -/
theorem Follows.take (follows : before.Follows view events) (watchable : view.Watchable)
    (room : view.lastSequence < u64Max) :
    before.Follows (view.take update) (events ++ [view.nextEvent update]) := by
  have number : (view.take update).lastSequence = view.lastSequence + 1 :=
    saturatingSucc_of_lt room
  have last : (view.take update).watch.getLast? = some (view.nextEvent update) :=
    getLast?_pushEvent _ watchable.capacity
  refine ⟨?_, ⟨?_, ?_⟩, ?_, fun _ empty => ?_⟩
  · exact le_trans follows.later (number ▸ Nat.le_succ _)
  · rw [number, Ico.succ_top (by have := follows.later; omega), map_append, follows.catches.numbers]
    simp [nextEvent, saturatingSucc_of_lt room]
  · rw [foldl_append, follows.catches.entries]
    rfl
  · rw [← append_assoc]
    obtain ⟨dropped, parts⟩ := follows.kept
    rw [← parts, append_assoc]
    exact (drop_suffix _ _).trans (suffix_append _ _)
  · simp [empty] at last

/-- A watcher who is not refused is given the events since. -/
theorem Follows.watchExact (follows : before.Follows view events) (watchable : before.Watchable) :
    before.WatchExact view := by
  intro answer answered
  simp only [watchFrom, bind_eq_ok, ensure_eq_ok] at answered
  obtain ⟨-, timely, same⟩ := answered
  have new : ∀ event ∈ events, before.lastSequence < event.sequence := by
    intro event member
    have numbered : event.sequence ∈ events.map ViewEvent.sequence := mem_map_of_mem member
    rw [follows.catches.numbers, Ico.mem] at numbered
    omega
  suffices given : view.watch.filter (fun event => before.lastSequence < event.sequence) =
      events by
    rw [given] at same
    exact Except.ok.inj same ▸ follows.catches
  obtain ⟨dropped, parts⟩ := follows.kept
  rcases append_eq_append_iff.mp parts with ⟨seen, held, kept⟩ | ⟨missed, -, rfl⟩
  · have earlier : seen.filter (fun event => before.lastSequence < event.sequence) = [] := by
      apply filter_eq_nil_iff.mpr
      intro event member
      simpa using watchable.known event (held ▸ mem_append_right _ member)
    rw [kept, filter_append, earlier, nil_append]
    exact filter_eq_self.mpr fun event member => by simpa using new event member
  · cases missed with
    | nil => exact filter_eq_self.mpr fun event member => by simpa using new event member
    | cons next missed =>
      -- the first event that is kept would come after one that the watcher has not seen
      obtain ⟨first, rest, watch⟩ := exists_cons_of_ne_nil (follows.nonempty (by simp))
      have increasing := Ico.pairwise_lt (before.lastSequence + 1) (view.lastSequence + 1)
      rw [← follows.catches.numbers, watch] at increasing
      have later : next.sequence < first.sequence :=
        rel_of_pairwise_cons increasing (by simp)
      have after := new next (by simp)
      have early := saturatingSucc_le before.lastSequence
      simp only [watch, head?_cons, Option.all_some, decide_eq_true_eq] at timely
      omega

/-- The view can be watched, and is what the events since the earlier view made of it. -/
def Tracks (before view : MaterializedView) : Prop :=
  view.Watchable ∧ ∃ events, before.Follows view events

theorem Tracks.recount (tracks : before.Tracks view) (count : ℕ) :
    before.Tracks { view with updatesSinceCheckpoint := count } := by
  obtain ⟨watchable, events, follows⟩ := tracks
  exact ⟨⟨watchable.known, watchable.capacity⟩, events, follows.later,
    ⟨follows.catches.numbers, follows.catches.entries⟩, follows.kept, follows.nonempty⟩

theorem Tracks.of_uncounted {after : MaterializedView} (tracks : before.Tracks view)
    (same : after.uncounted = view.uncounted) : before.Tracks after := by
  have recounted := (tracks.recount 0).recount after.updatesSinceCheckpoint
  have contents : after = { view.uncounted with
      updatesSinceCheckpoint := after.updatesSinceCheckpoint } := by
    rw [← same]
    rfl
  rw [contents]
  exact recounted

theorem Tracks.take (tracks : before.Tracks view) (room : view.lastSequence < u64Max) :
    before.Tracks (view.take update) := by
  obtain ⟨watchable, events, follows⟩ := tracks
  exact ⟨watchable.take room, _, follows.take watchable room⟩

theorem Watchable.tracks (watchable : view.Watchable) : view.Tracks view :=
  ⟨watchable, [], le_rfl, ⟨by simp, rfl⟩, by simp, by simp⟩

end MaterializedView

namespace StoredView

/-- Updates may be applied as long as there are numbers, and the view may be opened where
its files hold it. A snapshot may be restored and the view may be rebuilt if that is
refused, or leaves the view as it is. -/
def Watched (json : ViewJson) (stored : StoredView) : ViewAction → Prop
  | .apply _ => stored.view.lastSequence < u64Max
  | .reopen => stored.Kept json
  | action => (stored.next json action).view.uncounted = stored.view.uncounted

open MaterializedView

variable {json : ViewJson} {stored : StoredView} {action : ViewAction}

/-- One call. -/
theorem tracks_next {before : MaterializedView} (watched : stored.Watched json action)
    (tracks : before.Tracks stored.view) : before.Tracks (stored.next json action).view := by
  cases action with
  | apply update =>
    cases applied : apply json update stored with
    | mk after answer =>
      have performed : stored.next json (.apply update) = after := by
        simp only [next, perform, Procedure.bind_apply, applied]
        cases answer <;> rfl
      rw [performed]
      rcases apply_cases tracks.1.capacity applied with ⟨rfl, -⟩ | ⟨-, rfl⟩
      · exact tracks
      · rw [updated]
        split
        · exact (tracks.take watched).recount 0
        · exact (tracks.take watched).recount _
  | reopen =>
    obtain ⟨files, opens⟩ := watched.openView_eq
    simp only [next, perform, reopen, opens]
    exact tracks.recount 0
  | rebuild history => exact tracks.of_uncounted watched
  | restore snapshot => exact tracks.of_uncounted watched

/-- In runs of watched calls no watcher misses an event. -/
theorem neverMisses_watched (json : ViewJson) {tenant name : String} {limits : ViewLimits}
    {files : ViewFiles} {view : MaterializedView} {before after : StoredView}
    (opens : openView json tenant name limits ⟨none, none⟩ = (files, .ok view))
    (earlier : GuardedRuns.Reaches (next json) (Watched json) ⟨view, files⟩ before)
    (later : GuardedRuns.Reaches (next json) (Watched json) before after) :
    before.view.WatchExact after.view := by
  have fresh : view.Watchable := by
    obtain ⟨rfl, capacity⟩ := new_ok (openView_new opens).1
    exact ⟨by simp, capacity⟩
  have watchable : before.view.Watchable :=
    (earlier.invariant (fun stored => view.Tracks stored.view)
      (fun _ _ watched tracks => tracks_next watched tracks) fresh.tracks).1
  obtain ⟨-, events, follows⟩ := later.invariant (fun stored => before.view.Tracks stored.view)
    (fun _ _ watched tracks => tracks_next watched tracks) watchable.tracks
  exact follows.watchExact watchable

/-- A watcher has seen the first of two updates. The view keeps only one event, and is
opened again before the watcher asks. -/
theorem neverMisses_reopened :
    let seen := next ordersJson ⟨smallView, ⟨none, none⟩⟩ (.apply (orderUpdate "orders.a" 0))
    let after := next ordersJson (next ordersJson seen (.apply (orderUpdate "orders.a" 1))) .reopen
    after.view.watchFrom 1 = .ok [⟨2, orderUpdate "orders.a" 1⟩] ∧
      seen.view.WatchExact after.view := by
  refine ⟨by decide +kernel, ?_⟩
  refine neverMisses_watched ordersJson (smallView_opens _)
    (.step (.apply (orderUpdate "orders.a" 0)) (Nat.zero_lt_succ _) (.refl _))
    (.step (.apply (orderUpdate "orders.a" 1)) (by decide +kernel : 1 < u64Max)
      (.step .reopen ?_ (.refl _)))
  refine kept_of_settling (smallView_opens ordersJson)
    (.step (.apply (orderUpdate "orders.a" 0))
      ⟨rfl, .inr (.inr ⟨rfl, ordersJson_short (by decide) (by decide)⟩)⟩
      (.step (.apply (orderUpdate "orders.a" 1))
        ⟨rfl, .inr (.inr ⟨rfl, ordersJson_short (by decide) (by decide)⟩)⟩ (.refl _)))

/-- A snapshot that has come to its first event is restored in a new view, and a watcher
of the new view is told that there is nothing new. -/
theorem restored_snapshot_missed : ∃ json after,
    openView json "default" "orders" ⟨1, 8, 1⟩ ⟨none, none⟩ = (⟨none, none⟩, .ok smallView) ∧
    GuardedRuns.Reaches (next json) (fun stored action => stored.Succeeds json action)
      ⟨smallView, ⟨none, none⟩⟩ after ∧ ¬ smallView.WatchExact after.view := by
  refine ⟨ordersJson, _, smallView_opens _,
    .step (.restore { smallView.snapshot with lastSequence := 1 }) rfl (.refl _), ?_⟩
  intro exact
  exact absurd (exact [] rfl).numbers (by decide)

end StoredView

end Morrow
