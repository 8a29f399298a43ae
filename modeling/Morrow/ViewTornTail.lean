import Morrow.ViewRestart

/-!
# Views whose journal is cut

A crash may leave only the first bytes of a view's journal. As long as there is no
snapshot, the view is opened with the complete events if at most three bytes follow them.
What is applied to it afterwards is found again if no bytes follow, or if it ends with a
checkpoint.

If more is left of an event, opening the view fails: only an incomplete length counts as
the end of the journal. Fewer bytes are passed over, but they stay in the file, in front
of the events that are journaled next. Where there is a snapshot, the journal is removed
unread.
-/

namespace Morrow

open ByteCodec FramedLog MaterializedView Procedure List

/-- What is left of the files when the journal is cut. -/
def ViewFiles.cut (files : ViewFiles) (count : ℕ) : ViewFiles :=
  { files with delta := files.delta.map (take count) }

theorem ViewFiles.cut_delta (files : ViewFiles) (count : ℕ) :
    (files.cut count).delta.getD [] = (files.delta.getD []).take count := by
  rw [cut]
  cases files.delta <;> simp

namespace StoredView

variable (json : ViewJson)

/-- The cut files are opened as the snapshot with the events that are still complete. If
updates are applied then, opening the view again gives all of it. -/
def RecoversCut (stored : StoredView) (count : ℕ) (later : List ViewUpdate) : Prop :=
  let opened := openView json stored.view.tenant stored.view.name stored.view.limits
  ∃ base events expected files view,
    (opened ⟨stored.files.durable, none⟩).2 = .ok base ∧
    stored.files.delta.getD [] = encodeAll json.encodeEvent events ∧
    (completeWithin json.encodeEvent count events).foldlM applyReplayed base = .ok expected ∧
    opened (stored.files.cut count) = (files, .ok view) ∧ view.SameContents expected ∧
    ∀ after, applyAll json later ⟨view, files⟩ = (after, .ok ()) → after.SurvivesRestart json

/-- The cut does no harm. Without a snapshot it leaves less than four bytes of an event;
of the updates that follow as many are new as come to a checkpoint, or none is, or no
bytes are left and they come to no checkpoint. With a snapshot it leaves no complete
event, and as many new updates follow as come to a checkpoint. -/
def CutHarmless (stored : StoredView) (events : List ViewEvent) (count : ℕ)
    (later : List ViewUpdate) : Prop :=
  match stored.files.durable with
  | none => ∃ opened,
    (completeWithin json.encodeEvent count events).foldlM applyReplayed stored.view.blank =
      .ok opened ∧
    (cutRecord json.encodeEvent count events).length < 4 ∧
    ((opened.taking later).length % viewCheckpointInterval = 0 ∨
      cutRecord json.encodeEvent count events = [] ∧
        (opened.taking later).length < viewCheckpointInterval)
  | some bytes => ∃ durable journaled, bytes = json.durable.toVec durable ∧
    stored.files.delta.getD [] = encodeAll json.encodeEvent journaled ∧
    completeWithin json.encodeEvent count journaled = [] ∧
    0 < ((ofSnapshot stored.view.limits durable).taking later).length ∧
    ((ofSnapshot stored.view.limits durable).taking later).length % viewCheckpointInterval = 0

variable {json} {stored after : StoredView} {events : List ViewEvent} {update : ViewUpdate}
  {updates : List ViewUpdate}

/-! ### Before the cut -/

/-- What updates make of a new view and its files. Without a snapshot the journal has all
their events, and any first ones of them give a view within the limits. A snapshot is that
of an earlier view. -/
structure Recorded (json : ViewJson) (stored : StoredView) (events : List ViewEvent) : Prop where
  within : stored.view.WithinLimits
  unsaved : stored.files.durable = none →
    stored.files.delta.getD [] = encodeAll json.encodeEvent events ∧
    (∀ event ∈ events, json.Short event) ∧
    ∀ front, front <+: events → ∃ opened,
      front.foldlM applyReplayed stored.view.blank = .ok opened ∧ opened.WithinLimits ∧
      opened.lastSequence ≤ u64Max ∧ (front = events → opened = stored.view.uncounted)
  saved : ∀ bytes, stored.files.durable = some bytes → ∃ saved : MaterializedView,
    saved.WithinLimits ∧ saved.blank = stored.view.blank ∧
      bytes = json.durable.toVec ⟨saved.snapshot, saved.watch⟩

theorem Recorded.take (recorded : stored.Recorded json events) (takes : stored.Takes update)
    (short : json.Short (stored.view.nextEvent update)) :
    (stored.updated json update).Recorded json (events ++ [stored.view.nextEvent update]) := by
  have within := @Takes.within json _ _ takes recorded.within
  by_cases due : viewCheckpointInterval ≤ saturatingSucc stored.view.updatesSinceCheckpoint
  · have files := @updated_saved json stored update due
    refine ⟨within, ?_, ?_⟩
    · rw [files]
      intro none
      cases none
    · rw [files]
      rintro bytes ⟨⟩
      exact ⟨_, within, rfl, rfl⟩
  · have shape : stored.updated json update = ⟨{ stored.view.take update with
        updatesSinceCheckpoint := saturatingSucc stored.view.updatesSinceCheckpoint },
        { stored.files with delta := some (stored.files.delta.getD [] ++
          json.encodeEvent (stored.view.nextEvent update)) }⟩ := if_neg due
    rw [shape] at within ⊢
    refine ⟨within, fun none => ?_, recorded.saved⟩
    obtain ⟨written, shorter, fronts⟩ := recorded.unsaved none
    refine ⟨by simp [written, encodeAll_append], forall_mem_concat.mpr ⟨shorter, short⟩, ?_⟩
    intro front initial
    rcases prefix_concat_iff.mp initial with rfl | initial
    · obtain ⟨opened, whole, before, bounded, same⟩ := fronts events prefix_rfl
      obtain rfl := same rfl
      have last : stored.view.uncounted.applyReplayed (stored.view.nextEvent update) =
          .ok (stored.view.uncounted.take update) := applyReplayed_nextEvent takes.valid bounded
      refine ⟨stored.view.uncounted.take update, ?_, before.take takes.valid takes.room,
        saturatingSucc_le_max _, fun _ => rfl⟩
      change (events ++ [_]).foldlM applyReplayed stored.view.blank = _
      rw [foldlM_append, whole, ok_bind, foldlM_cons, last]
      rfl
    · obtain ⟨opened, replayed, before, bounded, -⟩ := fronts front initial
      refine ⟨opened, replayed, before, bounded, fun longer => ?_⟩
      have length := initial.length_le
      rw [longer, length_append, length_singleton] at length
      omega

/-- Every sequence of updates. -/
theorem Recorded.applyAll (recorded : stored.Recorded json events)
    (short : ∀ update ∈ updates, ∀ sequence ≤ u64Max, json.Short ⟨sequence, update⟩)
    (applied : StoredView.applyAll json updates stored = (after, .ok ())) :
    after.Recorded json (events ++ stored.view.taking updates) := by
  induction updates generalizing stored events with
  | nil =>
    cases applied
    rwa [taking, append_nil]
  | cons update updates ih =>
    obtain ⟨middle, answer, first, rest⟩ := Procedure.bind_eq_ok.mp applied
    obtain ⟨new, shorter⟩ := forall_mem_cons.mp short
    have done := apply_ok recorded.within.capacity first
    rw [taking]
    split at done
    · obtain ⟨takes, rfl⟩ := done
      have later := ih (recorded.take takes (new _ (saturatingSucc_le_max _))) shorter rest
      rw [taking_updated, append_assoc, singleton_append] at later
      rwa [if_pos takes.newer]
    · subst done
      rw [if_neg ‹_›]
      exact ih recorded shorter rest

/-- A view that was just created. -/
theorem recorded_new {tenant name : String} {limits : ViewLimits} {files : ViewFiles}
    {view : MaterializedView}
    (opens : openView json tenant name limits ⟨none, none⟩ = (files, .ok view)) :
    Recorded json ⟨view, files⟩ [] := by
  have within := (kept_of_new opens).within
  obtain ⟨created, rfl⟩ := openView_new opens
  obtain ⟨rfl, -⟩ := new_ok created
  refine ⟨within, fun _ => ⟨rfl, forall_mem_nil _, ?_⟩, fun bytes absent => by cases absent⟩
  intro front initial
  obtain rfl := prefix_nil.mp initial
  exact ⟨_, rfl, within, Nat.zero_le _, fun _ => rfl⟩

/-! ### After the cut -/

/-- What replaying events keeps of a view. -/
theorem replayed_keeps {events : List ViewEvent} {view result : MaterializedView}
    (replayed : events.foldlM applyReplayed view = .ok result) :
    result.blank = view.blank ∧ result.updatesSinceCheckpoint = view.updatesSinceCheckpoint := by
  induction events generalizing view with
  | nil =>
    obtain rfl := Except.ok.inj replayed
    exact ⟨rfl, rfl⟩
  | cons event events ih =>
    obtain ⟨middle, first, rest⟩ := bind_eq_ok.mp replayed
    simp only [applyReplayed, bind_eq_ok] at first
    obtain ⟨-, -, same⟩ := first
    obtain rfl := Except.ok.inj same
    obtain ⟨blank, counted⟩ := ih rest
    exact ⟨blank, counted⟩

variable {count : ℕ} {later : List ViewUpdate}
  (short : ∀ update ∈ later, ∀ sequence ≤ u64Max, json.Short ⟨sequence, update⟩)
  (harmless : stored.CutHarmless json events count later)

include short harmless in
/-- Without a snapshot the complete events are replayed. -/
theorem Recorded.recovers_unsaved (recorded : Recorded json stored events)
    (unsaved : stored.files.durable = none) : stored.RecoversCut json count later := by
  simp only [CutHarmless, unsaved] at harmless
  obtain ⟨opened, complete, ended, ends⟩ := harmless
  obtain ⟨written, shorter, fronts⟩ := recorded.unsaved unsaved
  have left := stored.files.cut_delta count
  rw [written, take_encodeAll] at left
  have initial := completeWithin_initial json.encodeEvent count events
  have completeShort := fun event member => shorter event (initial.subset member)
  obtain ⟨replayed, same, within, bounded, -⟩ := fronts _ initial
  obtain rfl := Except.ok.inj (complete.symm.trans same)
  obtain ⟨blank, counted⟩ := replayed_keeps complete
  have base : openView json stored.view.tenant stored.view.name stored.view.limits
      ⟨stored.files.durable, none⟩ = (⟨stored.files.durable, none⟩, .ok stored.view.blank) :=
    openView_journal recorded.within.opens unsaved (append_nil _).symm (by decide)
      (forall_mem_nil _) rfl
  have reopened : openView json stored.view.tenant stored.view.name stored.view.limits
      (stored.files.cut count) = (stored.files.cut count, .ok opened) :=
    openView_journal recorded.within.opens unsaved left ended completeShort complete
  refine ⟨_, events, opened, _, opened, congrArg Prod.snd base, written, complete, reopened,
    ⟨rfl, rfl, rfl, rfl⟩, ?_⟩
  intro after applied
  have fresh : opened.updatesSinceCheckpoint = 0 := counted
  have counts := counts_applyAll within (by rw [fresh]; decide) (.inr rfl) short applied
  have again := complete
  rw [show stored.view.blank = opened.blank from blank.symm] at again
  rcases ends with checkpoint | ⟨nothing, few⟩
  · rcases Nat.eq_zero_or_pos (opened.taking later).length with none | some
    · obtain rfl := counts.unchanged none
      exact ⟨_, _, openView_journal within.opens unsaved left ended completeShort again,
        ⟨rfl, rfl, rfl, rfl⟩⟩
    · have saved := counts.saved some (by rwa [fresh, Nat.zero_add])
      exact Kept.survives ⟨counts.within, .inr saved⟩
  · rw [nothing, append_nil] at left
    have restarted : opened.uncounted = opened := by rw [uncounted, ← fresh]
    have journaled : Journaled json ⟨opened, stored.files.cut count⟩ :=
      ⟨unsaved, bounded, _, left, completeShort, by rwa [restarted]⟩
    exact Kept.survives ⟨counts.within, .inl (counts.journaled journaled (by
      rwa [fresh, Nat.zero_add]))⟩

include short harmless in
/-- With a snapshot the journal is not read. -/
theorem Recorded.recovers_saved (recorded : Recorded json stored events) {bytes : Bytes}
    (saved : stored.files.durable = some bytes) : stored.RecoversCut json count later := by
  simp only [CutHarmless, saved] at harmless
  obtain ⟨durable, journaled, rfl, written, none, some, checkpoint⟩ := harmless
  obtain ⟨earlier, within, blank, same⟩ := recorded.saved _ saved
  obtain rfl : durable = ⟨earlier.snapshot, earlier.watch⟩ := by
    have trips := json.durable_roundTrips durable
    rw [Json.RoundTrips, same, json.durable_roundTrips] at trips
    exact (Except.ok.inj trips).symm
  obtain ⟨tenant, name, limits, -⟩ := MaterializedView.mk.inj blank
  have opens := fun files file => @openView_saved json earlier within files file
  rw [tenant, name, limits] at opens
  rw [← limits, ofSnapshot_eq within] at some checkpoint
  refine ⟨_, journaled, _, _, _,
    congrArg Prod.snd (opens ⟨stored.files.durable, Option.none⟩ saved),
    written, (by rw [none]; rfl), opens (stored.files.cut count) saved, ⟨rfl, rfl, rfl, rfl⟩, ?_⟩
  intro after applied
  have counts := counts_applyAll ⟨within.opens, within.few, within.small, within.recent⟩
    (by decide : 0 < viewCheckpointInterval) (.inr rfl) short applied
  exact Kept.survives ⟨counts.within, .inr (counts.saved some (by
    rwa [uncounted, Nat.zero_add]))⟩

/-- Whatever updates were applied to a new view, it recovers from a cut that does no
harm. -/
theorem recoversCut_of_harmless {tenant name : String} {limits : ViewLimits} {files : ViewFiles}
    {view : MaterializedView}
    (opens : openView json tenant name limits ⟨none, none⟩ = (files, .ok view))
    (applied : applyAll json updates ⟨view, files⟩ = (stored, .ok ())) {count : ℕ}
    {later : List ViewUpdate}
    (short : ∀ update ∈ updates ++ later, ∀ sequence ≤ u64Max, json.Short ⟨sequence, update⟩)
    (harmless : stored.CutHarmless json (view.taking updates) count later) :
    stored.RecoversCut json count later := by
  rw [forall_mem_append] at short
  have recorded := (recorded_new opens).applyAll short.1 applied
  rw [nil_append] at recorded
  cases durable : stored.files.durable with
  | none => exact recorded.recovers_unsaved short.2 harmless durable
  | some bytes => exact recorded.recovers_saved short.2 harmless durable

/-- Two updates of an order are journaled, the second is cut off, and it comes again. -/
theorem recoversCut_second : ∃ stored,
    applyAll ordersJson [orderUpdate "orders.a" 0, orderUpdate "orders.a" 1]
      ⟨smallView, ⟨none, none⟩⟩ = (stored, .ok ()) ∧
    stored.RecoversCut ordersJson 118 [orderUpdate "orders.a" 1] := by
  refine ⟨_, rfl, @recoversCut_of_harmless ordersJson _
    [orderUpdate "orders.a" 0, orderUpdate "orders.a" 1] _ _ _ _ _ (smallView_opens _) rfl
    118 [orderUpdate "orders.a" 1] ?_
    ⟨smallView.take (orderUpdate "orders.a" 0), by decide +kernel, by decide +kernel,
      .inr ⟨by decide +kernel, by decide +kernel⟩⟩⟩
  exact fun update member sequence => ordersJson_short (by revert update; decide)

/-- Only the length of the first event is left, and the view cannot be opened. -/
theorem header_not_recovered : ∃ json stored,
    StoredView.applyAll json [orderUpdate "orders.a" 0] ⟨smallView, ⟨none, none⟩⟩ =
        (stored, .ok ()) ∧
      ¬ stored.RecoversCut json 4 [] := by
  refine ⟨ordersJson, _, rfl, ?_⟩
  rintro ⟨base, events, expected, files, view, -, -, -, opens, -⟩
  have refused : (openView ordersJson "default" "orders" ⟨1, 8, 1⟩
      ((next ordersJson ⟨smallView, ⟨none, none⟩⟩ (.apply (orderUpdate "orders.a" 0))).files.cut
        4)).2 = .error (.error "failed to fill whole buffer") := by decide +kernel
  cases refused.symm.trans (congrArg Prod.snd opens)

end StoredView

end Morrow
