import Morrow.WalRecovery

/-!
# Recovery from a torn tail

A crash leaves the active segment cut at some length. Recovery keeps the records
that are complete, and must leave the file such that records appended later are
read back behind them.

A cut inside the body or the checksum of a record is noticed and cut away. A cut
inside the four bytes of a length field is taken for the end of the segment and
stays in the file. The next record is then written behind the stray bytes, its
length is read from the wrong place, and the record is lost at the next start; if
the segment has been sealed by then, the log cannot be opened any more. The stray
bytes do no harm only if every record goes to a new segment.
-/

namespace Morrow

open ByteCodec FramedLog List

variable {json : WalJson}

/-- A log whose active segment, written as given, is cut at or behind its header. -/
structure CutLog (json : WalJson) where
  directory : WalDirectory json
  written : List (StoredRecord json)
  cut : ℕ
  header : segmentHeader.length ≤ cut
  within : cut ≤ (segmentFile written []).length

namespace CutLog

variable (log : CutLog json)

/-- The directory after the crash. -/
def files : OrderedMap ℕ Bytes :=
  log.directory.filesWith ((segmentFile log.written []).take log.cut)

/-- The records that lie completely before the cut. -/
def complete : List (StoredRecord json) :=
  completeWithin StoredRecord.encode (log.cut - segmentHeader.length) log.written

/-- What the cut leaves of the record it falls into. -/
def leftover : Bytes :=
  cutRecord StoredRecord.encode (log.cut - segmentHeader.length) log.written

/-- The records that survive the crash. -/
def survivors : List (StoredRecord json) :=
  sealedRecords log.directory.sealedImages ++ log.complete

/-- The log opens with exactly the surviving records, and whatever is appended
afterwards is found behind them at the next opening. -/
def Recovers (dir : String) (segmentBytes : ℕ) : Prop :=
  ∃ wal replay, Wal.open json dir segmentBytes log.files = .ok (wal, replay) ∧
    Replays log.survivors replay ∧
    ∀ further : List (StoredRecord json), ∃ later reopened replayed,
      wal.appendAll json dir (plainRecords further) = .ok later ∧
      Wal.open json dir segmentBytes later.files = .ok (reopened, replayed) ∧
      Replays (log.survivors ++ further) replayed

/-- The cut is not inside a length field, or else every record, the smallest of
which takes thirteen bytes, needs a new segment. -/
def Noticed (segmentBytes : ℕ) : Prop :=
  log.cut - segmentEnd log.complete ∉ Finset.Icc 1 3 ∨
    segmentHeader.length < segmentEnd log.complete ∧ segmentBytes < segmentEnd log.complete + 13

theorem files_eq : log.files = log.directory.filesWith (segmentFile log.complete log.leftover) := by
  have cut : (segmentFile log.written []).take log.cut = segmentFile log.complete log.leftover := by
    rw [segmentFile, append_nil, take_append, take_of_length_le log.header, take_encodeAll]
    rfl
  rw [files, cut]

theorem leftover_length : log.leftover.length = log.cut - segmentEnd log.complete := by
  have cut := congrArg List.length
    (take_encodeAll StoredRecord.encode (log.cut - segmentHeader.length) log.written)
  have within := log.within
  rw [length_take, length_append] at cut
  rw [segmentFile, append_nil, length_append] at within
  simp only [leftover, complete, segmentEnd]
  omega

/-- A cut behind the length field is noticed. -/
theorem leftover_torn (long : 4 ≤ log.leftover.length) : readRecord log.leftover = .torn := by
  rcases cutRecord_cases StoredRecord.encode (log.cut - segmentHeader.length) log.written with
    none | ⟨stored, -, front, strict⟩
  · have empty : log.leftover = [] := none
    rw [empty] at long
    cases long
  · exact readRecord_cut stored.storable.short front long strict

/-! ### Cuts that are noticed -/

variable {segmentBytes : ℕ}

/-- Once the log holds the survivors, it goes on as it should. -/
theorem recovers_of_holds {dir : String} (positive : 0 < segmentBytes) {wal : Wal} {replay : Replay}
    (opens : Wal.open json dir segmentBytes log.files = .ok (wal, replay))
    (replays : Replays log.survivors replay) (holds : Holds segmentBytes wal log.survivors) :
    log.Recovers dir segmentBytes := by
  refine ⟨wal, replay, opens, replays, ?_⟩
  intro further
  obtain ⟨later, appended, held⟩ := holds.appendAll dir further
  obtain ⟨reopened, replayed, reopens, all⟩ := held.reopen positive dir
  exact ⟨later, reopened, replayed, appended, reopens, all⟩

/-- A cut that leaves nothing, or enough to be noticed. -/
theorem recovers_of_outside (positive : 0 < segmentBytes) (dir : String)
    (outside : log.cut - segmentEnd log.complete ∉ Finset.Icc 1 3) :
    log.Recovers dir segmentBytes := by
  have length := log.leftover_length
  rw [Finset.mem_Icc] at outside
  obtain ⟨torn, stops, left⟩ : ∃ torn : Bool,
      (readRecord log.leftover = if torn then .torn else .ended) ∧
        (if torn then [] else log.leftover) = [] := by
    by_cases empty : log.leftover = []
    · exact ⟨false, by rw [empty]; rfl, empty⟩
    · have positive := length_pos_iff.mpr empty
      exact ⟨true, log.leftover_torn (by omega), rfl⟩
  obtain ⟨wal, replay, opens, replays, stores⟩ :=
    open_tail positive dir log.directory log.complete stops
  rw [← log.files_eq] at opens
  rw [left] at stores
  exact log.recovers_of_holds positive opens replays ⟨log.directory, log.complete, stores, rfl⟩

/-- The segment as a cut inside a length field leaves it. -/
def strayImage (few : log.leftover.length < 4) : SegmentImage json :=
  ⟨log.complete, log.leftover, few⟩

/-- Such a log opens with its survivors, and the stray bytes stay in the file. -/
theorem open_stray (positive : 0 < segmentBytes) (dir : String) (few : log.leftover.length < 4) :
    ∃ wal replay, Wal.open json dir segmentBytes log.files = .ok (wal, replay) ∧
      Replays log.survivors replay ∧
      Stores segmentBytes wal log.directory (log.strayImage few).file
        (segmentEnd log.complete) := by
  have ends : readRecord log.leftover = if false then .torn else .ended := readRecord_short few
  have opens := open_tail positive dir log.directory log.complete ends
  rwa [← log.files_eq] at opens

/-- Stray bytes are left behind in a sealed segment when every record rotates. -/
theorem recovers_of_rotating (positive : 0 < segmentBytes) (dir : String)
    (few : log.leftover.length < 4) (nonempty : segmentHeader.length < segmentEnd log.complete)
    (full : segmentBytes < segmentEnd log.complete + 13) : log.Recovers dir segmentBytes := by
  obtain ⟨wal, replay, opens, replays, stores⟩ := log.open_stray positive dir few
  refine ⟨wal, replay, opens, replays, ?_⟩
  intro further
  cases further with
  | nil =>
    have same : wal.files = log.files := by rw [stores.files, log.files_eq]; rfl
    refine ⟨wal, wal, replay, rfl, ?_, ?_⟩
    · rw [same, opens]
    · rwa [append_nil]
  | cons stored further =>
    have rotates : wal.Rotates stored.encode.length := by
      have size := stored.encode_length_ge
      rw [Wal.Rotates, stores.activeBytes, stores.segmentBytes]
      exact ⟨nonempty, by omega⟩
    obtain ⟨next, appended, held⟩ := stores.holds_of_rotates dir rotates
    obtain ⟨later, rest, heldAll⟩ := held.appendAll dir further
    obtain ⟨reopened, replayed, reopens, all⟩ := heldAll.reopen positive dir
    refine ⟨later, reopened, replayed, ?_, reopens, ?_⟩
    · simp only [plainRecords, map_cons, Wal.appendAll, appended, ok_bind]
      exact rest
    · rwa [append_assoc] at all

end CutLog

/-! ### Cuts that are not noticed -/

theorem not_encrypted {body : Bytes} (front : body.head? ≠ some 77) :
    ¬ walEncryptedMagic <+: body := by
  rintro ⟨rest, rfl⟩
  exact front rfl

theorem emptyText_fits : (WalField.text "").Fits := Nat.zero_le _

/-- The smallest record: the deletion of a consumer with an empty name. -/
def smallRecord (json : WalJson) : StoredRecord json where
  record := .consumerDelete ""
  storable := {
    fits := by
      intro field member
      rw [mem_singleton.mp member]
      exact emptyText_fits
    kept := trivial
    short := show 4 < u32Max by decide
    long := show 4 ≤ 4 from le_refl 4
    plain := not_encrypted (show some 0 ≠ some (77 : UInt8) by decide)
    counted := by simp [WalRecord.counters] }

/-- A record that a replay shows: message 0 was appended at the given offset. -/
def shownRecord (json : WalJson) (offset : Fin 2) : StoredRecord json where
  record := .partitionAppend ⟨0, "", 0, offset, ""⟩
  storable := {
    fits := by
      have offsets : (offset : ℕ) < 2 ^ 64 := lt_trans offset.isLt (by decide)
      simp only [WalRecord.fields, forall_mem_cons, WalField.Fits]
      exact ⟨by decide, emptyText_fits, by decide, offsets, emptyText_fits, by simp⟩
    kept := trivial
    short := show 28 < u32Max by decide
    long := show 4 ≤ 28 by decide
    plain := not_encrypted (show some 0 ≠ some (77 : UInt8) by decide)
    counted := by
      intro counter member
      rw [mem_singleton.mp member]
      exact (by decide : 0 < u64Max) }

theorem shownRecord_length (json : WalJson) (offset : Fin 2) :
    (shownRecord json offset).encode.length = 37 := rfl

/-- A log whose last segment but one is torn does not open. -/
theorem open_sealed_torn {segmentBytes : ℕ} (positive : 0 < segmentBytes) (dir : String)
    (directory : WalDirectory json) (records : List (StoredRecord json)) {tail : Bytes}
    (torn : readRecord tail = .torn) (active : Bytes) :
    Wal.open json dir segmentBytes
        ((directory.filesWith (segmentFile records tail)).insert (directory.activeId + 1) active) =
      .error (.error s!"truncated sealed WAL segment {segmentPath dir directory.activeId}") := by
  have entries : ((directory.filesWith (segmentFile records tail)).insert
      (directory.activeId + 1) active).entries =
      directory.sealedImages.entries.map (fun entry => (entry.1, entry.2.file)) ++
        [(directory.activeId, segmentFile records tail), (directory.activeId + 1, active)] := by
    rw [OrderedMap.entries_insert_above, directory.entries_filesWith, append_assoc]
    · rfl
    · intro entry member
      rw [directory.entries_filesWith, mem_append, mem_singleton] at member
      rcases member with earlier | rfl
      · obtain ⟨source, listed, rfl⟩ := mem_map.mp earlier
        exact Nat.lt_succ_of_lt (directory.above source listed)
      · exact Nat.lt_succ_self _
  have present : withFirstSegment ((directory.filesWith (segmentFile records tail)).insert
      (directory.activeId + 1) active) =
      (directory.filesWith (segmentFile records tail)).insert (directory.activeId + 1) active := by
    rw [withFirstSegment, entries]
    simp
  have highest : ((directory.filesWith (segmentFile records tail)).insert
      (directory.activeId + 1) active).lastKey? = some (directory.activeId + 1) := by
    rw [OrderedMap.lastKey?, OrderedMap.keys, entries]
    simp
  have other : decide (directory.activeId = directory.activeId + 1) = false := by simp
  simp only [Wal.open, ensure_of positive, ok_bind, present, highest, Option.getD_some, entries,
    replaySegments_append, replaySegments_images, replaySegments, other,
    replaySegment_sealed_torn dir torn, error_bind]

/-- Whatever is appended to an open log is found behind its records at the next
opening. -/
def Continues (dir : String) (segmentBytes : ℕ) (wal : Wal) (all : List (StoredRecord json)) :
    Prop :=
  ∀ further : List (StoredRecord json), ∃ later reopened replayed,
    wal.appendAll json dir (plainRecords further) = .ok later ∧
    Wal.open json dir segmentBytes later.files = .ok (reopened, replayed) ∧
    Replays (all ++ further) replayed

section Stray

variable {segmentBytes : ℕ} {wal : Wal} {directory : WalDirectory json}
  {records : List (StoredRecord json)} {stray : Bytes}

section

variable
  (stores : Stores segmentBytes wal directory (segmentFile records stray) (segmentEnd records))

include stores

/-- A small record written behind stray bytes cannot be read. -/
theorem Stores.append_stray (dir : String) (stored : StoredRecord json)
    (stays : ¬ wal.Rotates stored.encode.length) (some : stray ≠ []) (few : stray.length < 4)
    (small : (stored.record.body json).length < 255) :
    ∃ next, wal.append json dir stored.record = .ok next ∧
      Stores segmentBytes next directory (segmentFile records (stray ++ stored.encode))
        (segmentEnd records + stored.encode.length) ∧
      readRecord (stray ++ stored.encode) = .torn := by
  obtain ⟨next, appended, written⟩ := stores.append_writing dir stays
  refine ⟨next, appended, ?_, readRecord_stray some few small _⟩
  have file : segmentFile records stray ++ stored.encode =
      segmentFile records (stray ++ stored.encode) := by
    simp [segmentFile]
  rwa [file] at written

/-- If a visible record fits the segment, it is lost. -/
theorem Stores.lost_of_stays (positive : 0 < segmentBytes) {dir : String} (stays : ¬ wal.Rotates 37)
    (some : stray ≠ []) (few : stray.length < 4) :
    ∃ offset, ¬ ∃ later reopened replayed,
      wal.appendAll json dir (plainRecords [shownRecord json offset]) = .ok later ∧
      Wal.open json dir segmentBytes later.files = .ok (reopened, replayed) ∧
      Replays (sealedRecords directory.sealedImages ++ records ++ [shownRecord json offset])
        replayed := by
  let state := ReplayState.empty.applyAll
    (plainRecords (sealedRecords directory.sealedImages ++ records))
  obtain ⟨offset, absent⟩ : ∃ offset : Fin 2,
      state.partitionAppends.get? 0 ≠ Option.some ⟨0, "", 0, offset, ""⟩ := by
    by_contra always
    simp only [not_exists, ne_eq, not_not] at always
    have same := (always 0).symm.trans (always 1)
    simp at same
  refine ⟨offset, ?_⟩
  rintro ⟨later, reopened, replayed, appendedAll, reopens, replays⟩
  obtain ⟨next, appended, written, torn⟩ := stores.append_stray dir (shownRecord json offset)
    stays some few (show 28 < 255 by decide)
  simp only [plainRecords, map_cons, map_nil, Wal.appendAll, appended, ok_bind,
    Except.ok.injEq] at appendedAll
  subst appendedAll
  have stops : readRecord (stray ++ (shownRecord json offset).encode) =
      if true then .torn else .ended := torn
  obtain ⟨again, found, opens, survivors, -⟩ := open_tail positive dir directory records stops
  rw [← written.files, reopens] at opens
  injection opens with pair
  obtain ⟨-, rfl⟩ := Prod.mk.inj pair
  have kept : replayed.partitionAppends = state.partitionAppends :=
    (ReplayState.finish_fields survivors).1
  have shown := (ReplayState.finish_fields replays).1
  rw [plainRecords_append, ReplayState.applyAll_append] at shown
  apply absent
  rw [← kept, shown]
  exact OrderedMap.get?_insert_self _ _ _

/-- If a visible record does not fit but the smallest one does, the log does not
open after both have been written. -/
theorem Stores.fails_of_rotates (positive : 0 < segmentBytes) {dir : String}
    (rotates : wal.Rotates 37) (stays : ¬ wal.Rotates 13) (some : stray ≠ [])
    (few : stray.length < 4) {later : Wal}
    (appendedAll : wal.appendAll json dir
      (plainRecords [smallRecord json, shownRecord json 0]) = .ok later) :
    ∃ failure, Wal.open json dir segmentBytes later.files = .error failure := by
  obtain ⟨next, appended, written, torn⟩ := stores.append_stray dir (smallRecord json)
    stays some few (show 4 < 255 by decide)
  have full : next.Rotates (shownRecord json 0).encode.length := by
    rw [Wal.Rotates, stores.activeBytes, stores.segmentBytes] at rotates
    rw [Wal.Rotates, written.activeBytes, written.segmentBytes, shownRecord_length]
    omega
  obtain ⟨last, appendedLast, files, -⟩ := written.append_rotating dir full
  simp only [plainRecords, map_cons, map_nil, Wal.appendAll, appended, appendedLast,
    ok_bind, Except.ok.injEq] at appendedAll
  subst appendedAll
  rw [files]
  exact ⟨_, open_sealed_torn positive dir directory records torn _⟩

/-- Stray bytes lose records, or the whole log, unless every record rotates. -/
theorem Stores.not_continues_of_stray (positive : 0 < segmentBytes) (dir : String)
    (stays : ¬ wal.Rotates 13) (some : stray ≠ []) (few : stray.length < 4) :
    ¬ Continues dir segmentBytes wal (sealedRecords directory.sealedImages ++ records) := by
  intro continues
  by_cases rotates : wal.Rotates 37
  · obtain ⟨later, reopened, replayed, appended, reopens, -⟩ :=
      continues [smallRecord json, shownRecord json 0]
    obtain ⟨failure, fails⟩ := stores.fails_of_rotates positive rotates stays some few appended
    rw [fails] at reopens
    cases reopens
  · obtain ⟨offset, lost⟩ := stores.lost_of_stays positive rotates some few
    exact lost (continues [shownRecord json offset])

end

end Stray

namespace CutLog

variable (log : CutLog json)

/-- A cut inside a length field loses records, or the whole log. -/
theorem not_recovers {segmentBytes : ℕ} (positive : 0 < segmentBytes) (dir : String)
    (inside : log.cut - segmentEnd log.complete ∈ Finset.Icc 1 3)
    (room : ¬ (segmentHeader.length < segmentEnd log.complete ∧
      segmentBytes < segmentEnd log.complete + 13)) : ¬ log.Recovers dir segmentBytes := by
  rw [Finset.mem_Icc, ← log.leftover_length] at inside
  have few : log.leftover.length < 4 := by omega
  have some : log.leftover ≠ [] := length_pos_iff.mp inside.1
  obtain ⟨opened, first, opens, -, stores⟩ := log.open_stray positive dir few
  rintro ⟨wal, replay, recovered, -, further⟩
  rw [opens] at recovered
  injection recovered with pair
  obtain ⟨rfl, -⟩ := Prod.mk.inj pair
  have stays : ¬ opened.Rotates 13 := by
    rwa [Wal.Rotates, stores.activeBytes, stores.segmentBytes]
  exact stores.not_continues_of_stray positive dir stays some few further

/-- A crash is recovered from exactly when its cut is noticed. -/
theorem tornTail_iff {segmentBytes : ℕ} (positive : 0 < segmentBytes) (dir : String) :
    log.Recovers dir segmentBytes ↔ log.Noticed segmentBytes := by
  constructor
  · intro recovers
    by_contra unnoticed
    rw [Noticed, not_or, not_not] at unnoticed
    exact log.not_recovers positive dir unnoticed.1 unnoticed.2 recovers
  · rintro (outside | ⟨nonempty, full⟩)
    · exact log.recovers_of_outside positive dir outside
    · by_cases outside : log.cut - segmentEnd log.complete ∈ Finset.Icc 1 3
      · rw [Finset.mem_Icc, ← log.leftover_length] at outside
        exact log.recovers_of_rotating positive dir (by omega) nonempty full
      · exact log.recovers_of_outside positive dir outside

end CutLog

/-! ### A single deletion, cut -/

/-- A JSON library that writes nothing; the records below hold no JSON. -/
def silentJson : WalJson :=
  let silent {α : Type} : Json α := ⟨fun _ => [], fun _ => .error "no JSON"⟩
  ⟨silent, silent, silent, silent, silent, silent, silent⟩

/-- A fresh log with one small record, cut at the given distance behind its header. -/
def cutDeletion (distance : ℕ) (within : distance ≤ 13) : CutLog silentJson where
  directory := ⟨∅, 1, by simp⟩
  written := [smallRecord silentJson]
  cut := 11 + distance
  header := Nat.le_add_right _ _
  within := Nat.add_le_add_left within 11

namespace CutLog

theorem tornTail_iff_checksum : (cutDeletion 10 (by decide)).Recovers "data/wal" 67108864 :=
  (tornTail_iff (cutDeletion 10 (by decide)) (by decide) "data/wal").mpr (.inl (by decide))

/-- Two bytes of the length field survive, and the next record is lost. -/
theorem length_field_cut_loses_record :
    ¬ (cutDeletion 2 (by decide)).Recovers "data/wal" 67108864 :=
  not_recovers _ (by decide) "data/wal" (by decide) (by decide)

end CutLog

end Morrow
