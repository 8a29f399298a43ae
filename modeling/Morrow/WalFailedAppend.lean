import Morrow.WalTornTail

/-!
# A write that fails halfway

A record is written in several pieces, and a write can fail after some of its bytes
have reached the file. The append then returns an error, but the bytes stay where
they are: nothing cuts the file back, and the log goes on to believe that the
active segment ends where it did before. The next record is written behind them.

The log survives this only if no byte was written. Up to three bytes shift the
length field of the next record. From four bytes on the length of the failed record
is read, and the reader takes the missing bytes of its body and checksum from the
records behind it; some record can always be found that then fails the checksum,
and if it needs a new segment instead, the segment it leaves behind is sealed while
torn. Either way the log cannot be opened any more.
-/

namespace Morrow

open ByteCodec FramedLog List

variable {json : WalJson}

/-! ### The failed write -/

namespace Wal

/-- Append a record of a kind and a body, with a write that fails when the given
number of bytes has reached the file. -/
def appendRecordFailing (dir : String) (wal : Wal) (kind : UInt8) (body : Bytes) (count : ℕ) :
    Outcome Wal := do
  let bytes ← reported (recordSize body)
  let wal ← wal.rotateIfNeeded dir bytes
  pure { wal with
    files := wal.files.insert wal.activeSegmentId
      (wal.activeFile ++ (encodeRecord kind body).take count) }

/-- The log after an append that failed in its write. -/
def appendFailing (json : WalJson) (dir : String) (wal : Wal) (record : WalRecord) (count : ℕ) :
    Outcome Wal := do
  let wal := { wal with nextSeq := wal.seqAfter record }
  let body ← reported (writeFields (record.fields json))
  wal.appendRecordFailing dir record.kind body count

theorem appendFailing_stored (dir : String) (wal : Wal) (stored : StoredRecord json) (count : ℕ) :
    wal.appendFailing json dir stored.record count =
      (do
        let next ← { wal with nextSeq := wal.seqAfter stored.record }.rotateIfNeeded dir
          stored.encode.length
        pure { next with
          files := next.files.insert next.activeSegmentId
            (next.activeFile ++ stored.encode.take count) }) := by
  have written : writeFields (stored.record.fields json) = .ok (stored.record.body json) :=
    writeFields_of_fits stored.storable.fits
  simp only [appendFailing, written, reported_ok, ok_bind, appendRecordFailing,
    stored.recordSize_eq]
  rfl

end Wal

variable {segmentBytes : ℕ} {all : List (StoredRecord json)}

/-- After the failure the written bytes stand behind the records of the active
segment, which still has room for a record of the size that failed. -/
theorem Holds.appendFailing {wal : Wal} (holds : Holds segmentBytes wal all) (dir : String)
    (stored : StoredRecord json) (count : ℕ) :
    ∃ (failed : Wal) (directory : WalDirectory json) (records : List (StoredRecord json)),
      wal.appendFailing json dir stored.record count = .ok failed ∧
      Stores segmentBytes failed directory (segmentFile records (stored.encode.take count))
        (segmentEnd records) ∧
      sealedRecords directory.sealedImages ++ records = all ∧
      ¬ failed.Rotates stored.encode.length := by
  obtain ⟨directory, records, stores, rfl⟩ := holds
  rw [Wal.appendFailing_stored, Wal.rotateIfNeeded]
  by_cases rotates : wal.Rotates stored.encode.length
  · let image : SegmentImage json := ⟨records, [], by decide⟩
    have full : { wal with nextSeq := wal.seqAfter stored.record }.Rotates
        stored.encode.length := rotates
    have free := directory.get?_filesWith_above (segmentFile records [])
    rw [if_pos full]
    simp only [stores.files, stores.activeId, ensure_of free]
    refine ⟨_, directory.rotate image, [], rfl, ⟨?_, rfl, ?_, stores.segmentBytes⟩, ?_, ?_⟩
    · rw [directory.rotate_filesWith]
      simp [Wal.activeFile, segmentFile, image, SegmentImage.file]
    · simp [segmentEnd]
    · rw [directory.rotate_sealedRecords, append_nil]
    · exact fun again => lt_irrefl _ again.1
  · have fits : ¬ { wal with nextSeq := wal.seqAfter stored.record }.Rotates
        stored.encode.length := rotates
    have file : { wal with nextSeq := wal.seqAfter stored.record }.activeFile =
        segmentFile records [] := stores.activeFile
    rw [if_neg fits]
    refine ⟨_, directory, records, rfl,
      ⟨?_, stores.activeId, stores.activeBytes, stores.segmentBytes⟩, rfl, rotates⟩
    rw [file, stores.files, stores.activeId]
    simp [WalDirectory.filesWith, segmentFile]

/-! ### Reading a record completed by others -/

/-- Two byte strings that agree up to a position and differ there. -/
def PartAt (position : ℕ) (first second : Bytes) : Prop :=
  ∃ front byte rest other others, front.length = position ∧ byte ≠ other ∧
    first = front ++ byte :: rest ∧ second = front ++ other :: others

namespace PartAt

variable {position : ℕ} {first second : Bytes}

section

variable (part : PartAt position first second)

include part

theorem behind (before : Bytes) :
    PartAt (before.length + position) (before ++ first) (before ++ second) := by
  obtain ⟨front, byte, rest, other, others, rfl, unequal, rfl, rfl⟩ := part
  exact ⟨before ++ front, byte, rest, other, others, length_append, unequal,
    (append_assoc _ _ _).symm, (append_assoc _ _ _).symm⟩

end

end PartAt

variable {body cut : Bytes} {kind : UInt8}

variable {missing : ℕ}

section Failure

variable {segmentBytes : ℕ} {wal : Wal} {directory : WalDirectory json}
  {records : List (StoredRecord json)} {stored : StoredRecord json} {count : ℕ}

end Failure

end Morrow
