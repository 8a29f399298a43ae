import Morrow.ByteCodec

/-!
# Files of framed records

A log file is a sequence of encoded records. It is read from the front, one
record at a time, and each record is applied to a state before the next one is
read. A file cut at an arbitrary length holds the records that lie completely
before the cut and a strict prefix of the next one.

The reader is any function that answers, for the bytes that are left, whether the
file ends, holds a record, ends inside one, or is corrupt. The results below need
no more of it than that it reads a record back in front of whatever follows.
-/

namespace Morrow.FramedLog

open ByteCodec List

variable {α β σ ε : Type}

/-- What a reader finds at the front of the bytes that are left. -/
inductive ReadStep (α : Type)
  | ended
  | record (value : α) (length : ℕ)
  | torn
  | corrupt (message : String)
deriving DecidableEq

/-- The state after the records that were read, the offset behind them, and
whether the file ended inside a record. -/
structure Scanned (σ : Type) where
  state : σ
  offset : ℕ
  torn : Bool
deriving DecidableEq

/-- Read and apply records until the file ends, or ends inside a record. The
first argument bounds the number of records. -/
def scan (read : Bytes → ReadStep α) (corrupt : String → ε) (apply : σ → α → Except ε σ) :
    ℕ → Bytes → ℕ → σ → Except ε (Scanned σ)
  | 0, _, offset, state => .ok ⟨state, offset, false⟩
  | bound + 1, bytes, offset, state =>
    match read bytes with
    | .ended => .ok ⟨state, offset, false⟩
    | .torn => .ok ⟨state, offset, true⟩
    | .corrupt message => .error (corrupt message)
    | .record value length =>
      match apply state value with
      | .error error => .error error
      | .ok next => scan read corrupt apply bound (bytes.drop length) (offset + length) next

/-- The records of a file, one after the other. -/
def encodeAll (encode : β → Bytes) (records : List β) : Bytes := records.flatMap encode

section Encodings

variable (encode : β → Bytes)

@[simp] theorem encodeAll_nil : encodeAll encode [] = [] := rfl

@[simp] theorem encodeAll_cons (record : β) (records : List β) :
    encodeAll encode (record :: records) = encode record ++ encodeAll encode records := rfl

theorem encodeAll_append (first second : List β) :
    encodeAll encode (first ++ second) = encodeAll encode first ++ encodeAll encode second :=
  flatMap_append

/-! ### Cutting a file -/

/-- The records that lie completely within the first bytes of their file. -/
def completeWithin : ℕ → List β → List β
  | _, [] => []
  | count, record :: records =>
    if (encode record).length ≤ count then
      record :: completeWithin (count - (encode record).length) records
    else []

/-- What a cut leaves of the record it falls into. -/
def cutRecord : ℕ → List β → Bytes
  | _, [] => []
  | count, record :: records =>
    if (encode record).length ≤ count then cutRecord (count - (encode record).length) records
    else (encode record).take count

variable (count : ℕ) (records : List β)

/-- A file cut at any length is its complete records and the rest of the cut. -/
theorem take_encodeAll :
    (encodeAll encode records).take count =
      encodeAll encode (completeWithin encode count records) ++ cutRecord encode count records := by
  induction records generalizing count with
  | nil => simp [completeWithin, cutRecord]
  | cons record records ih =>
    simp only [encodeAll_cons, completeWithin, cutRecord]
    split
    · rename_i whole
      rw [take_append, take_of_length_le whole, ih, encodeAll_cons, append_assoc]
    · rw [take_append_of_le_length (by omega)]
      simp

/-- A cut either falls between records or leaves a strict, nonempty prefix of one. -/
theorem cutRecord_cases :
    cutRecord encode count records = [] ∨
      ∃ record ∈ records, cutRecord encode count records <+: encode record ∧
        (cutRecord encode count records).length < (encode record).length := by
  induction records generalizing count with
  | nil => exact .inl rfl
  | cons record records ih =>
    simp only [cutRecord]
    split
    · rcases ih (count - (encode record).length) with none | some
      · exact .inl none
      · obtain ⟨later, member, cut⟩ := some
        exact .inr ⟨later, mem_cons_of_mem record member, cut⟩
    · refine .inr ⟨record, mem_cons_self, take_prefix _ _, ?_⟩
      rw [length_take]
      omega

/-- What a cut leaves is a strict prefix of the record behind the complete ones. -/
theorem cutRecord_next {count : ℕ} {records : List β} {record : β}
    (next : records[(completeWithin encode count records).length]? = some record) :
    cutRecord encode count records <+: encode record ∧
      (cutRecord encode count records).length < (encode record).length := by
  induction records generalizing count with
  | nil => simp at next
  | cons first records ih =>
    simp only [completeWithin, cutRecord] at next ⊢
    split at next
    · rename_i whole
      rw [if_pos whole]
      exact ih next
    · rename_i inside
      obtain rfl : first = record := by simpa using next
      rw [if_neg inside]
      constructor
      · exact take_prefix _ _
      · rw [length_take]
        omega

/-- Behind all records a cut leaves nothing. -/
theorem cutRecord_end {count : ℕ} {records : List β}
    (ended : records[(completeWithin encode count records).length]? = none) :
    cutRecord encode count records = [] := by
  induction records generalizing count with
  | nil => rfl
  | cons first records ih =>
    simp only [completeWithin, cutRecord] at ended ⊢
    split at ended
    · rename_i whole
      rw [if_pos whole]
      exact ih ended
    · simp at ended

theorem completeWithin_initial :
    completeWithin encode count records <+: records := by
  induction records generalizing count with
  | nil => exact prefix_refl _
  | cons record records ih =>
    rw [completeWithin]
    split
    · exact (prefix_cons_inj record).mpr (ih _)
    · exact nil_prefix

theorem completeWithin_sublist :
    (completeWithin encode count records).Sublist records :=
  (completeWithin_initial encode count records).sublist

end Encodings

/-! ### Reading a file back -/

/-- The reader and the state transition read an encoded record back, whatever
follows it, and take the step its meaning prescribes. -/
structure ReadsBack (read : Bytes → ReadStep α) (apply : σ → α → Except ε σ)
    (encode : β → Bytes) (raw : β → α) (step : σ → β → σ) : Prop where
  reads : ∀ record rest, read (encode record ++ rest) = .record (raw record) (encode record).length
  applies : ∀ state record, apply state (raw record) = .ok (step state record)

variable {read : Bytes → ReadStep α} {corrupt : String → ε} {apply : σ → α → Except ε σ}
  {encode : β → Bytes} {raw : β → α} {step : σ → β → σ}

variable {records : List β}

/-- Scanning records that are read back applies them in order and goes on behind them. -/
theorem scan_foldlM
    (reads : ∀ record ∈ records, ∀ rest,
      read (encode record ++ rest) = .record (raw record) (encode record).length) (bound : ℕ)
    (rest : Bytes) (offset : ℕ) {state result : σ}
    (applied : records.foldlM (fun state record => apply state (raw record)) state = .ok result) :
    scan read corrupt apply (records.length + bound) (encodeAll encode records ++ rest) offset
        state =
      scan read corrupt apply bound rest (offset + (encodeAll encode records).length) result := by
  induction records generalizing offset state with
  | nil =>
    obtain rfl : state = result := Except.ok.inj applied
    simp
  | cons record records ih =>
    have bounds : (record :: records).length + bound = records.length + bound + 1 := by
      simp only [length_cons]
      omega
    rw [foldlM_cons] at applied
    rw [bounds, encodeAll_cons, append_assoc, scan, reads record mem_cons_self]
    cases first : apply state (raw record) with
    | error failure =>
      rw [first] at applied
      cases applied
    | ok next =>
      rw [first] at applied
      simp only [first, drop_left, length_append]
      rw [ih (forall_mem_cons.mp reads).2 _ applied, Nat.add_assoc]

theorem foldlM_of_applies
    (applies : ∀ record ∈ records, ∀ state, apply state (raw record) = .ok (step state record))
    (state : σ) :
    records.foldlM (fun state record => apply state (raw record)) state =
      .ok (records.foldl step state) := by
  induction records generalizing state with
  | nil => rfl
  | cons record records ih =>
    rw [foldlM_cons, applies record mem_cons_self]
    exact ih (forall_mem_cons.mp applies).2 _

/-- Scanning records that are read back and applied goes on behind them. -/
theorem scan_records
    (reads : ∀ record ∈ records, ∀ rest,
      read (encode record ++ rest) = .record (raw record) (encode record).length)
    (applies : ∀ record ∈ records, ∀ state, apply state (raw record) = .ok (step state record))
    (bound : ℕ) (rest : Bytes) (offset : ℕ) (state : σ) :
    scan read corrupt apply (records.length + bound) (encodeAll encode records ++ rest) offset
        state =
      scan read corrupt apply bound rest (offset + (encodeAll encode records).length)
        (records.foldl step state) :=
  scan_foldlM reads bound rest offset (foldlM_of_applies applies state)

section

variable (back : ReadsBack read apply encode raw step)

include back

/-- Scanning encoded records applies them in order and goes on behind them. -/
theorem ReadsBack.scan_append (records : List β)
    (bound : ℕ) (rest : Bytes) (offset : ℕ) (state : σ) :
    scan read corrupt apply (records.length + bound) (encodeAll encode records ++ rest) offset
        state =
      scan read corrupt apply bound rest (offset + (encodeAll encode records).length)
        (records.foldl step state) :=
  scan_records (fun record _ => back.reads record) (fun record _ state => back.applies state record)
    bound rest offset state

/-- Scanning encoded records followed by bytes at which the reader stops. -/
theorem ReadsBack.scan_stop (records : List β)
    {bound : ℕ} (enough : records.length < bound) {rest : Bytes} {torn : Bool}
    (stops : read rest = if torn then .torn else .ended) (offset : ℕ) (state : σ) :
    scan read corrupt apply bound (encodeAll encode records ++ rest) offset state =
      .ok ⟨records.foldl step state, offset + (encodeAll encode records).length, torn⟩ := by
  obtain ⟨further, rfl⟩ : ∃ further, bound = records.length + (further + 1) :=
    ⟨bound - records.length - 1, by omega⟩
  rw [back.scan_append, scan, stops]
  cases torn <;> rfl

end

/-- Nonempty records leave room for a bound on their number. -/
theorem length_le_encodeAll (nonempty : ∀ record : β, encode record ≠ []) (records : List β) :
    records.length ≤ (encodeAll encode records).length := by
  induction records with
  | nil => exact Nat.zero_le _
  | cons record records ih =>
    have positive := length_pos_iff.mpr (nonempty record)
    simp only [encodeAll_cons, length_append, length_cons]
    omega

end Morrow.FramedLog
