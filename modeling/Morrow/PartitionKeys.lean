import Mathlib

/-!
# Stream and partition names

A stream name is checked when it is built and never changes afterwards; a
partition number is a 32-bit word. Maps on disk and in metadata name a partition
by one text, the stream, a colon and the decimal partition number, and readers
take it apart at the last colon. A stream name may itself contain colons: the
partition digits contain none, so the last colon is the separator that was
written and no two partitions share a text.
-/

namespace Morrow

open List

/-- Unicode `White_Space`, as `char::is_whitespace` decides it. -/
def isWhitespace (symbol : Char) : Bool :=
  let code := symbol.toNat
  (9 ≤ code && code ≤ 13) || code == 0x20 || code == 0x85 || code == 0xA0 || code == 0x1680 ||
    (0x2000 ≤ code && code ≤ 0x200A) || code == 0x2028 || code == 0x2029 || code == 0x202F ||
    code == 0x205F || code == 0x3000

/-- The admission check of `StreamId::new`. -/
def validStreamName (name : String) : Bool :=
  !name.isEmpty && !(name.toList.head? == some '_') && !name.toList.contains '.' &&
    !name.toList.any isWhitespace

/-- A stream name that passed its admission check. -/
structure StreamId where
  name : String
  valid : validStreamName name = true
deriving DecidableEq

/-- Build a stream name, or refuse it with the source's message. -/
def StreamId.new (value : String) : Except String StreamId :=
  if valid : validStreamName value = true then .ok ⟨value, valid⟩
  else .error ("stream name must be non-empty, contain no '.', contain no whitespace, " ++
    "and not start with '_'")

theorem StreamId.new_name (stream : StreamId) : StreamId.new stream.name = .ok stream := by
  simp [StreamId.new, stream.valid]

theorem validStreamName_orders : validStreamName "orders" = true := by decide

/-- A partition number within its machine word. -/
structure PartitionId where
  value : ℕ
  bounded : value < 2 ^ 32
deriving DecidableEq

theorem PartitionId.zero_bounded : 0 < 2 ^ 32 := by decide

theorem PartitionId.one_bounded : 1 < 2 ^ 32 := by decide

theorem PartitionId.two_bounded : 2 < 2 ^ 32 := by decide

/-- The partitions `0..count` of a stream. -/
def partitionsBelow (count : PartitionId) : List PartitionId :=
  (finRange count.value).map
    (fun index : Fin count.value => ⟨index, index.isLt.trans count.bounded⟩)

theorem mem_partitionsBelow {count partition : PartitionId} :
    partition ∈ partitionsBelow count ↔ partition.value < count.value := by
  simp only [partitionsBelow, mem_map, mem_finRange, true_and]
  constructor
  · rintro ⟨index, rfl⟩
    exact index.isLt
  · intro below
    exact ⟨⟨partition.value, below⟩, rfl⟩

/-- A partition as the data plane's maps name it: the stream's text and its number. -/
structure PartitionRef where
  stream : String
  partition : PartitionId
deriving DecidableEq

namespace PartitionRef

/-- Partitions are ordered by stream text, then by number. -/
def rank (ref : PartitionRef) : String ×ₗ ℕ := toLex (ref.stream, ref.partition.value)

theorem rank_injective : Function.Injective rank := by
  rintro ⟨leftStream, ⟨leftValue, leftBounded⟩⟩ ⟨rightStream, ⟨rightValue, rightBounded⟩⟩ same
  have pair : (leftStream, leftValue) = (rightStream, rightValue) := toLex.injective same
  obtain ⟨rfl, rfl⟩ := Prod.mk.inj pair
  rfl

instance : LinearOrder PartitionRef := LinearOrder.lift' rank rank_injective

end PartitionRef

/-- The text that names a partition in metadata, journals and cursor maps. -/
def partitionKey (stream : String) (partition : ℕ) : String :=
  stream ++ ":" ++ partition.repr

/-- Split a character list at its last separator. -/
def rsplitChars (separator : Char) (text : List Char) : Option (List Char × List Char) :=
  let tail := text.reverse.takeWhile (· != separator)
  match text.reverse.dropWhile (· != separator) with
  | [] => none
  | _ :: front => some (front.reverse, tail.reverse)

/-- `str::rsplit_once(':')`. -/
def rsplitOnce (text : String) : Option (String × String) :=
  (rsplitChars ':' text.toList).map (fun parts => (String.ofList parts.1, String.ofList parts.2))

/-- `str::parse::<u32>`: an optional plus sign, then at least one digit, with a
value that fits the word. -/
def parseU32 (text : String) : Option PartitionId :=
  let digits := match text.toList with
    | '+' :: rest => rest
    | other => other
  if digits.isEmpty || !digits.all Char.isDigit then none
  else
    let value := Nat.ofDigitChars 10 digits 0
    if bounded : value < 2 ^ 32 then some ⟨value, bounded⟩ else none

/-- Take a partition text apart; a text without a separator or without a
partition number names no partition. -/
def parsePartitionKey (key : String) : Option PartitionRef := do
  let (stream, partition) ← rsplitOnce key
  let partition ← parseU32 partition
  pure ⟨stream, partition⟩

/-- The last separator of a text whose tail contains none is the one before
that tail. -/
theorem rsplitChars_append (separator : Char) (front tail : List Char)
    (absent : separator ∉ tail) :
    rsplitChars separator (front ++ separator :: tail) = some (front, tail) := by
  have kept : ∀ symbol ∈ tail.reverse, (symbol != separator) = true := by
    intro symbol member
    simp only [bne_iff_ne, ne_eq]
    rintro rfl
    exact absent (mem_reverse.mp member)
  have reversed : (front ++ separator :: tail).reverse =
      tail.reverse ++ separator :: front.reverse := by simp
  have taken : (front ++ separator :: tail).reverse.takeWhile (· != separator) = tail.reverse := by
    rw [reversed, takeWhile_append_of_pos kept]
    simp
  have dropped : (front ++ separator :: tail).reverse.dropWhile (· != separator) =
      separator :: front.reverse := by
    rw [reversed, dropWhile_append_of_pos kept]
    simp
  simp only [rsplitChars, taken, dropped, reverse_reverse]

theorem colon_not_in_digits (value : ℕ) : ':' ∉ value.repr.toList := by
  intro member
  rw [Nat.toList_repr] at member
  have digit := Nat.isDigit_of_mem_toDigits (by decide) (by decide) member
  exact absurd digit (by decide)

/-- Splitting a partition text returns the stream and the written digits. -/
theorem rsplitOnce_partitionKey (stream : String) (partition : ℕ) :
    rsplitOnce (partitionKey stream partition) = some (stream, partition.repr) := by
  have text : (partitionKey stream partition).toList =
      stream.toList ++ ':' :: partition.repr.toList := by
    simp [partitionKey]
  rw [rsplitOnce, text, rsplitChars_append ':' _ _ (colon_not_in_digits partition)]
  simp only [Option.map_some, String.ofList_toList]

/-- A partition text determines the stream and the number it was written for. -/
theorem partitionKey_inj {stream other : String} {partition number : ℕ} :
    partitionKey stream partition = partitionKey other number ↔
      stream = other ∧ partition = number := by
  constructor
  · intro same
    have parts := congrArg rsplitOnce same
    rw [rsplitOnce_partitionKey, rsplitOnce_partitionKey] at parts
    obtain ⟨streams, digits⟩ := Prod.mk.inj (Option.some.inj parts)
    exact ⟨streams, Nat.repr_inj.mp digits⟩
  · rintro ⟨rfl, rfl⟩
    rfl

/-- The written digits of a partition number parse back to it. -/
theorem parseU32_repr (partition : PartitionId) :
    parseU32 partition.value.repr = some partition := by
  have digits : partition.value.repr.toList = Nat.toDigits 10 partition.value := Nat.toList_repr
  have isDigits : (Nat.toDigits 10 partition.value).all Char.isDigit = true := by
    rw [all_eq_true]
    intro symbol member
    exact Nat.isDigit_of_mem_toDigits (by decide) (by decide) member
  have nonempty : Nat.toDigits 10 partition.value ≠ [] := Nat.toDigits_ne_nil
  have unsigned : (match Nat.toDigits 10 partition.value with
      | '+' :: rest => rest
      | other => other) = Nat.toDigits 10 partition.value := by
    split
    · rename_i rest shape
      have digit : Char.isDigit '+' = true := by
        rw [shape] at isDigits
        exact (all_eq_true.mp isDigits) '+' mem_cons_self
      exact absurd digit (by decide)
    · rfl
  have value : Nat.ofDigitChars 10 (Nat.toDigits 10 partition.value) 0 = partition.value :=
    Nat.ofDigitChars_ten_toDigits
  simp only [parseU32, digits, unsigned, isDigits, value, partition.bounded, dif_pos]
  simp [nonempty]

/-- Every partition text written by the program names its partition again. -/
@[simp] theorem parsePartitionKey_partitionKey (ref : PartitionRef) :
    parsePartitionKey (partitionKey ref.stream ref.partition.value) = some ref := by
  simp [parsePartitionKey, rsplitOnce_partitionKey, parseU32_repr]

/-- Distinct partitions have distinct texts. -/
theorem partitionKey_injective (left right : PartitionRef)
    (same : partitionKey left.stream left.partition.value =
      partitionKey right.stream right.partition.value) : left = right := by
  have parsed := congrArg parsePartitionKey same
  simpa using parsed

end Morrow
