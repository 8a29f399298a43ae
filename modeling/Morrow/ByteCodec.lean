import Mathlib

/-!
# Byte encodings and their readers

Words are written low byte first at a fixed width. A reader consumes the front
of a byte list and leaves the rest; it reads an encoding when, whatever follows
that encoding, it returns the value and exactly what follows. The rule composes
along a `do` block in the order in which an encoder concatenates its fields, so
a format's round trip is one application per field.
-/

namespace Morrow.ByteCodec

open List

/-- File and message contents. -/
abbrev Bytes := List UInt8

/-- The low `width` bytes of a number, least significant first. -/
def littleEndian : ℕ → ℕ → Bytes
  | 0, _ => []
  | width + 1, value => UInt8.ofNat value :: littleEndian width (value / 256)

/-- The number whose bytes are given least significant first. -/
def fromLittleEndian : Bytes → ℕ
  | [] => 0
  | byte :: bytes => byte.toNat + 256 * fromLittleEndian bytes

@[simp] theorem littleEndian_length (width value : ℕ) :
    (littleEndian width value).length = width := by
  induction width generalizing value with
  | zero => rfl
  | succ width ih => simp [littleEndian, ih]

theorem fromLittleEndian_littleEndian (width value : ℕ) :
    fromLittleEndian (littleEndian width value) = value % 256 ^ width := by
  induction width generalizing value with
  | zero => simp [littleEndian, fromLittleEndian, Nat.mod_one]
  | succ width ih =>
    have lowByte : (UInt8.ofNat value).toNat = value % 256 := by simp
    rw [littleEndian, fromLittleEndian, ih, lowByte, pow_succ']
    rw [Nat.mod_mul]

/-- A number that fits the width is read back unchanged. -/
theorem fromLittleEndian_of_lt {width value : ℕ} (fits : value < 256 ^ width) :
    fromLittleEndian (littleEndian width value) = value := by
  rw [fromLittleEndian_littleEndian, Nat.mod_eq_of_lt fits]

theorem fromLittleEndian_append (low high : Bytes) :
    fromLittleEndian (low ++ high) =
      fromLittleEndian low + 256 ^ low.length * fromLittleEndian high := by
  induction low with
  | nil => simp [fromLittleEndian]
  | cons byte low ih =>
    simp only [cons_append, fromLittleEndian, ih, length_cons, pow_succ]
    ring

/-- A reader of the front of a byte list, failing with an error of type `ε`. -/
abbrev Reader (ε α : Type) := StateT Bytes (Except ε) α

variable {ε α β : Type}

/-- Take exactly `count` bytes, or fail. -/
def take (short : ε) (count : ℕ) : Reader ε Bytes := fun bytes =>
  if count ≤ bytes.length then .ok (bytes.take count, bytes.drop count) else .error short

/-- A fixed-width word. -/
def word (short : ε) (width : ℕ) : Reader ε ℕ := fromLittleEndian <$> take short width

/-- Repeat a reader a given number of times. -/
def repeated (reader : Reader ε α) : ℕ → Reader ε (List α)
  | 0 => pure []
  | count + 1 => do
    let head ← reader
    let tail ← repeated reader count
    pure (head :: tail)

/-- The reader returns `value` and consumes exactly `encoding`, whatever follows it. -/
def Reads (reader : Reader ε α) (encoding : Bytes) (value : α) : Prop :=
  ∀ rest, reader.run (encoding ++ rest) = .ok (value, rest)

namespace Reads

theorem pure (value : α) : Reads (pure value : Reader ε α) [] value := fun _ => rfl

variable {reader : Reader ε α} {next : α → Reader ε β} {value : α}

/-- Reading a field and then the fields after it. -/
theorem bind {first second : Bytes} {result : β} (head : Reads reader first value)
    (tail : Reads (next value) second result) :
    Reads (reader >>= next) (first ++ second) result := by
  intro rest
  rw [append_assoc, StateT.run_bind, head (second ++ rest)]
  exact tail rest

variable {encoding : Bytes}

/-- Reading the last field and assembling the result. -/
theorem bind_last {result : β} (head : Reads reader encoding value)
    (tail : Reads (next value) [] result) :
    Reads (reader >>= next) encoding result := by
  have both := head.bind tail
  rwa [append_nil] at both

theorem map (head : Reads reader encoding value) (f : α → β) :
    Reads (f <$> reader) encoding (f value) := by
  intro rest
  rw [StateT.run_map, head rest]
  rfl

/-- Nothing is left when the encoding is the whole input. -/
theorem run_all (reads : Reads reader encoding value) : reader.run encoding = .ok (value, []) := by
  have whole := reads []
  rwa [append_nil] at whole

theorem take (short : ε) (bytes : Bytes) : Reads (take short bytes.length) bytes bytes := by
  intro rest
  have enough : bytes.length ≤ (bytes ++ rest).length := by simp
  simp only [StateT.run, ByteCodec.take, if_pos enough, take_left, drop_left]

theorem word (short : ε) {width value : ℕ} (fits : value < 256 ^ width) :
    Reads (word short width) (littleEndian width value) value := by
  have bytes := (Reads.take short (littleEndian width value)).map fromLittleEndian
  rwa [littleEndian_length, fromLittleEndian_of_lt fits] at bytes

theorem repeated {encode : α → Bytes} (values : List α)
    (each : ∀ value ∈ values, Reads reader (encode value) value) :
    Reads (repeated reader values.length) (values.flatMap encode) values := by
  induction values with
  | nil => exact Reads.pure []
  | cons value values ih =>
    have head := each value mem_cons_self
    have tail := ih (forall_mem_cons.mp each).2
    simp only [length_cons, flatMap_cons, ByteCodec.repeated]
    exact head.bind (tail.bind_last (Reads.pure (value :: values)))

end Reads

/-- The bytes of a text in UTF-8. -/
def utf8 (text : String) : Bytes := text.toByteArray.data.toList

variable (bytes : Bytes)

/-- Decode UTF-8, or refuse. -/
def fromUtf8 : Option String := String.fromUTF8? ⟨bytes.toArray⟩

@[simp] theorem fromUtf8_utf8 (text : String) : fromUtf8 (utf8 text) = some text := by
  have same : (⟨(utf8 text).toArray⟩ : ByteArray) = text.toByteArray := by simp [utf8]
  have valid : text.toByteArray.IsValidUTF8 := text.isValidUTF8
  rw [fromUtf8, same, String.fromUTF8?, dif_pos valid]
  congr 1

/-! ### Fields of variable length -/

/-- A byte string behind its length in four bytes. -/
def field : Bytes := littleEndian 4 bytes.length ++ bytes

def textField (text : String) : Bytes := field (utf8 text)

/-- A flag byte and, when it is one, the value's encoding. -/
def flagged (encode : α → Bytes) : Option α → Bytes
  | some value => 1 :: encode value
  | none => [0]

theorem field_length : (field bytes).length = 4 + bytes.length := by
  simp [field]

theorem flagged_length_ge (encode : α → Bytes) {value : Option α} {present : α}
    (member : present ∈ value) : (encode present).length ≤ (flagged encode value).length := by
  rw [Option.mem_def.mp member]
  simp [flagged]

@[simp] theorem field_ne_nil : field bytes ≠ [] := by
  intro empty
  have length := field_length bytes
  rw [empty, length_nil] at length
  omega

@[simp] theorem flagged_ne_nil (encode : α → Bytes) (value : Option α) :
    flagged encode value ≠ [] := by
  cases value <;> simp [flagged]

/-- A byte string behind its length. -/
def sized (short : ε) : Reader ε Bytes := do
  let length ← word short 4
  take short length

/-- A text behind its length. -/
def text (short notUtf8 : ε) : Reader ε String := do
  match fromUtf8 (← sized short) with
  | some value => pure value
  | none => throw notUtf8

theorem Reads.sized (short : ε) {value : Bytes} (fits : value.length < 2 ^ 32) :
    Reads (sized short) (field value) value := by
  have length : value.length < 256 ^ 4 := by
    norm_num
    exact fits
  exact (Reads.word short length).bind (Reads.take short value)

theorem Reads.text (short notUtf8 : ε) {value : String} (fits : (utf8 value).length < 2 ^ 32) :
    Reads (text short notUtf8) (textField value) value := by
  refine (Reads.sized short fits).bind_last ?_
  simp only [fromUtf8_utf8]
  exact Reads.pure value

/-! ### Checksums

The reflected CRC-32 of IEEE 802.3, computed bit by bit. Nothing below depends on
more than its being a function into 32-bit words; it is written out so that a
stored batch can be evaluated.
-/

/-- Shift one bit out of the remainder. -/
def crcShift (remainder : ℕ) : ℕ :=
  if remainder % 2 = 1 then (remainder / 2) ^^^ 0xEDB88320 else remainder / 2

/-- Feed one byte to the remainder. -/
def crcByte (remainder : ℕ) (byte : UInt8) : ℕ := crcShift^[8] (remainder ^^^ byte.toNat)

/-- The CRC-32 of a byte list. -/
def crc32 : ℕ := bytes.foldl crcByte 0xFFFFFFFF ^^^ 0xFFFFFFFF

theorem crcShift_lt {remainder : ℕ} (bounded : remainder < 2 ^ 32) :
    crcShift remainder < 2 ^ 32 := by
  unfold crcShift
  split
  · exact Nat.xor_lt_two_pow (by omega) (by decide)
  · omega

theorem crcByte_lt {remainder : ℕ} (bounded : remainder < 2 ^ 32) (byte : UInt8) :
    crcByte remainder byte < 2 ^ 32 := by
  have small : byte.toNat < 2 ^ 32 := lt_trans byte.toNat_lt (by decide)
  have mixed : remainder ^^^ byte.toNat < 2 ^ 32 := Nat.xor_lt_two_pow bounded small
  have shifted : ∀ steps value, value < 2 ^ 32 → crcShift^[steps] value < 2 ^ 32 := by
    intro steps
    induction steps with
    | zero => exact fun value below => below
    | succ steps ih =>
      exact fun value below => ih _ (crcShift_lt below)
  exact shifted 8 _ mixed

/-- A checksum fits its 32-bit field. -/
theorem crc32_lt : crc32 bytes < 2 ^ 32 := by
  have folded : ∀ (rest : Bytes) (remainder : ℕ), remainder < 2 ^ 32 →
      rest.foldl crcByte remainder < 2 ^ 32 := by
    intro rest
    induction rest with
    | nil => exact fun remainder below => below
    | cons byte rest ih =>
      exact fun remainder below => ih _ (crcByte_lt below byte)
  exact Nat.xor_lt_two_pow (folded bytes _ (by decide)) (by decide)

example : crc32 (utf8 "123456789") = 0xCBF43926 := by decide +kernel

end Morrow.ByteCodec
