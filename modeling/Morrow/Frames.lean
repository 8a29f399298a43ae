import Morrow.BrokerRecords

/-!
# Frames of a fetch

Every message of a fetch is answered with a header line of its own. The length of its
frame can be computed without building it.
-/

namespace Morrow

open ByteCodec List

variable (value : ℕ)

/-- `format!` of an unsigned number. -/
def decimal : String := toString value

/-- The number of decimal digits, by repeated division. -/
def digits (value : ℕ) : ℕ := if value < 10 then 1 else digits (value / 10) + 1

def hexDigit : Char :=
  "0123456789abcdef".toList.getD value '0'

def hex (bytes : Bytes) : String :=
  String.ofList (bytes.flatMap fun byte => [hexDigit (byte.toNat / 16), hexDigit (byte.toNat % 16)])

/-- The id under which the broker knows a client's consumer. -/
def pullConsumerId (durableId name : String) : String :=
  "pull-" ++ hex (utf8 durableId) ++ "-" ++ hex (utf8 name)

variable (name : String)

variable (headers : List MessageHeader)

/-- The application headers of a message. -/
def headerBlock : String :=
  "MORROW/1.0\r\n" ++
    headers.foldr (fun header rest => header.name ++ ": " ++ header.value ++ "\r\n" ++ rest) "" ++
    "\r\n"

variable (message : PublishRecord)

/-- The frame of a message. The caller passes an empty stream, partition 0 and offset 0
for a message that has none. -/
def durableMessage
    (attempt deadlineMs seq deliveryId : ℕ) : Bytes :=
  let block := headerBlock message.headers
  let headersLen := (utf8 block).length
  let totalLen := headersLen + message.payload.length
  utf8 ("DDELIVER " ++ name ++ " " ++ message.subject ++ " " ++ message.replyTo.getD "-" ++ " " ++
    message.stream.getD "" ++ " " ++ decimal (message.partition.getD 0) ++ " " ++
    decimal (message.offset.getD 0) ++ " " ++ (message.key.map hex).getD "-" ++ " " ++
    decimal message.timestampMs ++ " " ++ decimal attempt ++ " " ++ decimal deadlineMs ++ " " ++
    decimal seq ++ " " ++ decimal deliveryId ++ " " ++ decimal headersLen ++ " " ++
    decimal totalLen ++ "\r\n") ++
    utf8 block ++ message.payload ++ utf8 "\r\n"

def durableMessageEncodedLen
    (attempt deadlineMs seq deliveryId : ℕ) : ℕ :=
  let headersLen := 12 + (message.headers.map fun header =>
    (utf8 header.name).length + 2 + (utf8 header.value).length + 2).sum + 2
  let totalLen := headersLen + message.payload.length
  let keyLen := (message.key.map fun key => key.length * 2).getD 1
  9 + (utf8 name).length + 1 + (utf8 message.subject).length + 1 +
    (utf8 (message.replyTo.getD "-")).length + 1 + (utf8 (message.stream.getD "")).length + 1 +
    digits (message.partition.getD 0) + 1 + digits (message.offset.getD 0) + 1 + keyLen + 1 +
    digits message.timestampMs + 1 + digits attempt + 1 + digits deadlineMs + 1 + digits seq + 1 +
    digits deliveryId + 1 + digits headersLen + 1 + digits totalLen + 2 + totalLen + 2

/-! ### Lengths -/

theorem length_utf8 (text : String) : (utf8 text).length = text.utf8ByteSize := rfl

@[simp] theorem length_utf8_append (left right : String) :
    (utf8 (left ++ right)).length = (utf8 left).length + (utf8 right).length := by
  simp only [length_utf8, String.utf8ByteSize_append]

theorem length_utf8_ofList {chars : List Char} (ascii : ∀ char ∈ chars, char.utf8Size = 1) :
    (utf8 (String.ofList chars)).length = chars.length := by
  rw [length_utf8, String.utf8ByteSize_ofList]
  induction chars with
  | nil => rfl
  | cons char chars ih =>
    rw [String.utf8Len_cons, ih (forall_mem_cons.mp ascii).2, ascii char mem_cons_self, length_cons]

theorem length_toDigits (value : ℕ) : (Nat.toDigits 10 value).length = digits value := by
  induction value using digits.induct with
  | case1 value small =>
    rw [digits, if_pos small, Nat.toDigits_of_lt_base small]
    rfl
  | case2 value large ih =>
    rw [digits, if_neg large, Nat.toDigits_of_base_le (by decide) (by omega), length_append,
      ih]
    rfl

theorem utf8Size_of_isDigit {char : Char} (digit : char.isDigit = true) : char.utf8Size = 1 := by
  rw [Char.utf8Size_eq_one_iff]
  simp only [Char.isDigit, Bool.and_eq_true, decide_eq_true_eq, UInt32.le_iff_toNat_le] at digit ⊢
  exact digit.2.trans (by decide)

@[simp] theorem length_utf8_decimal : (utf8 (decimal value)).length = digits value := by
  rw [decimal, Nat.toString_eq_repr, Nat.repr_eq_ofList_toDigits, length_utf8_ofList,
    length_toDigits]
  intro char member
  exact utf8Size_of_isDigit (Nat.isDigit_of_mem_toDigits (by decide) (by decide) member)

theorem utf8Size_hexDigit {value : ℕ} (small : value < 16) : (hexDigit value).utf8Size = 1 := by
  interval_cases value <;> rfl

@[simp] theorem length_utf8_hex (bytes : Bytes) : (utf8 (hex bytes)).length = bytes.length * 2 := by
  rw [hex, length_utf8_ofList]
  · simp [length_flatMap]
  · intro char member
    obtain ⟨byte, -, pair⟩ := mem_flatMap.mp member
    have bounded := byte.toNat_lt
    simp only [mem_cons, not_mem_nil, or_false] at pair
    rcases pair with rfl | rfl
    · exact utf8Size_hexDigit (by omega)
    · exact utf8Size_hexDigit (by omega)

end Morrow
